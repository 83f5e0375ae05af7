import InfoProtocol.Json.Number

/-!
# Magnitude of a JSON number

The spelling of a number is a whole significand times a power of ten. The significand is made of
the leading figures whose value fits in 64 bits; the figures behind them move the power alone. Both
factors are rounded to double precision before they are multiplied, and the number is too large
when their product is beyond the doubles.
-/

namespace InfoProtocol.Json

def digitsValue (ds : Octets) : Nat := ds.foldl (fun n d => 10 * n + (d.toNat - 0x30)) 0

/-- Appends to `n` the digits in front as long as the value fits in 64 bits, and counts those that
are left over. -/
def leading (n : Nat) : Octets → Nat × Nat
  | [] => (n, 0)
  | d :: ds =>
    let m := 10 * n + (d.toNat - 0x30)
    if m < Nat.pow 2 64 then leading m ds else (n, ds.length + 1)

structure Decimal where
  significand : Nat
  power : Int
deriving DecidableEq

def Decimal.ofOctets (s : Octets) : Decimal :=
  let mantissa := s.takeWhile fun c => c ≠ 0x65 && c ≠ 0x45
  let exponent := s.drop (mantissa.length + 1)
  let size := digitsValue (exponent.filter isDigit)
  let written : Int := if exponent.head? = some 0x2d then -size else size
  let decimals := ((mantissa.dropWhile (· ≠ 0x2e)).drop 1).length
  let (significand, leftOver) := leading 0 (mantissa.filter isDigit)
  ⟨significand, leftOver - decimals + written⟩

/-- The nearest whole number of 53 significant bits; a tie goes to the even neighbour. -/
def roundToDouble (n : Nat) : Nat :=
  let unit := Nat.pow 2 (n.log2 - 52)
  let q := n / unit
  let r := n % unit
  (if unit < 2 * r || (unit = 2 * r && q % 2 = 1) then q + 1 else q) * unit

/-- The greatest double plus half a unit in its last place: from here the nearest double is
infinite. -/
def doubleLimit : Nat := (Nat.pow 2 54 - 1) * Nat.pow 2 970

/-- Whether the product of the rounded factors is beyond the doubles. A negative power only makes
the number smaller; one above 308 is no double by itself. -/
def Decimal.isTooLarge (x : Decimal) : Bool :=
  x.significand ≠ 0 && 0 ≤ x.power &&
    (308 < x.power ||
      doubleLimit ≤ roundToDouble x.significand * roundToDouble (Nat.pow 10 x.power.toNat))

end InfoProtocol.Json
