import InfoProtocol.Text.Octets

/-!
# Scanning JSON text

JSON text arrives as octets. A reader takes a value off the front and leaves a shorter text; its
faults say whether the text ends inside the value, is no JSON, or is JSON of the wrong shape.
-/

namespace InfoProtocol.Json

inductive Fault
  | truncated
  | malformed
  | mismatched
  deriving DecidableEq, Repr

structure Read (α : Type) (s : Octets) where
  value : α
  rest : Octets
  shorter : rest.length < s.length

abbrev Reader (α : Type) := (s : Octets) → Except Fault (Read α s)

variable {α β : Type}

def Read.within {s r : Octets} (x : Read α r) (h : r.length ≤ s.length) : Read α s :=
  ⟨x.value, x.rest, Nat.lt_of_lt_of_le x.shorter h⟩

def Reader.map (f : α → β) (rd : Reader α) : Reader β := fun s =>
  match rd s with
  | .ok x => .ok ⟨f x.value, x.rest, x.shorter⟩
  | .error e => .error e

def isSpace (c : UInt8) : Bool := c = 0x20 || c = 0x0a || c = 0x0d || c = 0x09

def skipSpace (s : Octets) : Octets := s.dropWhile isSpace

theorem skipSpace_length (s : Octets) : (skipSpace s).length ≤ s.length :=
  (List.dropWhile_suffix _).length_le

theorem skipSpace_cons {s r : Octets} {c : UInt8} (h : skipSpace s = c :: r) :
    r.length < s.length := by
  have := skipSpace_length s
  rw [h] at this
  exact this

def literal : (w : Octets) → Octets → Except Fault Octets
  | [], s => .ok s
  | _ :: _, [] => .error .truncated
  | w :: ws, c :: s => if w = c then literal ws s else .error .malformed

theorem literal_length {w s r : Octets} (h : literal w s = .ok r) : r.length ≤ s.length := by
  induction w generalizing s with
  | nil => cases h; exact Nat.le_refl _
  | cons a w ih =>
    cases s with
    | nil => cases h
    | cons c s =>
      simp only [literal] at h
      split at h
      · exact Nat.le_succ_of_le (ih h)
      · cases h

def literalTail? (c : UInt8) : Option Octets :=
  if c = 0x6e then some [0x75, 0x6c, 0x6c]
  else if c = 0x74 then some [0x72, 0x75, 0x65]
  else if c = 0x66 then some [0x61, 0x6c, 0x73, 0x65]
  else none

end InfoProtocol.Json
