import InfoProtocol.Json.Scan

/-!
# JSON numbers

A number is scanned by its grammar: a sign, digits without a leading zero, a fraction and an
exponent. Where the text ends in front of a digit that is due, the caller says which fault that
is.
-/

namespace InfoProtocol.Json

def isDigit (c : UInt8) : Bool := 0x30 ≤ c && c ≤ 0x39

def opensNumber (c : UInt8) : Bool := c = 0x2d || isDigit c

def digits (atEnd : Fault) : Octets → Except Fault Octets
  | [] => .error atEnd
  | c :: s => if isDigit c then .ok (s.dropWhile isDigit) else .error .malformed

def exponent (atEnd : Fault) : Octets → Except Fault Octets
  | [] => .ok []
  | c :: s =>
    if c = 0x65 || c = 0x45 then
      match s with
      | [] => .error atEnd
      | d :: r => digits atEnd (if d = 0x2b || d = 0x2d then r else s)
    else .ok (c :: s)

def fraction (atEnd : Fault) : Octets → Except Fault Octets
  | [] => .ok []
  | c :: s =>
    if c = 0x2e then
      match digits atEnd s with
      | .ok r => exponent atEnd r
      | .error e => .error e
    else exponent atEnd (c :: s)

/-- A number without a sign, behind its first digit; a zero in front stands alone. -/
def unsigned (atEnd : Fault) (c : UInt8) (s : Octets) : Except Fault Octets :=
  if c = 0x30 then
    match s with
    | [] => .ok []
    | d :: _ => if isDigit d then .error .malformed else fraction atEnd s
  else if isDigit c then fraction atEnd (s.dropWhile isDigit)
  else .error .malformed

def number (atEnd : Fault) (c : UInt8) (s : Octets) : Except Fault Octets :=
  if c = 0x2d then
    match s with
    | [] => .error atEnd
    | d :: r => unsigned atEnd d r
  else unsigned atEnd c s

theorem digits_length {e : Fault} {s r : Octets} (h : digits e s = .ok r) :
    r.length ≤ s.length := by
  cases s with
  | nil => cases h
  | cons c s =>
    simp only [digits] at h
    split at h
    · cases h
      exact Nat.le_succ_of_le (List.dropWhile_suffix _).length_le
    · cases h

theorem exponent_length {e : Fault} {s r : Octets} (h : exponent e s = .ok r) :
    r.length ≤ s.length := by
  cases s with
  | nil => cases h; exact Nat.le_refl _
  | cons c s =>
    simp only [exponent] at h
    split at h
    · cases s with
      | nil => cases h
      | cons d t =>
        have := digits_length h
        split at this <;> simp only [List.length_cons] at this ⊢ <;> omega
    · cases h; exact Nat.le_refl _

theorem fraction_length {e : Fault} {s r : Octets} (h : fraction e s = .ok r) :
    r.length ≤ s.length := by
  cases s with
  | nil => cases h; exact Nat.le_refl _
  | cons c s =>
    simp only [fraction] at h
    split at h
    · split at h
      · next t ht =>
        have h1 := digits_length ht
        have h2 := exponent_length h
        simp only [List.length_cons]
        omega
      · cases h
    · exact exponent_length h

theorem unsigned_length {e : Fault} {c : UInt8} {s r : Octets} (h : unsigned e c s = .ok r) :
    r.length ≤ s.length := by
  simp only [unsigned] at h
  split at h
  · cases s with
    | nil => cases h; exact Nat.le_refl _
    | cons d t =>
      simp only at h
      split at h
      · cases h
      · exact fraction_length h
  · split at h
    · have h1 := fraction_length h
      have h2 := (List.dropWhile_suffix isDigit (l := s)).length_le
      omega
    · cases h

theorem number_length {e : Fault} {c : UInt8} {s r : Octets} (h : number e c s = .ok r) :
    r.length ≤ s.length := by
  simp only [number] at h
  split at h
  · cases s with
    | nil => cases h
    | cons d t => exact Nat.le_succ_of_le (unsigned_length h)
  · exact unsigned_length h

end InfoProtocol.Json
