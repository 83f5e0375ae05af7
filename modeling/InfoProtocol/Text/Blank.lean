/-!
# Blank characters

A blank is a character with the Unicode property White_Space. Trimming takes the blanks
off both ends of a text and leaves the inside alone.
-/

namespace InfoProtocol.Text

def isBlank (c : Char) : Bool :=
  let n := c.toNat
  (0x09 ≤ n && n ≤ 0x0d) || n == 0x20 || n == 0x85 || n == 0xa0 || n == 0x1680 ||
    (0x2000 ≤ n && n ≤ 0x200a) || n == 0x2028 || n == 0x2029 || n == 0x202f || n == 0x205f ||
    n == 0x3000

def trimStart (s : List Char) : List Char := s.dropWhile isBlank

def trimEnd (s : List Char) : List Char := (s.reverse.dropWhile isBlank).reverse

def trim (s : String) : String := String.ofList (trimEnd (trimStart s.toList))

theorem trimStart_head {c : Char} {s t : List Char} (h : trimStart s = c :: t) :
    isBlank c = false := by
  induction s with
  | nil => simp [trimStart] at h
  | cons d s ih =>
    cases hd : isBlank d with
    | true => exact ih (by simpa [trimStart, hd] using h)
    | false =>
      simp only [trimStart, List.dropWhile_cons, hd, Bool.false_eq_true, if_false,
        List.cons.injEq] at h
      exact h.1 ▸ hd

theorem trimEnd_last {c : Char} {s t : List Char} (h : trimEnd s = t ++ [c]) :
    isBlank c = false := by
  have hr : trimStart s.reverse = c :: t.reverse := by
    have := congrArg List.reverse h
    simpa [trimEnd, trimStart] using this
  exact trimStart_head hr

theorem trimStart_eq {s : List Char} (h : ∀ c ∈ s.head?, isBlank c = false) : trimStart s = s := by
  cases s with
  | nil => rfl
  | cons c s =>
    apply List.dropWhile_cons_of_neg
    simp [h c rfl]

theorem trim_eq {s : String} (hfirst : ∀ c ∈ s.toList.head?, isBlank c = false)
    (hlast : ∀ c ∈ s.toList.getLast?, isBlank c = false) : trim s = s := by
  have hend : trimEnd s.toList = s.toList := by
    have hr : trimStart s.toList.reverse = s.toList.reverse :=
      trimStart_eq (by simpa using hlast)
    change (trimStart s.toList.reverse).reverse = _
    rw [hr, List.reverse_reverse]
  rw [trim, trimStart_eq hfirst, hend, String.ofList_toList]

end InfoProtocol.Text
