import InfoProtocol.Token.Layout
import Mathlib.Data.List.Destutter

/-!
# The outline of a table of tokens

The outline lists the kinds and texts of the tokens, without blanks and with one newline for each
run of newlines, also where blanks stood between them. It is what is left of a table when its
layout is taken off and places are forgotten.
-/

namespace InfoProtocol.Token

def content (t : Token) : TokenKind × String := (t.kind, t.text)

def Apart (a b : TokenKind × String) : Prop := ¬ (a.1 = .newline ∧ b.1 = .newline)

instance : DecidableRel Apart := fun a b =>
  inferInstanceAs (Decidable (¬ (a.1 = .newline ∧ b.1 = .newline)))

def outline (ts : List Token) : List (TokenKind × String) :=
  ((ts.filter fun t => t.kind ≠ .blank).map content).destutter Apart

variable {ts : List Token}

theorem destutter'_content (a : TokenKind × String) (ts : List Token) :
    ((ts.filter fun t => t.kind ≠ .blank).map content).destutter' Apart a =
      a :: (dropLayout (a.1 = .newline) ts).map content := by
  induction ts generalizing a with
  | nil => rfl
  | cons t ts ih =>
    by_cases hblank : t.kind = .blank
    · simp only [dropLayout, if_pos hblank, ← ih a]
      rw [List.filter_cons_of_neg (by simpa using hblank)]
    · simp only [dropLayout, if_neg hblank]
      rw [List.filter_cons_of_pos (by simpa using hblank), List.map_cons]
      by_cases hab : Apart a t.content
      · rw [List.destutter'_cons_pos _ hab, ih]
        by_cases ht : t.kind = .newline
        · have ha : a.1 ≠ .newline := fun ha => hab ⟨ha, ht⟩
          simp [content, ht, ha]
        · simp [content, ht]
      · obtain ⟨ha, ht⟩ := not_not.1 hab
        rw [List.destutter'_cons_neg _ hab, ih]
        have ht' : t.kind = .newline := ht
        simp [ha, ht']

theorem map_content_withoutLayout (ts : List Token) :
    (withoutLayout ts).map content = outline ts := by
  rw [withoutLayout, outline]
  induction ts with
  | nil => rfl
  | cons t ts ih =>
    by_cases hblank : t.kind = .blank
    · simp only [dropLayout, if_pos hblank, ih]
      rw [List.filter_cons_of_neg (by simpa using hblank)]
    · simp only [dropLayout, if_neg hblank]
      rw [List.filter_cons_of_pos (by simpa using hblank), List.map_cons, List.destutter_cons',
        destutter'_content]
      by_cases ht : t.kind = .newline <;> simp [content, ht]

end InfoProtocol.Token
