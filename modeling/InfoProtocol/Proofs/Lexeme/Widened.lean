import InfoProtocol.Proofs.Lexeme.Words

/-!
# More word characters

A lexicon is widened by more word characters, the comment mark kept. Where the mark does not begin
with a word character of the wider lexicon, a comment opens at the same places under both. A word
could only become longer where the narrower lexicon finds a character at which nothing can stand;
so a text that is split to its end is split into the same lexemes under the wider lexicon.
-/

namespace InfoProtocol

namespace Lexicon

/-- `y` has the comment mark of `x`, which begins with no word character of `y` and no line break,
and at least the word characters of `x`. -/
structure Widens (y x : Lexicon) : Prop where
  mark : y.commentMark = x.commentMark
  words : ∀ c, x.isWordChar c = true → y.isWordChar c = true
  apart : ∀ m ∈ x.commentMark, ∀ c ∈ m.toList.head?,
    y.isWordChar c = false ∧ c ≠ '\n' ∧ c ≠ '\r'

variable {x y : Lexicon}

theorem Widens.acceptable (hy : y.Acceptable) (h : y.Widens x) : x.Acceptable := by
  refine acceptable_iff.2 ⟨fun c hc => ?_, h.mark ▸ (acceptable_iff.1 hy).2⟩
  have hword : x.isWordChar c = true := by
    rw [isWordChar, List.contains_iff_mem.2 hc, Bool.or_true]
  exact isWordChar_spec hy (h.words c hword)

theorem isWordChar_of_subset (h : x.wordExtra.toList ⊆ y.wordExtra.toList) {c : Char}
    (hc : x.isWordChar c = true) : y.isWordChar c = true := by
  rcases Bool.or_eq_true_iff.1 hc with hc | hc
  · rw [isWordChar, hc, Bool.true_or]
  · rw [isWordChar, List.contains_iff_mem.2 (h (List.contains_iff_mem.1 hc)), Bool.or_true]

end Lexicon

namespace Lexeme

open Lexicon

variable {x y : Lexicon} {c : Char} {s : List Char} {l : Lexeme}

theorem opensComment_widens (h : y.Widens x) : opensComment y s = opensComment x s := by
  rw [opensComment, opensComment, h.mark]

theorem front?_of_gained (hy : y.Acceptable) (h : y.Widens x) (hc : y.isWordChar c = true)
    (hn : x.isWordChar c = false) : front? x (c :: s) = none := by
  have ho : opensComment x (c :: s) = false := by
    refine opensComment_cons (h.acceptable hy) (fun m hm hhead => ?_) s
    rw [(h.apart m hm c hhead).1] at hc
    cases hc
  rw [front?_of_apart (isDelimiter_of_isWordChar hy hc) ho, if_neg (by simp [hn])]

theorem takeWhile_of_imp {p q : Char → Bool} (hpq : ∀ c, p c = true → q c = true)
    (hstop : ∀ c ∈ (s.drop (s.takeWhile p).length).head?, p c = false → q c = false) :
    s.takeWhile q = s.takeWhile p := by
  induction s with
  | nil => rfl
  | cons d s ih =>
    by_cases hd : p d = true
    · rw [List.takeWhile_cons_of_pos hd, List.length_cons, List.drop_succ_cons] at hstop
      rw [List.takeWhile_cons_of_pos hd, List.takeWhile_cons_of_pos (hpq d hd), ih hstop]
    · have hq : q d = false := by
        rw [List.takeWhile_cons_of_neg hd] at hstop
        exact hstop d rfl (by simpa using hd)
      rw [List.takeWhile_cons_of_neg hd, List.takeWhile_cons_of_neg (by simp [hq])]

theorem front?_widens (h : y.Widens x) (hl : front? x s = some l)
    (hstop : ∀ c ∈ (s.drop l.spelling.length).head?, x.isWordChar c = false →
      y.isWordChar c = false) :
    front? y s = some l := by
  unfold front? at hl ⊢
  rw [opensComment_widens h]
  split at hl
  · next ho => rw [if_pos ho, hl]
  · next ho =>
    rw [if_neg ho]
    split at hl
    case h_11 =>
      -- only here, where a word may begin, is the lexicon asked
      split at hl
      · next hb =>
        rw [if_pos hb]
        exact hl
      · next hb =>
        split at hl
        · next hw =>
          cases hl
          rw [if_neg hb, if_pos (h.words _ hw), takeWhile_of_imp h.words hstop]
        · cases hl
    all_goals exact hl

theorem split_widens (hy : y.Acceptable) (h : y.Widens x) (hs : (split x s).halt = .finished) :
    split y s = split x s := by
  fun_induction split x s with
  | case1 => rw [split]
  | case2 => cases hs
  | case3 => cases hs
  | case4 c s l hl hne _ ih =>
    rw [← ih hs]
    refine split_cons (front?_widens h hl fun d hd hn => ?_) hne
    rw [Bool.eq_false_iff]
    intro hw
    -- a word that grew by `d` would have been the end of the splitting under `x`
    obtain ⟨t, ht⟩ := List.head?_eq_some_iff.1 hd
    have hnone := front?_of_gained (s := t) hy h hw hn
    rw [Split.cons, ht, split] at hs
    simp only [hnone] at hs
    cases hs

end Lexeme

end InfoProtocol
