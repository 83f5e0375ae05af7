import InfoProtocol.Proofs.Lexeme.Pieces

/-!
# Line by line

No lexeme but a newline holds a line feed, and the comment mark holds none either. So a text can be
split at any line feed and each part on its own: the lexemes of the first part, the line feed, the
lexemes of the second. A carriage return in front of the line feed would belong to the line break,
and has to be excluded.
-/

namespace InfoProtocol.Lexeme

variable {x : Lexicon} {s t : List Char}

def lineFeed : Lexeme := ⟨some .newline, ['\n']⟩

/-- The splitting of a text, a line feed and another text: it goes on behind the first only where
the first is split to its end. -/
def Split.andLine (r q : Split) : Split :=
  match r.halt with
  | .finished => ⟨r.lexemes ++ lineFeed :: q.lexemes, q.halt⟩
  | _ => r

theorem Split.cons_andLine (l : Lexeme) (r q : Split) :
    (r.cons l).andLine q = (r.andLine q).cons l := by
  obtain ⟨ls, halt⟩ := r
  cases halt <;> rfl

theorem opensComment_lineFeed (hm : x.MarkInLine) :
    opensComment x (s ++ '\n' :: t) = opensComment x s := by
  rw [Bool.eq_iff_iff, Lexicon.opensComment_eq_true, Lexicon.opensComment_eq_true]
  refine exists_congr fun m => and_congr_right fun hmark => ⟨fun h => ?_, fun h => ?_⟩
  · exact prefix_before (hm m hmark).1 h ⟨t, by simp⟩
  · exact h.trans (List.prefix_append _ _)

theorem breaksLine_lineFeed {c : Char} (hs : (c :: s).getLast? ≠ some '\r') :
    breaksLine (c :: (s ++ '\n' :: t)) = breaksLine (c :: s) := by
  rw [Bool.eq_iff_iff, breaksLine_iff, breaksLine_iff]
  cases s with
  | nil =>
    have hc : '\r' ≠ c := by simpa [eq_comm] using hs
    simp [List.cons_prefix_cons, hc]
  | cons d s => simp [List.cons_prefix_cons]

theorem getLast?_tail {c : Char} (hs : (c :: s).getLast? ≠ some '\r') :
    s.getLast? ≠ some '\r' := by
  cases s with
  | nil => simp
  | cons d s => rwa [List.getLast?_cons_cons] at hs

theorem run_lineFeed (p : Char → Bool) (hs : s.getLast? ≠ some '\r') :
    run p (s ++ '\n' :: t) = run p s := by
  induction s with
  | nil => rfl
  | cons c s ih =>
    rw [List.cons_append, run, run, breaksLine_lineFeed hs, ih (getLast?_tail hs)]

theorem takeWhile_lineFeed (hx : x.Acceptable) :
    (s ++ '\n' :: t).takeWhile x.isWordChar = s.takeWhile x.isWordChar := by
  induction s with
  | nil =>
    have hnl : x.isWordChar '\n' ≠ true := not_isWordChar hx (by decide)
    exact List.takeWhile_cons_of_neg hnl
  | cons c s ih => rw [List.cons_append, List.takeWhile_cons, List.takeWhile_cons, ih]

theorem front?_lineFeed (hx : x.Acceptable) (hm : x.MarkInLine) (hne : s ≠ [])
    (hs : s.getLast? ≠ some '\r') : front? x (s ++ '\n' :: t) = front? x s := by
  by_cases ho : opensComment x s = true
  · have ho' : opensComment x (s ++ '\n' :: t) = true := (opensComment_lineFeed hm).trans ho
    unfold front?
    rw [if_pos ho, if_pos ho', run_lineFeed _ hs]
  · have ho' : ¬ opensComment x (s ++ '\n' :: t) = true := by rwa [opensComment_lineFeed hm]
    obtain ⟨c, s, rfl⟩ := List.exists_cons_of_ne_nil hne
    unfold front?
    rw [if_neg ho, if_neg ho', List.cons_append]
    split
    case h_1 h => cases h
    case h_3 h =>
      obtain ⟨rfl, hnext⟩ := List.cons.inj h
      cases s with
      | nil => exact absurd rfl hs
      | cons d s =>
        obtain ⟨rfl, -⟩ := List.cons.inj hnext
        rfl
    case h_10 h =>
      obtain ⟨rfl, hnext⟩ := List.cons.inj h
      cases s with
      | nil => cases hnext
      | cons d s =>
        obtain ⟨rfl, -⟩ := List.cons.inj hnext
        rfl
    case h_11 h =>
      obtain ⟨rfl, rfl⟩ := List.cons.inj h
      rw [run_lineFeed _ (getLast?_tail hs), takeWhile_lineFeed hx]
      symm
      split
      case h_1 h => cases h
      case h_11 h =>
        cases h
        rfl
      -- the other patterns are excluded for the longer text already
      all_goals
        next h =>
        cases h
        simp_all
    all_goals
      next h =>
      obtain ⟨rfl, -⟩ := List.cons.inj h
      rfl

theorem front?_lineFeed_nil (hx : x.Acceptable) (hm : x.MarkInLine) :
    front? x ('\n' :: t) = some lineFeed := by
  have ho : opensComment x ('\n' :: t) = false := by
    rw [← Bool.not_eq_true, Lexicon.opensComment_eq_true]
    rintro ⟨m, hmark, hpre⟩
    have hnil : m.toList <+: [] := prefix_before (hm m hmark).1 hpre ⟨t, rfl⟩
    have hempty : m = "" := String.toList_eq_nil_iff.1 (List.prefix_nil.1 hnil)
    exact (Lexicon.acceptable_iff.1 hx).2 (hempty ▸ hmark)
  unfold front?
  simp [ho, lineFeed]

theorem getLast?_drop {n : Nat} (hs : s.getLast? ≠ some '\r') :
    (s.drop n).getLast? ≠ some '\r' := by
  rw [List.getLast?_drop]
  split
  · simp
  · exact hs

theorem split_lineFeed (hx : x.Acceptable) (hm : x.MarkInLine) (hs : s.getLast? ≠ some '\r') :
    split x (s ++ '\n' :: t) = (split x s).andLine (split x t) := by
  fun_induction split x s with
  | case1 => exact split_cons (front?_lineFeed_nil hx hm) (by simp [lineFeed])
  | case2 c s h =>
    have h' := (front?_lineFeed (t := t) hx hm (List.cons_ne_nil c s) hs).trans h
    rw [List.cons_append] at h' ⊢
    rw [split]
    simp only [h', Split.andLine]
  | case3 c s l hl hnil =>
    have h' := (front?_lineFeed (t := t) hx hm (List.cons_ne_nil c s) hs).trans hl
    rw [List.cons_append] at h' ⊢
    rw [split]
    simp only [h', dif_pos hnil, Split.andLine]
  | case4 c s l hl hne _ ih =>
    have h' := (front?_lineFeed (t := t) hx hm (List.cons_ne_nil c s) hs).trans hl
    have hlen := (front?_isPrefix hl).length_le
    rw [Split.cons_andLine, ← ih (getLast?_drop hs), ← List.drop_append_of_le_length hlen]
    exact split_cons h' hne

end InfoProtocol.Lexeme
