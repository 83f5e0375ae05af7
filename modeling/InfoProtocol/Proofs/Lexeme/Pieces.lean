import InfoProtocol.Proofs.Lexeme.Words

/-!
# What each lexeme is

A lexeme at the front of a text is a comment or the spelling of a token. Which spellings a kind of
token has is said apart from how they are found, and so is what a comment is: it opens with the
comment mark, holds no line break and runs up to one, or to the end of the text. A mark that ends in
a carriage return may be met where a line feed follows; this carriage return belongs to the line
break then, and the comment is the mark without it.
-/

namespace InfoProtocol

/-- The comment mark, if there is one, holds no line feed and is no lone carriage return. -/
def Lexicon.MarkInLine (x : Lexicon) : Prop :=
  ∀ m ∈ x.commentMark, '\n' ∉ m.toList ∧ m ≠ "\r"

theorem Lexicon.MarkStandsOut.markInLine {x : Lexicon} (hm : x.MarkStandsOut)
    (h : ∀ m ∈ x.commentMark, '\n' ∉ m.toList) : x.MarkInLine := by
  refine fun m hmark => ⟨h m hmark, ?_⟩
  rintro rfl
  have hreturn := (hm _ hmark '\r' (by decide)).1
  exact absurd hreturn (by decide)

namespace Lexeme

/-- No line break begins within `w`, where `t` follows. -/
def Unbroken (w t : List Char) : Prop := ∀ v, v ≠ [] → v <:+ w → breaksLine (v ++ t) = false

/-- The spellings of a token of each kind; what follows matters to blanks, which leave the carriage
return of a line break to the newline. -/
inductive Spells (x : Lexicon) : TokenKind → List Char → List Char → Prop
  | lineFeed (t : List Char) : Spells x .newline ['\n'] t
  | returnLineFeed (t : List Char) : Spells x .newline ['\r', '\n'] t
  | mark {k : TokenKind} (hk : k ∉ [.word, .newline, .blank]) (t : List Char) :
      Spells x k k.label.toList t
  | word {w : List Char} (hne : w ≠ []) (hw : ∀ c ∈ w, x.isWordChar c = true) (t : List Char) :
      Spells x .word w t
  | blank {w t : List Char} (hne : w ≠ []) (hw : ∀ c ∈ w, Text.isBlank c = true)
      (hwt : Unbroken w t) : Spells x .blank w t

def GoesOn (x : Lexicon) : TokenKind → List Char → Prop
  | .word, c :: _ => x.isWordChar c = true
  | .blank, c :: s => Text.isBlank c = true ∧ breaksLine (c :: s) = false
  | _, _ => False

def Ends (t : List Char) : Prop := t = [] ∨ breaksLine t = true

structure Comment (x : Lexicon) (w t : List Char) : Prop where
  opens : ∃ m ∈ x.commentMark,
    m.toList <+: w ∨ m.toList = w ++ ['\r'] ∧ ['\r', '\n'] <+: t
  unbroken : Unbroken w t
  ends : Ends t

def Piece (x : Lexicon) (l : Lexeme) (t : List Char) : Prop :=
  match l.kind with
  | none => Comment x l.spelling t
  | some k => Spells x k l.spelling t ∧ ¬ GoesOn x k t

variable {x : Lexicon} {s w t : List Char} {k : TokenKind} {l : Lexeme}

theorem breaksLine_iff : breaksLine s = true ↔ ['\n'] <+: s ∨ ['\r', '\n'] <+: s := by
  unfold breaksLine
  split
  · simp
  · simp
  · next hn hr =>
    simp only [reduceCtorEq, false_iff, not_or]
    constructor
    · rintro ⟨u, rfl⟩
      exact hn u rfl
    · rintro ⟨u, rfl⟩
      exact hr u rfl

theorem unbroken_nil : Unbroken [] t := fun _ hne hv => absurd (List.suffix_nil.1 hv) hne

theorem unbroken_cons {c : Char} :
    Unbroken (c :: w) t ↔ breaksLine (c :: (w ++ t)) = false ∧ Unbroken w t := by
  constructor
  · intro h
    exact ⟨h (c :: w) (List.cons_ne_nil c w) (List.suffix_refl _),
      fun v hne hv => h v hne (hv.trans (List.suffix_cons c w))⟩
  · rintro ⟨hc, hw⟩ v hne hv
    rcases List.suffix_cons_iff.1 hv with rfl | hv
    · exact hc
    · exact hw v hne hv

theorem Unbroken.no_lineFeed (h : Unbroken w t) : '\n' ∉ w := by
  intro hmem
  obtain ⟨u, v, rfl⟩ := List.append_of_mem hmem
  have := h ('\n' :: v) (List.cons_ne_nil _ _) (List.suffix_append u _)
  cases this

theorem run_spec (p : Char → Bool) (s : List Char) :
    ∃ t, s = run p s ++ t ∧ Unbroken (run p s) t ∧ (Ends t ∨ ∀ c ∈ t.head?, p c = false) := by
  induction s with
  | nil => exact ⟨[], rfl, unbroken_nil, .inl (.inl rfl)⟩
  | cons c s ih =>
    rw [run]
    split
    · next h =>
      refine ⟨c :: s, rfl, unbroken_nil, ?_⟩
      rcases Bool.or_eq_true_iff.1 h with h | h
      · exact .inl (.inr h)
      · exact .inr (by simpa using h)
    · next h =>
      obtain ⟨t, hs, hrun, ht⟩ := ih
      rw [Bool.or_eq_true, not_or, Bool.not_eq_true] at h
      refine ⟨t, by rw [List.cons_append, ← hs], unbroken_cons.2 ⟨?_, hrun⟩, ht⟩
      rw [← hs]
      exact h.1

theorem prefix_before {c : Char} {u v : List Char} (hc : c ∉ v) (hv : v <+: t)
    (hu : u ++ [c] <+: t) : v <+: u := by
  rcases List.prefix_or_prefix_of_prefix hv hu with h | h
  · rcases List.prefix_concat_iff.1 h with rfl | h
    · exact absurd (by simp) hc
    · exact h
  · exact absurd (h.subset (by simp)) hc

/-- A mark without line feeds that opens a text reaches into a line break by a carriage return at
most. -/
theorem mark_prefix {m : List Char} (hm : '\n' ∉ m) (h : m <+: w ++ t) (ht : Ends t) :
    m <+: w ∨ m = w ++ ['\r'] ∧ ['\r', '\n'] <+: t := by
  rcases List.prefix_or_prefix_of_prefix h (List.prefix_append w t) with h | ⟨v, rfl⟩
  · exact .inl h
  · have hvt : v <+: t := (List.prefix_append_right_inj w).1 h
    have hv : '\n' ∉ v := fun hmem => hm (List.mem_append_right w hmem)
    have hnil : v = [] → w ++ v <+: w := by
      rintro rfl
      exact (List.append_nil w).symm ▸ List.prefix_refl w
    rcases ht with rfl | ht
    · exact .inl (hnil (List.prefix_nil.1 hvt))
    · rcases breaksLine_iff.1 ht with hb | hb
      · exact .inl (hnil (List.prefix_nil.1 (prefix_before (u := []) hv hvt hb)))
      · have hcr : v <+: [] ++ ['\r'] := prefix_before (u := ['\r']) hv hvt hb
        rcases List.prefix_concat_iff.1 hcr with rfl | hv
        · exact .inr ⟨rfl, hb⟩
        · exact .inl (hnil (List.prefix_nil.1 hv))

theorem comment_of_opensComment (hx : x.Acceptable) (hm : x.MarkInLine)
    (ho : opensComment x s = true) :
    ∃ t, s = run (fun _ => true) s ++ t ∧ run (fun _ => true) s ≠ [] ∧
      Comment x (run (fun _ => true) s) t := by
  obtain ⟨m, hmark, hpre⟩ := Lexicon.opensComment_eq_true.1 ho
  obtain ⟨hlf, hcr⟩ := hm m hmark
  obtain ⟨t, hs, hrun, hend⟩ := run_spec (fun _ => true) s
  generalize run (fun _ => true) s = w at hs hrun
  have hends : Ends t := by
    rcases hend with h | h
    · exact h
    · cases t with
      | nil => exact .inl rfl
      | cons c t => cases h c rfl
  have hopens := mark_prefix hlf (hs ▸ hpre) hends
  refine ⟨t, hs, ?_, ⟨m, hmark, hopens⟩, hrun, hends⟩
  rintro rfl
  rcases hopens with h | ⟨h, -⟩
  · have hempty : m = "" := String.toList_eq_nil_iff.1 (List.prefix_nil.1 h)
    exact (Lexicon.acceptable_iff.1 hx).2 (hempty ▸ hmark)
  · exact hcr (String.toList_inj.1 h)

theorem piece_blank {c : Char} (hc : Text.isBlank c = true) (hb : breaksLine (c :: s) = false) :
    ∃ t, c :: s = c :: run Text.isBlank s ++ t ∧ Piece x ⟨some .blank, c :: run Text.isBlank s⟩ t := by
  have hrun : run Text.isBlank (c :: s) = c :: run Text.isBlank s := by
    rw [run, hb, hc]
    rfl
  obtain ⟨t, hs, hunb, hend⟩ := run_spec Text.isBlank (c :: s)
  rw [hrun] at hs hunb
  refine ⟨t, hs, .blank (by simp) (hrun ▸ run_all) hunb, ?_⟩
  cases t with
  | nil => exact id
  | cons d t =>
    rintro ⟨hd, hbd⟩
    rcases hend with (hnil | hbd') | hd'
    · cases hnil
    · rw [hbd] at hbd'
      cases hbd'
    · rw [hd' d rfl] at hd
      cases hd

theorem piece_word {c : Char} (hc : x.isWordChar c = true) :
    ∃ t, c :: s = c :: s.takeWhile x.isWordChar ++ t ∧
      Piece x ⟨some .word, c :: s.takeWhile x.isWordChar⟩ t := by
  refine ⟨s.dropWhile x.isWordChar, by simp, .word (by simp) ?_ _, ?_⟩
  · exact List.forall_mem_cons.2 ⟨hc, fun d hd => List.mem_takeWhile_imp hd⟩
  · have hstop := List.head?_dropWhile_not x.isWordChar s
    cases hdrop : s.dropWhile x.isWordChar with
    | nil => exact id
    | cons d t =>
      intro hd
      rw [hdrop] at hstop
      have hd' : x.isWordChar d = false := by simpa using hstop
      rw [GoesOn, hd'] at hd
      cases hd

theorem piece_of_mem_signs (hl : l ∈ signs) : Piece x l t := by
  simp only [signs, List.mem_cons, List.not_mem_nil, or_false] at hl
  rcases hl with rfl | rfl | rfl | rfl | rfl | rfl | rfl | rfl | rfl
  · exact ⟨.lineFeed t, id⟩
  · exact ⟨.returnLineFeed t, id⟩
  all_goals exact ⟨.mark (by decide) t, id⟩

theorem front?_piece (hx : x.Acceptable) (hm : x.MarkInLine) (h : front? x s = some l) :
    ∃ t, s = l.spelling ++ t ∧ l.spelling ≠ [] ∧ Piece x l t := by
  cases front_of_front? h with
  | comment ho => exact comment_of_opensComment hx hm ho
  | @sign _ t _ _ hsign hs => exact ⟨t, hs, ne_nil_of_mem_signs l hsign, piece_of_mem_signs hsign⟩
  | blank _ hb hc =>
    obtain ⟨t, hst, hpiece⟩ := piece_blank (x := x) hc hb
    exact ⟨t, hst, by simp, hpiece⟩
  | @word c s _ hc =>
    obtain ⟨t, hst, hpiece⟩ := piece_word (s := s) hc
    exact ⟨t, hst, by simp, hpiece⟩

structure Blocked (x : Lexicon) (s : List Char) : Prop where
  no_comment : ∀ m ∈ x.commentMark, ¬ m.toList <+: s
  no_token : ∀ k w t, Spells x k w t → w ++ t ≠ s

theorem front?_run_ne_none {c : Char} (hc : Text.isBlank c = true ∨ x.isWordChar c = true) :
    front? x (c :: s) ≠ none := by
  unfold front?
  split
  · simp
  · split
    case h_1 h => cases h
    case h_11 h =>
      cases h
      split
      · simp
      · next hb =>
        rw [if_pos (hc.resolve_left hb)]
        simp
    all_goals simp

theorem Spells.front?_ne_none (h : Spells x k w t) : front? x (w ++ t) ≠ none := by
  cases h with
  | lineFeed => exact front?_run_ne_none (.inl (by decide))
  | returnLineFeed => exact front?_run_ne_none (.inl (by decide))
  | mark hk =>
    unfold front?
    split
    · simp
    · cases k <;> simp [TokenKind.label] at hk ⊢
  | word hne hw =>
    obtain ⟨c, r, rfl⟩ := List.exists_cons_of_ne_nil hne
    exact front?_run_ne_none (.inr (hw c List.mem_cons_self))
  | blank hne hw =>
    obtain ⟨c, r, rfl⟩ := List.exists_cons_of_ne_nil hne
    exact front?_run_ne_none (.inl (hw c List.mem_cons_self))

theorem blocked_of_front?_eq_none (h : front? x s = none) : Blocked x s where
  no_comment m hm hpre := by
    unfold front? at h
    rw [if_pos (Lexicon.opensComment_eq_true.2 ⟨m, hm, hpre⟩)] at h
    cases h
  no_token k w t hw hs := hw.front?_ne_none (hs ▸ h)

/-- No run can go on across the place between two texts. -/
def Cut (x : Lexicon) (s t : List Char) : Prop :=
  ∀ k, GoesOn x k t → ∀ c ∈ s.getLast?, ¬ GoesOn x k (c :: t)

theorem cut_of_last {c : Char} (hw : w.getLast? = some c)
    (hword : x.isWordChar c = true → ¬ GoesOn x .word t)
    (hblank : Text.isBlank c = true → breaksLine (c :: t) = true ∨ ¬ GoesOn x .blank t) :
    Cut x w t := by
  intro k ht d hd hgo
  obtain rfl : c = d := by simpa [hw] using hd
  cases k with
  | word => exact hword hgo ht
  | blank =>
    obtain ⟨hc, hct⟩ := hgo
    rcases hblank hc with hb | hb
    · rw [hct] at hb
      cases hb
    · exact hb ht
  | _ => exact hgo

theorem not_isWordChar (hx : x.Acceptable) {c : Char} (hc : Lexicon.isDelimiter c = true) :
    x.isWordChar c ≠ true := by
  intro hw
  rw [Lexicon.isDelimiter_of_isWordChar hx hw] at hc
  cases hc

theorem Ends.not_goesOn (hx : x.Acceptable) (h : Ends t) : ¬ GoesOn x k t := by
  cases t with
  | nil => cases k <;> exact id
  | cons c t =>
    have hb : breaksLine (c :: t) = true := h.resolve_left (List.cons_ne_nil c t)
    cases k with
    | word =>
      apply not_isWordChar hx
      rcases breaksLine_iff.1 hb with hb | hb <;> rw [← (List.cons_prefix_cons.1 hb).1] <;> decide
    | blank =>
      rintro ⟨-, hnb⟩
      rw [hb] at hnb
      cases hnb
    | _ => exact id

theorem Spells.cut (hx : x.Acceptable) (h : Spells x k w t) (hstop : ¬ GoesOn x k t) :
    Cut x w t := by
  have hdelim : ∀ {c : Char} {P : Prop}, Lexicon.isDelimiter c = true → x.isWordChar c = true → P :=
    fun hc hw => absurd hw (not_isWordChar hx hc)
  cases h with
  | lineFeed => exact cut_of_last (c := '\n') rfl (hdelim (by decide)) fun _ => .inl rfl
  | returnLineFeed => exact cut_of_last (c := '\n') rfl (hdelim (by decide)) fun _ => .inl rfl
  | mark hk =>
    obtain ⟨c, hc, hdc, hbc⟩ : ∃ c, k.label.toList.getLast? = some c ∧
        Lexicon.isDelimiter c = true ∧ Text.isBlank c = false := by
      cases k
      all_goals first
        | exact absurd hk (by decide)
        | exact ⟨_, rfl, by decide, by decide⟩
    exact cut_of_last hc (hdelim hdc) fun hb => by rw [hbc] at hb; cases hb
  | word hne hw =>
    have hlast := hw _ (List.getLast_mem hne)
    refine cut_of_last (List.getLast?_eq_some_getLast hne) (fun _ => hstop) fun hb => ?_
    exact hdelim (by rw [Lexicon.isDelimiter, hb, Bool.true_or]) hlast
  | blank hne hw =>
    have hlast := hw _ (List.getLast_mem hne)
    refine cut_of_last (List.getLast?_eq_some_getLast hne) (hdelim ?_) fun _ => .inr hstop
    rw [Lexicon.isDelimiter, hlast, Bool.true_or]

theorem Piece.cut (hx : x.Acceptable) (h : Piece x l t) : Cut x l.spelling t := by
  obtain ⟨k, w⟩ := l
  cases k with
  | none =>
    intro k ht
    exact absurd ht ((Comment.ends h).not_goesOn hx)
  | some k => exact h.1.cut hx h.2

theorem Spells.not_goesOn_before (h : Spells x k w t) (hs : Cut x s (w ++ t)) :
    ∀ c ∈ s.getLast?, ¬ GoesOn x k (c :: (w ++ t)) := by
  intro c hc
  cases h with
  | word hne hw =>
    obtain ⟨d, r, rfl⟩ := List.exists_cons_of_ne_nil hne
    exact hs .word (hw d List.mem_cons_self) c hc
  | blank hne hw hwt =>
    obtain ⟨d, r, rfl⟩ := List.exists_cons_of_ne_nil hne
    exact hs .blank ⟨hw d List.mem_cons_self, (unbroken_cons.1 hwt).1⟩ c hc
  | lineFeed => exact id
  | returnLineFeed => exact id
  | mark hk => cases k <;> first | exact absurd hk (by decide) | exact id

end Lexeme

end InfoProtocol
