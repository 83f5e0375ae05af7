import InfoProtocol.Proofs.Grammar.Spelling
import InfoProtocol.Proofs.Lexeme.Words
import InfoProtocol.Token.Layout

/-!
# What a written text shows

A text shows the signs that are left of its tokens once layout is off. What it shows is found from
its end: a piece put in front of a text adds its sign, provided that the text behind a word is
delimited. Blanks in front add nothing, also where they join the blanks behind them.
-/

namespace InfoProtocol

namespace Lexeme

open Lexicon

variable {x : Lexicon} {s : List Char}

theorem split_append {k : Option TokenKind} {r : List Char} (hr : front? x (r ++ s) = some ⟨k, r⟩)
    (hne : r ≠ []) : split x (r ++ s) = (split x s).cons ⟨k, r⟩ := by
  obtain ⟨c, t, rfl⟩ := List.exists_cons_of_ne_nil hne
  rw [List.cons_append] at hr ⊢
  rw [split_cons hr hne, ← List.cons_append, List.drop_left]

theorem front?_isWord (hx : x.Orderly) {w : String} (hw : x.IsWord w) (hs : Delimited s) :
    front? x (w.toList ++ s) = some ⟨some .word, w.toList⟩ := by
  have ho := hw.no_comment s hs
  have hchars := hw.chars
  obtain ⟨c, r, hcr⟩ := List.exists_cons_of_ne_nil hw.nonempty
  rw [hcr] at ho hchars ⊢
  obtain ⟨hc, hr⟩ := List.forall_mem_cons.1 hchars
  have hstop : s.takeWhile x.isWordChar = [] := by
    cases s with
    | nil => rfl
    | cons d s =>
      apply List.takeWhile_cons_of_neg
      intro hd
      have := hx.apart d hd
      rw [delimited_cons.1 hs] at this
      cases this
  rw [List.cons_append] at ho ⊢
  rw [front?_of_apart (hx.apart c hc) ho, if_pos hc, List.takeWhile_append_of_pos hr, hstop,
    List.append_nil]

theorem front?_newline (hx : x.Orderly) : front? x ('\n' :: s) = some ⟨some .newline, ['\n']⟩ := by
  have ho : opensComment x ('\n' :: s) = false := hx.no_comment _ _ (by decide)
  unfold front?
  simp [ho]

theorem front?_mark (hx : x.Orderly) {k : TokenKind} (hk : k ∉ [.word, .newline, .blank]) :
    front? x (k.label.toList ++ s) = some ⟨some k, k.label.toList⟩ := by
  have ho : ∀ c ∈ punctuation, ∀ r, opensComment x (c :: r) = false := by
    intro c hc r
    apply hx.no_comment
    rw [isDelimiter, isPunctuation, List.contains_iff_mem.2 hc, Bool.or_true]
  simp only [punctuation, List.forall_mem_cons] at ho
  unfold front?
  cases k
  all_goals first
    | exact absurd hk (by decide)
    | simp [TokenKind.label, ho]

theorem delimited_mark {k : TokenKind} (hk : k ∉ [.word, .newline, .blank]) :
    Delimited (k.label.toList ++ s) := by
  cases k
  all_goals first
    | exact absurd hk (by decide)
    | simp [Delimited, TokenKind.label, isDelimiter, isPunctuation, punctuation]

theorem opensComment_blank (hx : x.Orderly) {c : Char} (hc : Text.isBlank c = true) :
    opensComment x (c :: s) = false := by
  apply hx.no_comment
  rw [isDelimiter, hc, Bool.true_or]

theorem front?_blank {c : Char} (ho : opensComment x (c :: s) = false)
    (hc : Text.isBlank c = true) (hs : breaksLine (c :: s) = false) :
    front? x (c :: s) = some ⟨some .blank, c :: run Text.isBlank s⟩ := by
  unfold front?
  rw [if_neg (by simp [ho])]
  split
  case h_11 h =>
    cases h
    rw [if_pos hc]
  case h_1 h => cases h
  case h_2 h =>
    cases h
    cases hs
  case h_3 h =>
    cases h
    cases hs
  all_goals
    next h =>
    cases h
    exact absurd hc (by decide)

theorem front?_blanks (hx : x.Orderly) (hs : run Text.isBlank s ≠ []) :
    front? x s = some ⟨some .blank, run Text.isBlank s⟩ := by
  cases s with
  | nil => exact absurd rfl hs
  | cons c s =>
    rw [run] at hs ⊢
    split at hs
    · exact absurd rfl hs
    · next h =>
      rw [if_neg h]
      simp only [Bool.or_eq_true, Bool.not_eq_true', not_or, Bool.not_eq_true,
        Bool.not_eq_false] at h
      exact front?_blank (opensComment_blank hx h.2) h.2 h.1

end Lexeme

namespace Grammar

open Lexeme Lexicon

/-- The text splits to its end, and its tokens, wherever they stand, leave these signs; `b` says
whether a newline stands in front of the text. -/
def Shows (x : Lexicon) (b : Bool) (s : List Char) (gs : List Sign) : Prop :=
  ∃ ls, split x s = ⟨ls, .finished⟩ ∧
    ∀ p, (Token.dropLayout b (tokensFrom p ls)).map Token.sign = gs

variable {x : Lexicon} {b : Bool} {s : List Char} {gs : List Sign}

theorem shows_nil : Shows x b [] [] := ⟨[], by rw [split], fun _ => rfl⟩

theorem Shows.cons {b' : Bool} {k : Option TokenKind} {r : List Char} (hs : List Sign)
    (hr : front? x (r ++ s) = some ⟨k, r⟩) (hne : r ≠ [])
    (hadd : ∀ p ts, (Token.dropLayout b ((tokenAt p ⟨k, r⟩).toList ++ ts)).map Token.sign =
      hs ++ (Token.dropLayout b' ts).map Token.sign)
    (h : Shows x b' s gs) : Shows x b (r ++ s) (hs ++ gs) := by
  obtain ⟨ls, hls, hgs⟩ := h
  refine ⟨⟨k, r⟩ :: ls, ?_, fun p => ?_⟩
  · rw [split_append hr hne, hls]
    rfl
  · rw [tokensFrom, hadd, hgs]

theorem Shows.word (hx : x.Orderly) {w : String} (hw : x.IsWord w) (hs : Delimited s)
    (h : Shows x false s gs) : Shows x b (w.toList ++ s) (.word w :: gs) := by
  refine Shows.cons [.word w] (front?_isWord hx hw hs) hw.nonempty (fun p ts => ?_) h
  simp [tokenAt, Lexeme.text, Token.dropLayout, Token.sign]

theorem Shows.mark (hx : x.Orderly) {k : TokenKind} (hk : k ∉ [.word, .newline, .blank])
    (h : Shows x false s gs) : Shows x b (k.label.toList ++ s) (.mark k :: gs) := by
  refine Shows.cons [.mark k] (front?_mark hx hk) ?_ (fun p ts => ?_) h
  · cases k <;> decide
  · simp only [List.mem_cons, List.not_mem_nil, or_false, not_or] at hk
    simp [tokenAt, Token.dropLayout, Token.sign, hk]

theorem Shows.newline (hx : x.Orderly) (h : Shows x true s gs) :
    Shows x false ('\n' :: s) (.mark .newline :: gs) := by
  refine Shows.cons (r := ['\n']) [.mark .newline] (front?_newline hx) (by simp)
    (fun p ts => ?_) h
  simp [tokenAt, Token.dropLayout, Token.sign]

theorem Shows.newline_again (hx : x.Orderly) (h : Shows x true s gs) :
    Shows x true ('\n' :: s) gs := by
  refine Shows.cons (r := ['\n']) [] (front?_newline hx) (by simp) (fun p ts => ?_) h
  simp [tokenAt, Token.dropLayout]

theorem signs_tokensFrom (b : Bool) (p q : Place) (ls : List Lexeme) :
    (Token.dropLayout b (tokensFrom p ls)).map Token.sign =
      (Token.dropLayout b (tokensFrom q ls)).map Token.sign := by
  induction ls generalizing b p q with
  | nil => rfl
  | cons l ls ih =>
    have ih' := fun b => ih b (p.after l) (q.after l)
    simp only [tokensFrom, tokenAt]
    cases l.kind with
    | none => exact ih' b
    | some k =>
      simp only [Option.map_some, Option.toList_some, List.singleton_append, Token.dropLayout]
      split
      · exact ih' b
      · split
        · split
          · exact ih' true
          · simp only [List.map_cons, ih' true, Token.sign]
        · simp only [List.map_cons, ih' false, Token.sign]

theorem shows_blanks_append {r : List Char} (hne : r ≠ [])
    (hr : front? x (r ++ s) = some ⟨some .blank, r⟩) : Shows x b (r ++ s) gs ↔ Shows x b s gs := by
  have hdrop : ∀ p ls, Token.dropLayout b (tokensFrom p (⟨some .blank, r⟩ :: ls)) =
      Token.dropLayout b (tokensFrom (p.after ⟨some .blank, r⟩) ls) := by
    intro p ls
    simp [tokensFrom, tokenAt, Token.dropLayout]
  constructor
  · intro h
    obtain ⟨ls, hls, hgs⟩ := h
    rw [split_append hr hne, Split.cons, Split.mk.injEq] at hls
    obtain ⟨rfl, hfin⟩ := hls
    refine ⟨(split x s).lexemes, by rw [← hfin], fun p => ?_⟩
    rw [← hgs p, hdrop, signs_tokensFrom]
  · intro h
    obtain ⟨ls, hls, hgs⟩ := h
    refine ⟨⟨some .blank, r⟩ :: ls, by rw [split_append hr hne, hls]; rfl, fun p => ?_⟩
    rw [hdrop, hgs]

theorem shows_space (hx : x.Orderly) : Shows x b (' ' :: s) gs ↔ Shows x b s gs := by
  have hfront : front? x (' ' :: s) = some ⟨some .blank, ' ' :: run Text.isBlank s⟩ :=
    front?_blank (opensComment_blank hx (by decide)) (by decide) rfl
  obtain ⟨t, ht⟩ := run_isPrefix Text.isBlank s
  -- with or without the space, the text behind the run of blanks shows the same
  have hrest : Shows x b s gs ↔ Shows x b t gs := by
    by_cases hne : run Text.isBlank s = []
    · rw [hne, List.nil_append] at ht
      rw [ht]
    · have happend : Shows x b (run Text.isBlank s ++ t) gs ↔ Shows x b t gs := by
        apply shows_blanks_append hne
        rw [ht]
        exact front?_blanks hx hne
      rwa [ht] at happend
  have hspace : Shows x b (' ' :: run Text.isBlank s ++ t) gs ↔ Shows x b t gs := by
    apply shows_blanks_append (by simp)
    rw [List.cons_append, ht]
    exact hfront
  rw [List.cons_append, ht] at hspace
  exact hspace.trans hrest.symm

theorem Shows.space (hx : x.Orderly) (h : Shows x b s gs) : Shows x b (' ' :: s) gs :=
  (shows_space hx).2 h

theorem shows_iff_scan {source : String} : Shows x b source.toList gs ↔
    ∃ ts, Token.scan x source = .ok ts ∧ (Token.dropLayout b ts).map Token.sign = gs := by
  constructor
  · intro h
    obtain ⟨ls, hls, hgs⟩ := h
    refine ⟨tokensFrom .origin ls, ?_, hgs _⟩
    simp only [Token.scan, hls]
  · intro h
    obtain ⟨ts, hts, hgs⟩ := h
    obtain ⟨hsplit, rfl⟩ := Token.scan_eq_ok.1 hts
    exact ⟨_, hsplit, fun p => (signs_tokensFrom b p .origin _).trans hgs⟩

theorem Shows.scan {source : String} (h : Shows x false source.toList gs) :
    ∃ ts, Token.scan x source = .ok ts ∧ (Token.withoutLayout ts).map Token.sign = gs :=
  shows_iff_scan.1 h

/-- In front of a delimited text the piece adds these signs, the last of which is no newline. -/
def Writes (x : Lexicon) (t : String) (gs : List Sign) : Prop :=
  ∀ b s hs, Delimited s → Shows x false s hs → Shows x b (t.toList ++ s) (gs ++ hs)

variable {t u : String} {hs : List Sign}

theorem writes_word (hx : x.Orderly) {w : String} (hw : x.IsWord w) : Writes x w [.word w] :=
  fun _ _ _ hd h => h.word hx hw hd

theorem Writes.space (hx : x.Orderly) (ht : Writes x t gs) (hu : Writes x u hs) :
    Writes x (t ++ " " ++ u) (gs ++ hs) := by
  intro b s ks hd h
  have hspace : Shows x false (' ' :: (u.toList ++ s)) (hs ++ ks) := (hu false s ks hd h).space hx
  have htext : (t ++ " " ++ u).toList ++ s = t.toList ++ ' ' :: (u.toList ++ s) := by simp
  rw [htext, List.append_assoc]
  exact ht b _ _ (delimited_cons.2 (by decide)) hspace

theorem Writes.comma (hx : x.Orderly) (ht : Writes x t gs) (hu : Writes x u hs) :
    Writes x (t ++ ", " ++ u) (gs ++ .mark .comma :: hs) := by
  intro b s ks hd h
  have hspace : Shows x false (' ' :: (u.toList ++ s)) (hs ++ ks) := (hu false s ks hd h).space hx
  have hcomma := Shows.mark (b := false) hx (k := .comma) (by decide) hspace
  have htext : (t ++ ", " ++ u).toList ++ s =
      t.toList ++ (TokenKind.comma.label.toList ++ ' ' :: (u.toList ++ s)) := by
    simp [TokenKind.label]
  rw [htext, List.append_assoc]
  exact ht b _ _ (delimited_cons.2 (by decide)) hcomma

theorem writes_commas (hx : x.Orderly) {α : Type} {R : Phrase α} {f : α → String} {as : List α}
    (hne : as ≠ []) (has : ∀ a ∈ as, ∃ gs, R gs a ∧ Writes x (f a) gs) :
    ∃ gs, Commas R gs as ∧ Writes x (", ".intercalate (as.map f)) gs := by
  induction as with
  | nil => exact absurd rfl hne
  | cons a as ih =>
    obtain ⟨⟨gs, hgs, ht⟩, hrest⟩ := List.forall_mem_cons.1 has
    by_cases hnil : as = []
    · subst hnil
      rw [List.map_singleton, String.intercalate_singleton]
      exact ⟨gs, .one hgs, ht⟩
    · obtain ⟨hs, hhs, hu⟩ := ih hnil hrest
      rw [List.map_cons, String.intercalate_cons_of_ne_nil (by simpa using hnil)]
      exact ⟨_, .more hgs hhs, ht.comma hx hu⟩

end Grammar

end InfoProtocol
