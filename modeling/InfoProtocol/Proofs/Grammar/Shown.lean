import InfoProtocol.Proofs.Grammar.Written
import InfoProtocol.Proofs.Lexeme.Lines

/-!
# What a text shows line by line

The lines of a text are split on their own, so what a text shows is put together from what its lines
show. A line feed adds a newline unless one stands there already, at the end of the line or, where
the line shows nothing, in front of it.
-/

namespace InfoProtocol.Grammar

open Lexeme

/-- The signs of a line together with its end; `b` says whether a newline stands in front. -/
def endLine (b : Bool) (gs : List Sign) : List Sign :=
  if gs.getLast? = some (.mark .newline) ∨ b = true ∧ gs = [] then gs else gs ++ [.mark .newline]

variable {x : Lexicon} {b : Bool} {s t : List Char} {g : Sign} {gs hs : List Sign}

theorem endLine_cons : endLine b (g :: gs) = g :: endLine (g = .mark .newline) gs := by
  cases gs with
  | nil => by_cases hg : g = .mark .newline <;> simp [endLine, hg]
  | cons h gs => by_cases hl : (h :: gs).getLast? = some (.mark .newline) <;> simp [endLine, hl]

theorem map_sign_dropLayout_newline {n : Token} (hn : n.kind = .newline) (ts us : List Token) :
    (Token.dropLayout b (ts ++ n :: us)).map Token.sign =
      endLine b ((Token.dropLayout b ts).map Token.sign) ++
        (Token.dropLayout true us).map Token.sign := by
  have hsign : n.sign = .mark .newline := (Token.sign_eq_mark (by decide)).2 hn
  induction ts generalizing b with
  | nil => cases b <;> simp [Token.dropLayout, hn, hsign, endLine]
  | cons t ts ih =>
    simp only [List.cons_append, Token.dropLayout]
    split
    · exact ih
    · split
      · next ht =>
        have hts : t.sign = .mark .newline := (Token.sign_eq_mark (by decide)).2 ht
        split
        · next hb => rw [hb, ih]
        · simp only [List.map_cons, hts, ih, endLine_cons, decide_true, List.cons_append]
      · next ht =>
        have hts : t.sign ≠ .mark .newline := fun h => ht ((Token.sign_eq_mark (by decide)).1 h)
        simp only [List.map_cons, ih, endLine_cons, hts, decide_false, List.cons_append]

theorem andLine_eq_finished {r q : Split} {ls : List Lexeme} :
    r.andLine q = ⟨ls, .finished⟩ ↔ ∃ ms ns, r = ⟨ms, .finished⟩ ∧ q = ⟨ns, .finished⟩ ∧
      ls = ms ++ lineFeed :: ns := by
  obtain ⟨ms, h⟩ := r
  obtain ⟨ns, k⟩ := q
  cases h <;> simp [Split.andLine, and_comm, eq_comm]

theorem shows_lineFeed (hx : x.Acceptable) (hm : x.MarkInLine) (hs : s.getLast? ≠ some '\r') :
    Shows x b (s ++ '\n' :: t) gs ↔
      ∃ hs ks, Shows x b s hs ∧ Shows x true t ks ∧ gs = endLine b hs ++ ks := by
  have hsigns : ∀ p ms ns,
      (Token.dropLayout b (tokensFrom p (ms ++ lineFeed :: ns))).map Token.sign =
        endLine b ((Token.dropLayout b (tokensFrom .origin ms)).map Token.sign) ++
          (Token.dropLayout true (tokensFrom .origin ns)).map Token.sign := by
    intro p ms ns
    rw [tokensFrom_append, tokensFrom, signs_tokensFrom b .origin p ms,
      signs_tokensFrom true .origin ((endFrom p ms).after lineFeed) ns]
    exact map_sign_dropLayout_newline rfl _ _
  constructor
  · intro h
    obtain ⟨ls, hls, hgs⟩ := h
    rw [split_lineFeed hx hm hs, andLine_eq_finished] at hls
    obtain ⟨ms, ns, hms, hns, rfl⟩ := hls
    exact ⟨_, _, ⟨ms, hms, fun p => signs_tokensFrom b p .origin ms⟩,
      ⟨ns, hns, fun p => signs_tokensFrom true p .origin ns⟩,
      (hgs .origin).symm.trans (hsigns _ _ _)⟩
  · intro h
    obtain ⟨hs', ks, ⟨ms, hms, hhs⟩, ⟨ns, hns, hks⟩, rfl⟩ := h
    refine ⟨_, (split_lineFeed hx hm hs).trans (andLine_eq_finished.2 ⟨ms, ns, hms, hns, rfl⟩),
      fun p => ?_⟩
    rw [hsigns, hhs, hks]

end InfoProtocol.Grammar
