import InfoProtocol.Proofs.Grammar.Declaration
import InfoProtocol.Proofs.Token.Layout
import Mathlib.Data.List.TakeWhile

/-!
# Which tokens spell a protocol

Once layout is off no two newlines stand side by side, so skipping newlines means skipping at most
one. A list of tokens is read as a protocol exactly if what is left of it spells the protocol and
the names of the protocol may stand together.
-/

namespace InfoProtocol

namespace Grammar

theorem break_of_newlines {ts : List Token} (hs : Token.Separated ts)
    (h : ∀ t ∈ ts, t.kind = .newline) : Break (ts.map Token.sign) := by
  match ts with
  | [] => exact .none
  | [t] =>
    have ht : t.sign = .mark .newline :=
      (Token.sign_eq_mark (by decide)).2 (h t List.mem_cons_self)
    simp only [List.map_cons, List.map_nil, ht]
    exact .one
  | t :: u :: ts =>
    have hu := (List.isChain_cons_cons.1 hs).1 (h t (by simp))
    exact absurd (h u (by simp)) hu

theorem newlines_of_break {ts : List Token} (h : Break (ts.map Token.sign)) :
    ∀ t ∈ ts, t.kind = .newline := by
  intro t ht
  have hmem : t.sign ∈ ts.map Token.sign := List.mem_map_of_mem ht
  generalize ts.map Token.sign = bs at h hmem
  cases h with
  | none => cases hmem
  | one => exact (Token.sign_eq_mark (by decide)).1 (List.mem_singleton.1 hmem)

theorem exists_break_of_skipNewlines {ts us : List Token} {u : Unit} (hs : Token.Separated ts)
    (h : skipNewlines ts = .ok u us) : ∃ pre, ts = pre ++ us ∧ Break (pre.map Token.sign) := by
  cases h
  have hts := List.takeWhile_append_dropWhile (p := fun t : Token => t.kind = .newline) (l := ts)
  refine ⟨_, hts.symm, break_of_newlines ?_ fun t ht => ?_⟩
  · rw [← hts] at hs
    exact hs.left_of_append
  · simpa using List.all_eq_true.1 List.all_takeWhile t ht

theorem skipNewlines_of_break {pre us : List Token} (hb : Break (pre.map Token.sign))
    (hus : ∀ t ∈ us.head?, t.kind ≠ .newline) : skipNewlines (pre ++ us) = .ok () us := by
  rw [skipNewlines, List.dropWhile_append_of_pos (by simpa using newlines_of_break hb)]
  cases us with
  | nil => rfl
  | cons t us => rw [List.dropWhile_cons_of_neg (by simpa using hus)]

theorem finish_ok {ts us : List Token} {u : Unit} :
    finish ts = .ok u us ↔ us = [] ∧ ∀ t ∈ ts, t.kind = .newline := by
  have hall : (∀ t ∈ ts, t.kind = .newline) ↔
      ts.dropWhile (fun t => t.kind = .newline) = [] := by
    rw [List.dropWhile_eq_nil_iff]
    simp only [decide_eq_true_eq]
  rw [hall]
  simp only [finish, bind, EStateM.bind, skipNewlines]
  cases ts.dropWhile fun t => decide (t.kind = .newline) with
  | nil => simp [eq_comm]
  | cons t vs => simp

theorem Declaration.head {gs : List Sign} {p : Protocol} (h : Declaration gs p) :
    gs.head? = some (.word p.name) := by
  cases h
  rfl

theorem protocol_ok {ts us : List Token} (hs : Token.Separated ts) {p : Protocol} :
    protocol ts = .ok p us ↔ us = [] ∧ Spelling (ts.map Token.sign) p ∧ p.WellFormed := by
  simp only [protocol, bind_ok, finish_ok]
  constructor
  · intro h
    obtain ⟨_, vs, hskip, q, ws, hq, _, xs, ⟨rfl, hws⟩, hret⟩ := h
    cases hret
    obtain ⟨fore, rfl, hb⟩ := exists_break_of_skipNewlines hs hskip
    obtain ⟨pre, rfl, hd, hwf⟩ := (reads_declaration _ _ _).1 hq
    refine ⟨rfl, ?_, hwf⟩
    rw [List.map_append, List.map_append, ← List.append_assoc]
    exact .intro hb hd (break_of_newlines hs.right_of_append.right_of_append hws)
  · intro h
    obtain ⟨rfl, hsp, hwf⟩ := h
    generalize hgs : ts.map Token.sign = gs at hsp
    obtain ⟨ha, hd, hb⟩ := hsp
    obtain ⟨t₁, t₂, rfl, h₁, rfl⟩ := List.map_eq_append_iff.1 hgs
    obtain ⟨ta, td, rfl, rfl, rfl⟩ := List.map_eq_append_iff.1 h₁
    refine ⟨(), td ++ t₂, ?_, p, t₂, (reads_declaration _ _ _).2 ⟨td, rfl, hd, hwf⟩, (), [],
      ⟨rfl, newlines_of_break hb⟩, rfl⟩
    rw [List.append_assoc]
    exact skipNewlines_of_break ha (head_ne_newline_of_word hd.head)

end Grammar

namespace Protocol

open Grammar

theorem exists_protocol_ok {table : List Token} {p : Protocol} :
    ofTokens table = .ok p ↔ ∃ us, protocol (Token.withoutLayout table) = .ok p us := by
  simp only [ofTokens]
  cases protocol (Token.withoutLayout table) <;> simp

theorem spelling_of_ofTokens {table : List Token} {p : Protocol} (h : ofTokens table = .ok p) :
    Spelling ((Token.withoutLayout table).map Token.sign) p ∧ p.WellFormed := by
  obtain ⟨us, hp⟩ := exists_protocol_ok.1 h
  exact ((protocol_ok (Token.withoutLayout_separated table)).1 hp).2

theorem ofTokens_of_spelling {table : List Token} {p : Protocol}
    (hs : Spelling ((Token.withoutLayout table).map Token.sign) p) (hp : p.WellFormed) :
    ofTokens table = .ok p :=
  exists_protocol_ok.2
    ⟨[], (protocol_ok (Token.withoutLayout_separated table)).2 ⟨rfl, hs, hp⟩⟩

/-- The tokens that are read as a protocol are those that spell it by the grammar, layout aside. -/
theorem ofTokens_accepts_spellings (table : List Token) (p : Protocol) :
    ofTokens table = .ok p ↔
      Spelling ((Token.withoutLayout table).map Token.sign) p ∧ p.WellFormed :=
  ⟨spelling_of_ofTokens, fun h => ofTokens_of_spelling h.1 h.2⟩

end Protocol

end InfoProtocol
