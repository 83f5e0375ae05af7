import InfoProtocol.Proofs.Enactment
import InfoProtocol.Token

/-!
# The grammar of protocols

The grammar is written over signs: of a word its text counts, of any other token only its kind. A
phrase relates a list of signs to what it spells. Which words may be names, and which names may
stand together, is asked of the protocol apart from its spelling.
-/

namespace InfoProtocol

namespace Grammar

inductive Sign
  | word (w : String)
  | mark (k : TokenKind)
  deriving DecidableEq, Repr

abbrev Phrase (α : Type) := List Sign → α → Prop

variable {α : Type}

inductive RoleName : Phrase Role
  | intro (r : Role) : RoleName [.word r] r

inductive Group : Phrase Parameter
  | bare (n : String) : Group [.word n] ⟨n, .nil, false⟩
  | key (n : String) : Group [.word n, .word "key"] ⟨n, .nil, true⟩
  | inScope (s : Scope) (n : String) : Group [.word s.word, .word n] ⟨n, s, false⟩
  | inScopeKey (s : Scope) (n : String) :
      Group [.word s.word, .word n, .word "key"] ⟨n, s, true⟩

inductive Commas (R : Phrase α) : Phrase (List α)
  | one {gs : List Sign} {a : α} (ha : R gs a) : Commas R gs [a]
  | more {gs hs : List Sign} {a : α} {as : List α} (ha : R gs a) (has : Commas R hs as) :
      Commas R (gs ++ .mark .comma :: hs) (a :: as)

inductive Line : Phrase Action
  | intro {gs : List Sign} {ps : List Parameter} (s r : Role) (n : String)
      (hps : Commas Group gs ps) :
      Line ([.word s, .mark .arrow, .word r, .mark .colon, .word n, .mark .openBracket] ++ gs ++
        [.mark .closeBracket, .mark .newline]) ⟨n, s, r, ps⟩

inductive Lines : Phrase (List Action)
  | nil : Lines [] []
  | cons {gs hs : List Sign} {a : Action} {as : List Action} (ha : Line gs a)
      (has : Lines hs as) : Lines (gs ++ hs) (a :: as)

/-- A newline that may be left out. -/
inductive Break : List Sign → Prop
  | none : Break []
  | one : Break [.mark .newline]

inductive Declaration : Phrase Protocol
  | intro {bs rs gs ls : List Sign} {roles : List Role} {params : List Parameter}
      {actions : List Action} (n : String) (hb : Break bs) (hr : Commas RoleName rs roles)
      (hp : Commas Group gs params) (ha : Lines ls actions) :
      Declaration ([.word n, .mark .openBrace] ++ bs ++
        [.word "role"] ++ rs ++ [.mark .newline] ++
        [.word "parameter"] ++ gs ++ [.mark .newline] ++
        ls ++ [.mark .closeBrace]) ⟨n, roles, params, actions⟩

inductive Heading : Phrase Protocol
  | intro {bs rs gs : List Sign} {p : Protocol} (hb : Break bs) (hr : Commas RoleName rs p.roles)
      (hp : Commas Group gs p.params) : Heading ([.word p.name, .mark .openBrace] ++ bs ++
        [.word "role"] ++ rs ++ [.mark .newline] ++ [.word "parameter"] ++ gs ++
        [.mark .newline]) p

inductive Spelling : Phrase Protocol
  | intro {as ds bs : List Sign} {p : Protocol} (ha : Break as) (hd : Declaration ds p)
      (hb : Break bs) : Spelling (as ++ ds ++ bs) p

def Free (w : String) : Prop := isReserved w = false

/-- Names that may stand together in one list: free words, no two of them equal. -/
structure FreeNames (ws : List String) : Prop where
  free : ∀ w ∈ ws, Free w
  nodup : ws.Nodup

structure ActionDeclared (roles : List Role) (a : Action) : Prop where
  free : Free a.name
  known : a.Known roles
  params : FreeNames (a.params.map (·.name))

instance : DecidablePred Free := fun w => inferInstanceAs (Decidable (isReserved w = false))

instance (ws : List String) : Decidable (FreeNames ws) :=
  decidable_of_iff ((∀ w ∈ ws, Free w) ∧ ws.Nodup) ⟨fun h => ⟨h.1, h.2⟩, fun h => ⟨h.free, h.nodup⟩⟩

instance (roles : List Role) (a : Action) : Decidable (ActionDeclared roles a) :=
  decidable_of_iff (Free a.name ∧ a.Known roles ∧ FreeNames (a.params.map (·.name)))
    ⟨fun h => ⟨h.1, h.2.1, h.2.2⟩, fun h => ⟨h.free, h.known, h.params⟩⟩

end Grammar

structure Protocol.WellFormed (p : Protocol) : Prop where
  free : Grammar.Free p.name
  roles : Grammar.FreeNames p.roles
  params : Grammar.FreeNames (p.params.map (·.name))
  hasKey : p.HasKey
  actions : ∀ a ∈ p.actions, Grammar.ActionDeclared p.roles a

def Token.sign (t : Token) : Grammar.Sign :=
  if t.kind = .word then .word t.text else .mark t.kind

namespace Token

variable {t : Token}

theorem sign_eq_word {w : String} : t.sign = .word w ↔ t.kind = .word ∧ t.text = w := by
  simp only [sign]
  split
  · next h => simp [h]
  · next h => simp [h]

theorem sign_eq_mark {k : TokenKind} (hk : k ≠ .word) : t.sign = .mark k ↔ t.kind = k := by
  simp only [sign]
  split
  · next h => simp [h, Ne.symm hk]
  · next h => simp

end Token

namespace Grammar

variable {α : Type}

theorem Commas.ne_nil {R : Phrase α} {gs : List Sign} {as : List α} (h : Commas R gs as) :
    as ≠ [] := by
  cases h <;> simp

theorem Group.words {gs : List Sign} {q : Parameter} (h : Group gs q) :
    ∀ g ∈ gs, ∃ w, g = .word w := by
  cases h <;> simp

theorem Heading.head {gs : List Sign} {p : Protocol} (h : Heading gs p) :
    gs.head? = some (.word p.name) := by
  cases h
  rfl

theorem Heading.declaration {gs ls : List Sign} {p : Protocol} (h : Heading gs p)
    (hl : Lines ls p.actions) : Declaration (gs ++ ls ++ [.mark .closeBrace]) p := by
  obtain ⟨hb, hr, hp⟩ := h
  exact .intro p.name hb hr hp hl

theorem Declaration.exists_heading {gs : List Sign} {p : Protocol} (h : Declaration gs p) :
    ∃ hs ls, gs = hs ++ ls ++ [.mark .closeBrace] ∧ Heading hs p ∧ Lines ls p.actions := by
  obtain @⟨_, _, _, _, roles, params, actions, n, hb, hr, hp, ha⟩ := h
  exact ⟨_, _, rfl, .intro (p := ⟨n, roles, params, actions⟩) hb hr hp, ha⟩

theorem ActionDeclared.mono {rs ss : List Role} {a : Action} (h : ActionDeclared rs a)
    (hsub : ∀ r ∈ rs, r ∈ ss) : ActionDeclared ss a :=
  ⟨h.free, ⟨hsub _ h.known.1, hsub _ h.known.2⟩, h.params⟩

theorem freeNames_nil : FreeNames [] := ⟨by simp, by simp⟩

theorem freeNames_append {ws : List String} {w : String} :
    FreeNames (ws ++ [w]) ↔ FreeNames ws ∧ Free w ∧ w ∉ ws := by
  constructor
  · intro h
    have hn := List.nodup_append.1 h.nodup
    refine ⟨⟨fun v hv => h.free v (by simp [hv]), hn.1⟩, h.free w (by simp), fun hw => ?_⟩
    exact hn.2.2 w hw w (by simp) rfl
  · intro h
    obtain ⟨h, hfree, hw⟩ := h
    refine ⟨fun v hv => ?_, ?_⟩
    · rcases List.mem_append.1 hv with hv | hv
      · exact h.free v hv
      · exact List.mem_singleton.1 hv ▸ hfree
    · apply List.nodup_append.2
      refine ⟨h.nodup, by simp, ?_⟩
      rintro v hv x hx rfl
      exact hw (List.mem_singleton.1 hx ▸ hv)

theorem FreeNames.of_append {vs ws : List String} (h : FreeNames (vs ++ ws)) : FreeNames vs :=
  ⟨fun v hv => h.free v (List.mem_append_left _ hv), h.nodup.of_append_left⟩

end Grammar

end InfoProtocol
