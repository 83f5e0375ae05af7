import InfoProtocol.Proofs.Grammar.Groups
import InfoProtocol.Proofs.Grammar.Roles

/-!
# Reading actions and declarations

The lines of the actions are read up to the closing brace, and the sections one after the other.
The newline behind the opening brace may be missing, which is safe to try since a word follows.
-/

namespace InfoProtocol.Grammar

variable {α : Type}

theorem line_iff {gs : List Sign} {a : Action} :
    Line gs a ↔ ∃ hs, gs = [.word a.sender, .mark .arrow, .word a.receiver, .mark .colon,
      .word a.name, .mark .openBracket] ++ hs ++ [.mark .closeBracket, .mark .newline] ∧
      Commas Group hs a.params := by
  constructor
  · intro h
    obtain ⟨s, r, n, hps⟩ := h
    exact ⟨_, rfl, hps⟩
  · intro h
    obtain ⟨hs, rfl, hps⟩ := h
    exact .intro a.sender a.receiver a.name hps

theorem reads_action (roles : List Role) :
    Reads (action roles) fun gs a => Line gs a ∧ ActionDeclared roles a := by
  have h := (reads_declaredRole roles).bind fun s =>
    (reads_take (k := .arrow) (by decide)).bind fun _ =>
      (reads_declaredRole roles).bind fun r =>
        (reads_take (k := .colon) (by decide)).bind fun _ =>
          reads_name.bind fun n =>
            (reads_take (k := .openBracket) (by decide)).bind fun _ =>
              (reads_paramsUntil .closeBracket (by decide) (by decide)).bind fun ps =>
                (reads_take (k := .newline) (by decide)).bind fun _ =>
                  reads_pure (⟨n, s, r, ps⟩ : Action)
  refine Reads.congr h fun gs a => ?_
  rw [line_iff]
  simp only [Phrase.andThen_word, Phrase.andThen_mark]
  constructor
  · intro h
    obtain ⟨s, _, rfl, hs, _, rfl, r, _, rfl, hr, _, rfl, n, _, rfl, hn, _, rfl, ps, _, _, rfl,
      ⟨hs', rfl, hc, hnames⟩, _, _, _, rfl, rfl, rfl, rfl⟩ := h
    exact ⟨⟨hs', by simp, hc⟩, hn, ⟨hs, hr⟩, hnames⟩
  · intro h
    obtain ⟨⟨hs', rfl, hc⟩, hn, ⟨hs, hr⟩, hnames⟩ := h
    exact ⟨a.sender, _, rfl, hs, _, rfl, a.receiver, _, rfl, hr, _, rfl, a.name, _, rfl, hn, _,
      rfl, a.params, hs' ++ [.mark .closeBracket], [.mark .newline], by simp,
      ⟨hs', rfl, hc, hnames⟩, (), _, [], rfl, rfl, rfl, rfl⟩

theorem Line.head {gs : List Sign} {a : Action} (h : Line gs a) :
    gs.head? = some (.word a.sender) := by
  cases h
  rfl

theorem actionsUntilClose_close {roles : List Role} {t : Token} {ts : List Token}
    (ht : t.kind = .closeBrace) : actionsUntilClose roles (t :: ts) = .ok [] ts := by
  rw [actionsUntilClose, if_pos ht]

theorem actionsUntilClose_action {roles : List Role} {ts us : List Token} {t : Token} {a : Action}
    (ht : t.kind ≠ .closeBrace) (ha : action roles (t :: ts) = .ok a us) :
    actionsUntilClose roles (t :: ts) =
      match actionsUntilClose roles us with
      | .error e vs => .error e vs
      | .ok as vs => .ok (a :: as) vs := by
  rw [actionsUntilClose, if_neg ht]
  split
  · next h =>
    rw [ha] at h
    cases h
  · next h =>
    rw [ha] at h
    cases h
    rfl

theorem actionsUntilClose_error {roles : List Role} {ts us : List Token} {t : Token} {e : Fault}
    (ht : t.kind ≠ .closeBrace) (he : action roles (t :: ts) = .error e us) :
    actionsUntilClose roles (t :: ts) = .error e us := by
  rw [actionsUntilClose, if_neg ht]
  split
  · next h =>
    rw [he] at h
    cases h
    rfl
  · next h =>
    rw [he] at h
    cases h

theorem actionsUntilClose_sound {roles : List Role} {ts us : List Token} {as : List Action}
    (h : actionsUntilClose roles ts = .ok as us) :
    ∃ pre hs, ts = pre ++ us ∧ pre.map Token.sign = hs ++ [.mark .closeBrace] ∧ Lines hs as ∧
      ∀ a ∈ as, ActionDeclared roles a := by
  fun_induction actionsUntilClose roles ts generalizing as us with
  | case1 => cases h
  | case2 t ts ht =>
    cases h
    exact ⟨[t], [], rfl, by simpa using (Token.sign_eq_mark (by decide)).2 ht, .nil, by simp⟩
  | case3 => cases h
  | case4 => cases h
  | case5 t ts ht a us ha hlt as vs has ih =>
    cases h
    obtain ⟨pre, hpre, hline, hdecl⟩ := (reads_action roles _ _ _).1 ha
    obtain ⟨mid, hs, rfl, hmid, hlines, hall⟩ := ih has
    refine ⟨pre ++ mid, pre.map Token.sign ++ hs, by simp [hpre], ?_, .cons hline hlines,
      List.forall_mem_cons.2 ⟨hdecl, hall⟩⟩
    rw [List.map_append, hmid, List.append_assoc]

theorem actionsUntilClose_line {roles : List Role} {pre us : List Token} {a : Action}
    (hl : Line (pre.map Token.sign) a) (ha : ActionDeclared roles a) :
    actionsUntilClose roles (pre ++ us) =
      match actionsUntilClose roles us with
      | .error e vs => .error e vs
      | .ok as vs => .ok (a :: as) vs := by
  have hread : action roles (pre ++ us) = .ok a us :=
    (reads_action roles _ _ _).2 ⟨pre, rfl, hl, ha⟩
  have hhead := hl.head
  cases pre with
  | nil => cases hhead
  | cons t pre =>
    rw [List.map_cons, List.head?_cons, Option.some.injEq] at hhead
    have ht : t.kind = .word := (Token.sign_eq_word.1 hhead).1
    exact actionsUntilClose_action (by rw [ht]; decide) hread

theorem actionsUntilClose_complete {roles : List Role} {hs : List Sign} {as : List Action}
    (hl : Lines hs as) (hall : ∀ a ∈ as, ActionDeclared roles a) {pre us : List Token}
    (hpre : pre.map Token.sign = hs ++ [.mark .closeBrace]) :
    actionsUntilClose roles (pre ++ us) = .ok as us := by
  induction hl generalizing pre with
  | nil =>
    obtain ⟨t, rfl, ht⟩ := List.map_eq_singleton_iff.1 hpre
    exact actionsUntilClose_close ((Token.sign_eq_mark (by decide)).1 ht)
  | @cons gs hs a as ha _ ih =>
    obtain ⟨hdecl, hall⟩ := List.forall_mem_cons.1 hall
    rw [List.append_assoc] at hpre
    obtain ⟨p₁, p₂, rfl, rfl, hp₂⟩ := List.map_eq_append_iff.1 hpre
    rw [List.append_assoc, actionsUntilClose_line ha hdecl, ih hall hp₂]

theorem reads_actionsUntilClose (roles : List Role) :
    Reads (actionsUntilClose roles) fun gs as => ∃ hs, gs = hs ++ [.mark .closeBrace] ∧
      Lines hs as ∧ ∀ a ∈ as, ActionDeclared roles a := by
  intro ts as us
  constructor
  · intro h
    obtain ⟨pre, hs, hts, hpre, hl, hall⟩ := actionsUntilClose_sound h
    exact ⟨pre, hts, hs, hpre, hl, hall⟩
  · intro h
    obtain ⟨pre, rfl, hs, hpre, hl, hall⟩ := h
    exact actionsUntilClose_complete hl hall hpre

theorem optional_ok {k : TokenKind} {ts us : List Token} {u : Unit} :
    optional k ts = .ok u us ↔ (∃ t, t.kind = k ∧ ts = t :: us) ∨
      ts = us ∧ ∀ t ∈ ts.head?, t.kind ≠ k := by
  cases ts with
  | nil => simp [optional]
  | cons t ts =>
    by_cases h : t.kind = k <;> simp [optional, h]

theorem exists_break_of_optional {ts us : List Token} {u : Unit}
    (h : optional .newline ts = .ok u us) :
    ∃ pre, ts = pre ++ us ∧ Break (pre.map Token.sign) := by
  rcases optional_ok.1 h with ⟨t, ht, rfl⟩ | ⟨rfl, -⟩
  · have hsign : t.sign = .mark .newline := (Token.sign_eq_mark (by decide)).2 ht
    refine ⟨[t], rfl, ?_⟩
    rw [List.map_singleton, hsign]
    exact .one
  · exact ⟨[], rfl, .none⟩

theorem optional_of_break {pre us : List Token} (hb : Break (pre.map Token.sign))
    (hus : ∀ t ∈ us.head?, t.kind ≠ .newline) : optional .newline (pre ++ us) = .ok () us := by
  rw [optional_ok]
  generalize hbs : pre.map Token.sign = bs at hb
  cases hb with
  | none =>
    rw [List.map_eq_nil_iff] at hbs
    subst hbs
    exact .inr ⟨rfl, hus⟩
  | one =>
    obtain ⟨t, rfl, ht⟩ := List.map_eq_singleton_iff.1 hbs
    exact .inl ⟨t, (Token.sign_eq_mark (by decide)).1 ht, rfl⟩

theorem head_ne_newline_of_word {pre us : List Token} {w : String}
    (h : (pre.map Token.sign).head? = some (.word w)) :
    ∀ t ∈ (pre ++ us).head?, t.kind ≠ .newline := by
  cases pre with
  | nil => cases h
  | cons t pre =>
    rw [List.map_cons, List.head?_cons, Option.some.injEq] at h
    rintro u ⟨⟩
    rw [(Token.sign_eq_word.1 h).1]
    decide

theorem Reads.optional_newline {r : Reading α} {R : Phrase α} (hr : Reads r R)
    (hword : ∀ gs a, R gs a → ∃ w, gs.head? = some (.word w)) :
    Reads (optional .newline >>= fun _ => r) fun gs a =>
      ∃ bs hs, gs = bs ++ hs ∧ Break bs ∧ R hs a := by
  intro ts a us
  rw [bind_ok]
  constructor
  · intro h
    obtain ⟨_, vs, ho, h⟩ := h
    obtain ⟨p₁, rfl, hb⟩ := exists_break_of_optional ho
    obtain ⟨p₂, rfl, hR⟩ := (hr _ _ _).1 h
    exact ⟨p₁ ++ p₂, by simp, _, _, List.map_append, hb, hR⟩
  · intro h
    obtain ⟨pre, rfl, bs, hs, hpre, hb, hR⟩ := h
    obtain ⟨p₁, p₂, rfl, rfl, rfl⟩ := List.map_eq_append_iff.1 hpre
    obtain ⟨w, hw⟩ := hword _ _ hR
    refine ⟨(), p₂ ++ us, ?_, (hr _ _ _).2 ⟨p₂, rfl, hR⟩⟩
    rw [List.append_assoc]
    exact optional_of_break hb (head_ne_newline_of_word hw)

theorem declaration_iff {gs : List Sign} {p : Protocol} :
    Declaration gs p ↔ ∃ bs rs hs ls, gs = [.word p.name, .mark .openBrace] ++ bs ++
      [.word "role"] ++ rs ++ [.mark .newline] ++ [.word "parameter"] ++ hs ++
      [.mark .newline] ++ ls ++ [.mark .closeBrace] ∧ Break bs ∧ Commas RoleName rs p.roles ∧
      Commas Group hs p.params ∧ Lines ls p.actions := by
  constructor
  · intro h
    obtain ⟨n, hb, hr, hp, ha⟩ := h
    exact ⟨_, _, _, _, rfl, hb, hr, hp, ha⟩
  · intro h
    obtain ⟨bs, rs, hs, ls, rfl, hb, hr, hp, ha⟩ := h
    exact .intro p.name hb hr hp ha

def sections (n : String) : Reading Protocol := do
  let rs ← roles
  let ps ← parameters n
  let as ← actionsUntilClose rs
  return ⟨n, rs, ps, as⟩

theorem reads_sections (n : String) :
    Reads (sections n) fun gs p => ∃ rs hs ls, gs = [.word "role"] ++ rs ++ [.mark .newline] ++
      [.word "parameter"] ++ hs ++ [.mark .newline] ++ ls ++ [.mark .closeBrace] ∧
      n = p.name ∧ Commas RoleName rs p.roles ∧ Commas Group hs p.params ∧ Lines ls p.actions ∧
      FreeNames p.roles ∧ FreeNames (p.params.map (·.name)) ∧ p.HasKey ∧
      ∀ a ∈ p.actions, ActionDeclared p.roles a := by
  have h := reads_roles.bind fun rs => (reads_parameters n).bind fun ps =>
    (reads_actionsUntilClose rs).bind fun as => reads_pure (⟨n, rs, ps, as⟩ : Protocol)
  refine Reads.congr h fun gs p => ?_
  constructor
  · intro h
    obtain ⟨roles, _, _, rfl, ⟨rs, rfl, hr, hrs⟩, params, _, _, rfl, ⟨hs, rfl, hp, hps, hk⟩,
      actions, _, _, rfl, ⟨ls, rfl, hl, hls⟩, rfl, rfl⟩ := h
    exact ⟨rs, hs, ls, by simp, rfl, hr, hp, hl, hrs, hps, hk, hls⟩
  · intro h
    obtain ⟨rs, hs, ls, rfl, rfl, hr, hp, hl, hrs, hps, hk, hls⟩ := h
    exact ⟨p.roles, [.word "role"] ++ rs ++ [.mark .newline], _, by simp; rfl,
      ⟨rs, rfl, hr, hrs⟩, p.params, [.word "parameter"] ++ hs ++ [.mark .newline], _, by simp; rfl,
      ⟨hs, rfl, hp, hps, hk⟩, p.actions, ls ++ [.mark .closeBrace], [], by simp,
      ⟨ls, rfl, hl, hls⟩, rfl, rfl⟩

theorem reads_declaration :
    Reads declaration fun gs p => Declaration gs p ∧ p.WellFormed := by
  have h := reads_name.bind fun n => (reads_take (k := .openBrace) (by decide)).bind fun _ =>
    (reads_sections n).optional_newline (by
      rintro gs p ⟨rs, hs, ls, rfl, -⟩
      exact ⟨"role", rfl⟩)
  refine Reads.congr h fun gs p => ?_
  rw [declaration_iff]
  simp only [Phrase.andThen_word, Phrase.andThen_mark]
  constructor
  · intro h
    obtain ⟨n, _, rfl, hn, _, rfl, bs, _, rfl, hb, rs, hs, ls, rfl, rfl, hr, hp, hl, hrs, hps, hk,
      hls⟩ := h
    exact ⟨⟨bs, rs, hs, ls, by simp, hb, hr, hp, hl⟩, hn, hrs, hps, hk, hls⟩
  · intro h
    obtain ⟨⟨bs, rs, hs, ls, rfl, hb, hr, hp, hl⟩, hn, hrs, hps, hk, hls⟩ := h
    exact ⟨p.name, _, rfl, hn, _, rfl, bs, _, by simp; rfl, hb, rs, hs, ls, by simp, rfl, hr, hp,
      hl, hrs, hps, hk, hls⟩

end InfoProtocol.Grammar
