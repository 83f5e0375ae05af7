import InfoProtocol.Proofs.Grammar.Acceptance

/-!
# Where reading refuses what is declared

Most faults are about spelling. Two are about what is declared: parameters without a key, and an
action with a role that is not among those of the protocol. The first can only arise behind the
parameters of the protocol and the second only at a role of an action. So a reading stops with one
of them exactly where the signs behind it are a heading, or a heading and some actions, and all of
these but the last piece would have been accepted.
-/

namespace InfoProtocol.Grammar

variable {α β : Type}

/-- The fault lies in what is declared and not in how it is spelled. -/
def Fault.Semantic : Fault → Prop
  | .defect _ => True
  | .unexpected .declaredRole _ _ => True
  | _ => False

theorem bind_error {r : Reading α} {f : α → Reading β} {ts us : List Token} {e : Fault} :
    (r >>= f) ts = .error e us ↔
      r ts = .error e us ∨ ∃ a vs, r ts = .ok a vs ∧ f a vs = .error e us := by
  change EStateM.bind r f ts = _ ↔ _
  unfold EStateM.bind
  cases r ts with
  | ok a vs =>
    constructor
    · intro h
      exact .inr ⟨a, vs, rfl, h⟩
    · intro h
      rcases h with h | ⟨a', vs', h, hf⟩
      · cases h
      · cases h
        exact hf
  | error e' vs => simp

def Syntactic (r : Reading α) : Prop := ∀ ts e us, r ts = .error e us → ¬ e.Semantic

theorem Syntactic.bind {r : Reading α} {f : α → Reading β} (hr : Syntactic r)
    (hf : ∀ a, Syntactic (f a)) : Syntactic (r >>= f) := by
  intro ts e us h
  rcases bind_error.1 h with h | ⟨a, vs, -, h⟩
  · exact hr _ _ _ h
  · exact hf a _ _ _ h

theorem syntactic_pure (a : α) : Syntactic (pure a) := nofun

theorem syntactic_advance : Syntactic advance := by
  intro ts e us h
  cases ts <;> cases h

theorem syntactic_peekAs {e : Expected} (k : TokenKind) (he : e ≠ .declaredRole) :
    Syntactic (peekAs e k) := by
  intro ts f us h
  cases ts with
  | nil =>
    cases h
    exact id
  | cons t ts =>
    simp only [peekAs] at h
    split at h
    · cases h
    · cases h
      cases e with
      | declaredRole => exact absurd rfl he
      | _ => exact id

theorem syntactic_word : Syntactic word := syntactic_peekAs .word nofun

theorem syntactic_take (k : TokenKind) : Syntactic (take k) :=
  Syntactic.bind (syntactic_peekAs k nofun) fun _ => syntactic_advance

theorem syntactic_finish : Syntactic finish := by
  refine Syntactic.bind nofun fun _ ts e us h => ?_
  cases ts with
  | nil => cases h
  | cons t ts =>
    cases h
    exact id

theorem BlamedOn.not_semantic {group : List Token} {e : Fault} (h : BlamedOn group e) :
    ¬ e.Semantic := by
  rcases h with ⟨_, _, _, rfl⟩ | ⟨_, rfl⟩
  · exact id
  · exact id

theorem syntactic_ofExcept {group : List Token} {x : Except Fault α} (hx : Blames group x) :
    Syntactic (ofExcept x) := by
  intro ts e us h
  cases x with
  | ok a => cases h
  | error f =>
    cases h
    exact (hx _ rfl).not_semantic

theorem syntactic_name : Syntactic name :=
  syntactic_word.bind fun t =>
    (syntactic_ofExcept (blames_nameOf (List.mem_singleton_self t) (by simp))).bind fun _ =>
      syntactic_advance.bind fun _ => syntactic_pure _

theorem syntactic_keyword (w : String) : Syntactic (keyword w) := by
  refine syntactic_word.bind fun t => ?_
  split
  · exact syntactic_advance
  · intro ts e us h
    cases h
    exact id

theorem syntactic_rolesAfter (done : List Role) : Syntactic (rolesAfter done) := by
  intro ts e us h
  fun_induction rolesAfter done ts with
  | case6 done t hk hf hn u ts hu ih => exact ih h
  | case7 => cases h
  | case1 | case2 | case3 | case4 | case5 | case8 =>
    cases h
    exact id

theorem syntactic_roles : Syntactic roles :=
  (syntactic_keyword "role").bind fun _ => syntactic_rolesAfter []

theorem syntactic_paramsAfter (closer : TokenKind) (done : List Parameter) (group : List Token) :
    Syntactic (paramsAfter closer done group) := by
  intro ts
  induction ts generalizing done group with
  | nil =>
    intro e us h
    cases h
    exact id
  | cons t ts ih =>
    intro e us h
    simp only [paramsAfter] at h
    split at h
    · exact ih _ _ e us h
    · split at h
      · split at h
        · exact ih _ _ e us h
        · next hd =>
          cases h
          exact (blames_declare _ _ _ hd).not_semantic
      · split at h
        · split at h
          · cases h
          · next hd =>
            cases h
            exact (blames_declare _ _ _ hd).not_semantic
        · cases h
          exact id

theorem syntactic_paramsUntil (closer : TokenKind) : Syntactic (paramsUntil closer) :=
  syntactic_paramsAfter closer [] []

/-- The reading fails with `e` exactly in front of tokens and behind signs that `F` relates. -/
def Stops (r : Reading α) (e : Fault) (F : List Sign → List Token → Prop) : Prop :=
  ∀ ts us, r ts = .error e us ↔ ∃ pre, ts = pre ++ us ∧ F (pre.map Token.sign) us

theorem Stops.congr {r : Reading α} {e : Fault} {F G : List Sign → List Token → Prop}
    (h : Stops r e F) (hFG : ∀ gs us, F gs us ↔ G gs us) : Stops r e G := by
  intro ts us
  rw [h ts us]
  simp only [hFG]

theorem Syntactic.stops {r : Reading α} (h : Syntactic r) {e : Fault} (he : e.Semantic) :
    Stops r e fun _ _ => False := by
  intro ts us
  constructor
  · intro hr
    exact absurd he (h ts e us hr)
  · intro hr
    obtain ⟨pre, -, hF⟩ := hr
    exact hF.elim

theorem Stops.bind {r : Reading α} {f : α → Reading β} {R : Phrase α} {e : Fault}
    {F : List Sign → List Token → Prop} {G : α → List Sign → List Token → Prop}
    (hr : Reads r R) (hs : Stops r e F) (hf : ∀ a, Stops (f a) e (G a)) :
    Stops (r >>= f) e fun gs us =>
      F gs us ∨ ∃ a hs ks, gs = hs ++ ks ∧ R hs a ∧ G a ks us := by
  intro ts us
  rw [bind_error]
  constructor
  · intro h
    rcases h with h | ⟨a, vs, ha, h⟩
    · obtain ⟨pre, rfl, hF⟩ := (hs _ _).1 h
      exact ⟨pre, rfl, .inl hF⟩
    · obtain ⟨pre, rfl, hR⟩ := (hr _ _ _).1 ha
      obtain ⟨mid, rfl, hG⟩ := (hf a _ _).1 h
      exact ⟨pre ++ mid, by simp, .inr ⟨a, _, _, List.map_append, hR, hG⟩⟩
  · intro h
    obtain ⟨pre, rfl, hF | ⟨a, hs', ks, hpre, hR, hG⟩⟩ := h
    · exact .inl ((hs _ _).2 ⟨pre, rfl, hF⟩)
    · obtain ⟨p₁, p₂, rfl, rfl, rfl⟩ := List.map_eq_append_iff.1 hpre
      refine .inr ⟨a, p₂ ++ us, (hr _ _ _).2 ⟨p₁, by simp, hR⟩, (hf a _ _).2 ⟨p₂, rfl, hG⟩⟩

theorem Stops.behind {r : Reading α} {f : α → Reading β} {R : Phrase α} {e : Fault}
    {G : α → List Sign → List Token → Prop} (he : e.Semantic) (hr : Reads r R)
    (hs : Syntactic r) (hf : ∀ a, Stops (f a) e (G a)) :
    Stops (r >>= f) e fun gs us => ∃ a hs ks, gs = hs ++ ks ∧ R hs a ∧ G a ks us :=
  (Stops.bind hr (hs.stops he) hf).congr fun _ _ => by simp only [false_or]

theorem Stops.before {r : Reading α} {f : α → Reading β} {e : Fault}
    {F : List Sign → List Token → Prop} (he : e.Semantic) (hs : Stops r e F)
    (hf : ∀ a, Syntactic (f a)) : Stops (r >>= f) e F := by
  intro ts us
  rw [bind_error]
  constructor
  · intro h
    rcases h with h | ⟨a, vs, -, h⟩
    · exact (hs _ _).1 h
    · exact absurd he (hf a _ _ _ h)
  · intro h
    exact .inl ((hs _ _).2 h)

inductive Stranger (roles : List Role) : Fault → List Token → Prop
  | intro {t : Token} (ht : t.kind = .word) (hr : t.text ∉ roles) (us : List Token) :
      Stranger roles (.unexpected .declaredRole t.text t.line) (t :: us)

/-- What stands in front of a role in a line: nothing, or the sender and the arrow. -/
inductive BeforeRole (roles : List Role) : List Sign → Prop
  | sender : BeforeRole roles []
  | receiver {s : Role} (hs : s ∈ roles) : BeforeRole roles [.word s, .mark .arrow]

variable {e : Fault}

theorem stops_declaredRole (he : e.Semantic) (roles : List Role) :
    Stops (declaredRole roles) e fun gs us => gs = [] ∧ Stranger roles e us := by
  have hjudge : ∀ t us ts, (if roles.contains t.text then do advance; return t.text
      else throw (.unexpected .declaredRole t.text t.line) : Reading Role) (t :: ts) = .error e us ↔
      us = t :: ts ∧ t.text ∉ roles ∧ e = .unexpected .declaredRole t.text t.line := by
    intro t us ts
    by_cases hr : t.text ∈ roles
    · rw [if_pos (List.contains_iff_mem.2 hr)]
      simp only [hr, not_true_eq_false, false_and, and_false, iff_false]
      intro h
      cases h
    · rw [if_neg (by simpa using hr)]
      simp only [hr, not_false_eq_true, true_and]
      constructor
      · intro h
        cases h
        exact ⟨rfl, rfl⟩
      · intro h
        obtain ⟨rfl, rfl⟩ := h
        rfl
  intro ts us
  rw [declaredRole, bind_error]
  constructor
  · intro h
    rcases h with h | ⟨t, vs, ht, h⟩
    · exact absurd he (syntactic_word _ _ _ h)
    · obtain ⟨rfl, hk, ws, rfl⟩ := peekAs_ok.1 ht
      obtain ⟨rfl, hr, rfl⟩ := (hjudge _ _ _).1 h
      exact ⟨[], rfl, rfl, .intro hk hr ws⟩
  · intro h
    obtain ⟨pre, rfl, hpre, hs⟩ := h
    rw [List.map_eq_nil_iff] at hpre
    subst hpre
    obtain @⟨t, hk, hr, ws⟩ := hs
    exact .inr ⟨t, _, peekAs_ok.2 ⟨rfl, hk, ws, rfl⟩, (hjudge _ _ _).2 ⟨rfl, hr, rfl⟩⟩

theorem stops_action (he : e.Semantic) (roles : List Role) :
    Stops (action roles) e fun gs us => BeforeRole roles gs ∧ Stranger roles e us := by
  have hrest : ∀ s r, Syntactic (do
      take .colon
      let n ← name
      take .openBracket
      let ps ← paramsUntil .closeBracket
      take .newline
      return ⟨n, s, r, ps⟩ : Reading Action) := fun s r =>
    (syntactic_take _).bind fun _ => syntactic_name.bind fun _ => (syntactic_take _).bind fun _ =>
      (syntactic_paramsUntil _).bind fun _ => (syntactic_take _).bind fun _ => syntactic_pure _
  have h := Stops.bind (reads_declaredRole roles) (stops_declaredRole he roles) fun s =>
    Stops.behind he (reads_take (k := .arrow) (by decide)) (syntactic_take _) fun _ =>
      (stops_declaredRole he roles).before he fun r => hrest s r
  refine Stops.congr h fun gs us => ?_
  constructor
  · intro h
    rcases h with ⟨rfl, hs⟩ | ⟨s, _, _, rfl, ⟨rfl, hs⟩, _, _, _, rfl, rfl, rfl, hus⟩
    · exact ⟨.sender, hs⟩
    · exact ⟨.receiver hs, hus⟩
  · intro h
    obtain ⟨hb, hus⟩ := h
    cases hb with
    | sender => exact .inl ⟨rfl, hus⟩
    | receiver hs => exact .inr ⟨_, [_], [_], rfl, ⟨rfl, hs⟩, (), [_], [], rfl, rfl, rfl, hus⟩

theorem BeforeRole.exists_word {roles : List Role} {pre us : List Token}
    (hb : BeforeRole roles (pre.map Token.sign)) (hs : Stranger roles e us) :
    ∃ t ts, pre ++ us = t :: ts ∧ t.kind = .word := by
  generalize hks : pre.map Token.sign = ks at hb
  cases hb with
  | sender =>
    rw [List.map_eq_nil_iff] at hks
    subst hks
    obtain @⟨t, ht, -, us⟩ := hs
    exact ⟨t, us, rfl, ht⟩
  | receiver =>
    obtain ⟨t, l, rfl, ht, -⟩ := List.map_eq_cons_iff.1 hks
    exact ⟨t, l ++ us, rfl, (Token.sign_eq_word.1 ht).1⟩

theorem actionsUntilClose_stops (he : e.Semantic) {roles : List Role} {ts us : List Token}
    (h : actionsUntilClose roles ts = .error e us) :
    ∃ pre ls ks as, ts = pre ++ us ∧ pre.map Token.sign = ls ++ ks ∧ Lines ls as ∧
      (∀ a ∈ as, ActionDeclared roles a) ∧ BeforeRole roles ks ∧ Stranger roles e us := by
  fun_induction actionsUntilClose roles ts with
  | case1 =>
    cases h
    exact he.elim
  | case2 => cases h
  | case3 t ts ht f vs ha =>
    cases h
    obtain ⟨pre, hpre, hb, hs⟩ := (stops_action he roles _ _).1 ha
    exact ⟨pre, [], _, [], hpre, rfl, .nil, by simp, hb, hs⟩
  | case4 t ts ht a vs ha _ f ws hf ih =>
    cases h
    obtain ⟨p₁, hp₁, hline, hdecl⟩ := (reads_action roles _ _ _).1 ha
    obtain ⟨p₂, ls, ks, as, rfl, hp₂, hl, hall, hb, hs⟩ := ih hf
    refine ⟨p₁ ++ p₂, p₁.map Token.sign ++ ls, ks, a :: as, by simp [hp₁], ?_, .cons hline hl,
      List.forall_mem_cons.2 ⟨hdecl, hall⟩, hb, hs⟩
    rw [List.map_append, hp₂, List.append_assoc]
  | case5 => cases h

theorem actionsUntilClose_of_stranger (he : e.Semantic) {roles : List Role} {ls ks : List Sign}
    {as : List Action} (hl : Lines ls as) (hall : ∀ a ∈ as, ActionDeclared roles a)
    (hb : BeforeRole roles ks) {pre us : List Token} (hs : Stranger roles e us)
    (hpre : pre.map Token.sign = ls ++ ks) : actionsUntilClose roles (pre ++ us) = .error e us := by
  induction hl generalizing pre with
  | nil =>
    subst hpre
    have hread := (stops_action he roles _ _).2 ⟨pre, rfl, hb, hs⟩
    obtain ⟨t, ts, hts, ht⟩ := hb.exists_word hs
    rw [hts] at hread ⊢
    exact actionsUntilClose_error (by rw [ht]; decide) hread
  | @cons gs hs' a as ha _ ih =>
    obtain ⟨hdecl, hall⟩ := List.forall_mem_cons.1 hall
    rw [List.append_assoc] at hpre
    obtain ⟨p₁, p₂, rfl, rfl, hp₂⟩ := List.map_eq_append_iff.1 hpre
    rw [List.append_assoc, actionsUntilClose_line ha hdecl, ih hall hp₂]

theorem stops_actionsUntilClose (he : e.Semantic) (roles : List Role) :
    Stops (actionsUntilClose roles) e fun gs us => ∃ ls ks as, gs = ls ++ ks ∧ Lines ls as ∧
      (∀ a ∈ as, ActionDeclared roles a) ∧ BeforeRole roles ks ∧ Stranger roles e us := by
  intro ts us
  constructor
  · intro h
    obtain ⟨pre, ls, ks, as, hts, hpre, hl, hall, hb, hs⟩ := actionsUntilClose_stops he h
    exact ⟨pre, hts, ls, ks, as, hpre, hl, hall, hb, hs⟩
  · intro h
    obtain ⟨pre, rfl, ls, ks, as, hpre, hl, hall, hb, hs⟩ := h
    exact actionsUntilClose_of_stranger he hl hall hb hs hpre

theorem stops_parameters (he : e.Semantic) (n : String) :
    Stops (parameters n) e fun gs _ => ∃ hs ps,
      gs = [.word "parameter"] ++ hs ++ [.mark .newline] ∧ Commas Group hs ps ∧
        FreeNames (ps.map (·.name)) ∧ (¬ ∃ q ∈ ps, q.isKey = true) ∧
          e = .defect (.noKeyParameters n) := by
  have hkey : ∀ ps : List Parameter, Stops
      (if ps.any (·.isKey) then pure ps else throw (.defect (.noKeyParameters n))) e
      fun gs _ => gs = [] ∧ (¬ ∃ q ∈ ps, q.isKey = true) ∧ e = .defect (.noKeyParameters n) := by
    intro ps ts us
    by_cases h : ps.any (·.isKey) = true
    · rw [if_pos h]
      simp only [List.any_eq_true.1 h, not_true_eq_false, false_and, and_false, exists_false,
        iff_false]
      intro hp
      cases hp
    · rw [if_neg h]
      have hno : ¬ ∃ q ∈ ps, q.isKey = true := by simpa using h
      constructor
      · intro hp
        cases hp
        exact ⟨[], rfl, rfl, hno, rfl⟩
      · intro hp
        obtain ⟨pre, rfl, hpre, -, rfl⟩ := hp
        rw [List.map_eq_nil_iff] at hpre
        rw [hpre]
        rfl
  refine (Stops.behind he (reads_keyword "parameter") (syntactic_keyword _) fun _ =>
    Stops.behind he (reads_paramsUntil .newline (by decide) (by decide)) (syntactic_paramsUntil _)
      hkey).congr fun gs us => ?_
  constructor
  · intro h
    obtain ⟨_, _, _, rfl, rfl, ps, _, _, rfl, ⟨hs, rfl, hc, hnames⟩, rfl, hno, rfl⟩ := h
    exact ⟨hs, ps, by simp, hc, hnames, hno, rfl⟩
  · intro h
    obtain ⟨hs, ps, rfl, hc, hnames, hno, rfl⟩ := h
    exact ⟨(), _, hs ++ [.mark .newline], List.append_assoc .., rfl, ps, _, [], by simp,
      ⟨hs, rfl, hc, hnames⟩, rfl, hno, rfl⟩

structure HeadingDeclared (p : Protocol) : Prop where
  free : Free p.name
  roles : FreeNames p.roles
  params : FreeNames (p.params.map (·.name))

/-- What is wrong with a protocol behind its heading, as far as it has been read: it has no key, or
its actions are followed by a role that is a stranger. -/
inductive Refused (p : Protocol) : Fault → List Sign → List Token → Prop
  | noKey (hk : ¬ p.HasKey) (us : List Token) :
      Refused p (.defect (.noKeyParameters p.name)) [] us
  | stranger (hk : p.HasKey) {ls ks : List Sign} {e : Fault} {us : List Token}
      (hl : Lines ls p.actions) (ha : ∀ a ∈ p.actions, ActionDeclared p.roles a)
      (hb : BeforeRole p.roles ks) (hs : Stranger p.roles e us) : Refused p e (ls ++ ks) us

theorem stops_sections (he : e.Semantic) (n : String) :
    Stops (sections n) e fun gs us => ∃ rs hs ks p, gs = [.word "role"] ++ rs ++
      [.mark .newline] ++ [.word "parameter"] ++ hs ++ [.mark .newline] ++ ks ∧ n = p.name ∧
      Commas RoleName rs p.roles ∧ Commas Group hs p.params ∧ FreeNames p.roles ∧
      FreeNames (p.params.map (·.name)) ∧ Refused p e ks us := by
  have h := Stops.behind he reads_roles syntactic_roles fun rs =>
    Stops.bind (reads_parameters n) (stops_parameters he n) fun ps =>
      (stops_actionsUntilClose he rs).before he fun as =>
        syntactic_pure (⟨n, rs, ps, as⟩ : Protocol)
  refine Stops.congr h fun gs us => ?_
  constructor
  · intro h
    obtain ⟨roles, _, _, rfl, ⟨rs, rfl, hr, hrs⟩, h⟩ := h
    rcases h with ⟨hs, params, rfl, hp, hps, hno, rfl⟩ |
      ⟨params, _, _, rfl, ⟨hs, rfl, hp, hps, hk⟩, ls, ks, actions, rfl, hl, ha, hb, hus⟩
    · exact ⟨rs, hs, [], ⟨n, roles, params, []⟩, by simp, rfl, hr, hp, hrs, hps,
        .noKey (p := ⟨n, roles, params, []⟩) hno us⟩
    · exact ⟨rs, hs, ls ++ ks, ⟨n, roles, params, actions⟩, by simp, rfl, hr, hp, hrs, hps,
        .stranger (p := ⟨n, roles, params, actions⟩) hk hl ha hb hus⟩
  · intro h
    obtain ⟨rs, hs, ks, p, rfl, rfl, hr, hp, hrs, hps, h⟩ := h
    refine ⟨p.roles, [.word "role"] ++ rs ++ [.mark .newline],
      [.word "parameter"] ++ hs ++ [.mark .newline] ++ ks, by simp, ⟨rs, rfl, hr, hrs⟩, ?_⟩
    cases h with
    | noKey hno => exact .inl ⟨hs, p.params, by simp, hp, hps, hno, rfl⟩
    | @stranger hk ls ks _ _ hl ha hb hus =>
      exact .inr ⟨p.params, [.word "parameter"] ++ hs ++ [.mark .newline], ls ++ ks, rfl,
        ⟨hs, rfl, hp, hps, hk⟩, ls, ks, p.actions, rfl, hl, ha, hb, hus⟩

theorem optional_ne_error (k : TokenKind) (ts us : List Token) : optional k ts ≠ .error e us := by
  intro h
  cases ts with
  | nil => cases h
  | cons t ts =>
    simp only [optional] at h
    split at h <;> cases h

theorem Stops.optional_newline {r : Reading α} {F : List Sign → List Token → Prop}
    (hr : Stops r e F) (hword : ∀ gs us, F gs us → ∃ w, gs.head? = some (.word w)) :
    Stops (optional .newline >>= fun _ => r) e fun gs us =>
      ∃ bs hs, gs = bs ++ hs ∧ Break bs ∧ F hs us := by
  intro ts us
  rw [bind_error]
  constructor
  · intro h
    rcases h with h | ⟨_, vs, ho, h⟩
    · exact absurd h (optional_ne_error _ _ _)
    · obtain ⟨p₁, rfl, hb⟩ := exists_break_of_optional ho
      obtain ⟨p₂, rfl, hF⟩ := (hr _ _).1 h
      exact ⟨p₁ ++ p₂, by simp, _, _, List.map_append, hb, hF⟩
  · intro h
    obtain ⟨pre, rfl, bs, hs, hpre, hb, hF⟩ := h
    obtain ⟨p₁, p₂, rfl, rfl, rfl⟩ := List.map_eq_append_iff.1 hpre
    obtain ⟨w, hw⟩ := hword _ _ hF
    refine .inr ⟨(), p₂ ++ us, ?_, (hr _ _).2 ⟨p₂, rfl, hF⟩⟩
    rw [List.append_assoc]
    exact optional_of_break hb (head_ne_newline_of_word hw)

theorem stops_declaration (he : e.Semantic) :
    Stops declaration e fun gs us => ∃ p hs ks, gs = hs ++ ks ∧ Heading hs p ∧
      HeadingDeclared p ∧ Refused p e ks us := by
  have h := Stops.behind he reads_name syntactic_name fun n =>
    Stops.behind he (reads_take (k := .openBrace) (by decide)) (syntactic_take _) fun _ =>
      (stops_sections he n).optional_newline (by
        rintro gs us ⟨rs, hs, ks, p, rfl, -⟩
        exact ⟨"role", rfl⟩)
  refine Stops.congr h fun gs us => ?_
  constructor
  · intro h
    obtain ⟨n, _, _, rfl, ⟨rfl, hn⟩, _, _, _, rfl, rfl, bs, _, rfl, hb, rs, hs, ks, p, rfl, rfl,
      hr, hp, hrs, hps, h⟩ := h
    exact ⟨p, _, ks, by simp, .intro hb hr hp, ⟨hn, hrs, hps⟩, h⟩
  · intro h
    obtain ⟨p, _, ks, rfl, @⟨bs, rs, hs, _, hb, hr, hp⟩, ⟨hn, hrs, hps⟩, h⟩ := h
    exact ⟨p.name, [_], _, rfl, ⟨rfl, hn⟩, (), [_], _, rfl, rfl, bs,
      [.word "role"] ++ rs ++ [.mark .newline] ++ [.word "parameter"] ++ hs ++ [.mark .newline] ++
        ks, by simp, hb, rs, hs, ks, p, rfl, rfl, hr, hp, hrs, hps, h⟩

theorem protocol_stops (he : e.Semantic) {ts us : List Token} (hts : Token.Separated ts) :
    protocol ts = .error e us ↔ ∃ pre bs hs ks p, ts = pre ++ us ∧
      pre.map Token.sign = bs ++ hs ++ ks ∧ Break bs ∧ Heading hs p ∧ HeadingDeclared p ∧
      Refused p e ks us := by
  have hrest := (stops_declaration he).before he fun p =>
    syntactic_finish.bind fun _ => syntactic_pure p
  rw [protocol, bind_error]
  constructor
  · intro h
    rcases h with h | ⟨_, vs, hskip, h⟩
    · cases h
    · obtain ⟨p₁, rfl, hb⟩ := exists_break_of_skipNewlines hts hskip
      obtain ⟨p₂, rfl, p, hs, ks, hp₂, hh, hd, hr⟩ := (hrest _ _).1 h
      exact ⟨p₁ ++ p₂, _, hs, ks, p, by simp, by simp [hp₂], hb, hh, hd, hr⟩
  · intro h
    obtain ⟨pre, bs, hs, ks, p, rfl, hpre, hb, hh, hd, hr⟩ := h
    rw [List.append_assoc] at hpre
    obtain ⟨p₁, p₂, rfl, rfl, hp₂⟩ := List.map_eq_append_iff.1 hpre
    have hword : (p₂.map Token.sign).head? = some (.word p.name) := by
      rw [hp₂, List.head?_append, hh.head]
      rfl
    refine .inr ⟨(), p₂ ++ us, ?_, (hrest _ _).2 ⟨p₂, rfl, p, hs, ks, hp₂, hh, hd, hr⟩⟩
    rw [List.append_assoc]
    exact skipNewlines_of_break hb (head_ne_newline_of_word hword)

end InfoProtocol.Grammar
