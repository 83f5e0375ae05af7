import InfoProtocol.Proofs.Grammar.Reading

/-!
# Reading groups of parameters

A group is judged by position once the token behind it is seen. Until then its words are kept
aside, and the list read so far grows by a parameter at each comma. What is found fault with is a
word of the group, or the group as a whole.
-/

namespace InfoProtocol.Grammar

variable {α β : Type}

def AllWords (group : List Token) : Prop := ∀ t ∈ group, t.kind = .word

theorem AllWords.concat {group : List Token} {t : Token} (hg : AllWords group)
    (ht : t.kind = .word) : AllWords (group ++ [t]) := by
  intro u hu
  rcases List.mem_append.1 hu with hu | hu
  · exact hg u hu
  · exact List.mem_singleton.1 hu ▸ ht

theorem sign_of_allWords {group : List Token} (h : AllWords group) :
    group.map Token.sign = (words group).map Sign.word := by
  simp only [words, List.map_map]
  apply List.map_congr_left
  intro t ht
  exact Token.sign_eq_word.2 ⟨h t ht, rfl⟩

theorem allWords_of_group {group : List Token} {q : Parameter}
    (h : Group (group.map Token.sign) q) : AllWords group := by
  intro t ht
  obtain ⟨w, hw⟩ := h.words _ (List.mem_map_of_mem ht)
  exact (Token.sign_eq_word.1 hw).1

theorem scopeOf_ok {t : Token} {group : List Token} {s : Scope} :
    scopeOf t group = .ok s ↔ t.text = s.word := by
  simp only [scopeOf]
  split
  · next r h =>
    constructor
    · intro he
      cases he
      exact (Scope.word_of_ofWord? h).symm
    · intro ht
      rw [ht, Scope.ofWord?_word] at h
      cases h
      rfl
  · next h =>
    constructor
    · intro he
      cases he
    · intro ht
      rw [ht, Scope.ofWord?_word] at h
      cases h

theorem group_iff {gs : List Sign} {q : Parameter} :
    Group gs q ↔ gs = [.word q.name] ∧ q = ⟨q.name, .nil, false⟩ ∨
      gs = [.word q.name, .word "key"] ∧ q = ⟨q.name, .nil, true⟩ ∨
      gs = [.word q.scope.word, .word q.name] ∧ q = ⟨q.name, q.scope, false⟩ ∨
      gs = [.word q.scope.word, .word q.name, .word "key"] ∧ q = ⟨q.name, q.scope, true⟩ := by
  constructor
  · intro h
    cases h <;> simp
  · intro h
    rcases h with ⟨rfl, hq⟩ | ⟨rfl, hq⟩ | ⟨rfl, hq⟩ | ⟨rfl, hq⟩
    · exact hq ▸ .bare q.name
    · exact hq ▸ .key q.name
    · exact hq ▸ .inScope q.scope q.name
    · exact hq ▸ .inScopeKey q.scope q.name

theorem except_bind_ok {x : Except Fault α} {f : α → Except Fault β} {b : β} :
    (x >>= f) = .ok b ↔ ∃ a, x = .ok a ∧ f a = .ok b := by
  cases x <;> simp [bind, Except.bind]

theorem not_free_key : ¬ Free "key" := by
  simp only [Free]
  decide

theorem pair_ok {a b : Token} {q : Parameter} :
    parameterOf [a, b] = .ok q ↔
      b.text = "key" ∧ q = ⟨a.text, .nil, true⟩ ∧ Free a.text ∨
        b.text ≠ "key" ∧ a.text = q.scope.word ∧ q = ⟨b.text, q.scope, false⟩ ∧ Free b.text := by
  simp only [parameterOf]
  by_cases hb : b.text = "key"
  · simp only [hb, if_true, except_bind_ok, nameOf_ok, pure, Except.pure, Except.ok.injEq]
    constructor
    · intro h
      obtain ⟨_, ⟨rfl, hfree⟩, rfl⟩ := h
      exact .inl ⟨trivial, rfl, hfree⟩
    · intro h
      rcases h with ⟨-, rfl, hfree⟩ | ⟨hne, -⟩
      · exact ⟨_, ⟨rfl, hfree⟩, rfl⟩
      · exact absurd rfl hne
  · simp only [hb, if_false, except_bind_ok, nameOf_ok, scopeOf_ok, pure, Except.pure,
      Except.ok.injEq]
    constructor
    · intro h
      obtain ⟨_, ⟨rfl, hfree⟩, s, hs, rfl⟩ := h
      exact .inr ⟨hb, hs, rfl, hfree⟩
    · intro h
      rcases h with ⟨hk, -⟩ | ⟨-, hs, hq, hfree⟩
      · exact hk.elim
      · exact ⟨_, ⟨rfl, hfree⟩, _, hs, hq.symm⟩

theorem triple_ok {a b c : Token} {q : Parameter} :
    parameterOf [a, b, c] = .ok q ↔
      c.text = "key" ∧ a.text = q.scope.word ∧ q = ⟨b.text, q.scope, true⟩ ∧ Free b.text := by
  simp only [parameterOf]
  by_cases hc : c.text = "key"
  · simp only [hc, if_true, except_bind_ok, nameOf_ok, scopeOf_ok, pure, Except.pure,
      Except.ok.injEq]
    constructor
    · intro h
      obtain ⟨_, ⟨rfl, hfree⟩, s, hs, rfl⟩ := h
      exact ⟨trivial, hs, rfl, hfree⟩
    · intro h
      obtain ⟨-, hs, hq, hfree⟩ := h
      exact ⟨_, ⟨rfl, hfree⟩, _, hs, hq.symm⟩
  · simp [hc]

theorem parameterOf_ok {group : List Token} (hg : AllWords group) {q : Parameter} :
    parameterOf group = .ok q ↔ Group (group.map Token.sign) q ∧ Free q.name := by
  rw [sign_of_allWords hg, group_iff]
  match group with
  | [] => simp [parameterOf, words]
  | [n] =>
    simp only [parameterOf, except_bind_ok, nameOf_ok, pure, Except.pure, Except.ok.injEq]
    grind [words]
  | [a, b] =>
    rw [pair_ok]
    grind [words, not_free_key]
  | [a, b, c] =>
    rw [triple_ok]
    grind [words]
  | a :: b :: c :: d :: r => simp [parameterOf, words]

/-- A fault found in a group of words: one of at most three words, or the whole group. -/
def BlamedOn (group : List Token) (e : Fault) : Prop :=
  (∃ t ∈ group, group.length ≤ 3 ∧ e = .reserved t.text t.line) ∨ ∃ d, e = .group (words group) d

def Blames (group : List Token) (x : Except Fault α) : Prop := ∀ e, x = .error e → BlamedOn group e

theorem blames_ok (group : List Token) (a : α) : Blames group (.ok a) := nofun

theorem blames_group (group : List Token) (d : GroupDefect) :
    Blames group (.error (.group (words group) d) : Except Fault α) := by
  rintro _ ⟨⟩
  exact .inr ⟨d, rfl⟩

theorem Blames.bind {group : List Token} {x : Except Fault α} {f : α → Except Fault β}
    (hx : Blames group x) (hf : ∀ a, Blames group (f a)) : Blames group (x >>= f) := by
  cases x with
  | ok a => exact hf a
  | error e =>
    rintro _ ⟨⟩
    exact hx e rfl

theorem blames_nameOf {group : List Token} {t : Token} (ht : t ∈ group)
    (hlen : group.length ≤ 3) : Blames group (nameOf t) := by
  intro e h
  rw [nameOf] at h
  split at h
  · cases h
    exact .inl ⟨t, ht, hlen, rfl⟩
  · cases h

theorem blames_scopeOf (t : Token) (group : List Token) : Blames group (scopeOf t group) := by
  rw [scopeOf]
  split
  · exact blames_ok group _
  · exact blames_group group _

theorem blames_parameterOf (group : List Token) : Blames group (parameterOf group) := by
  match group with
  | [] => exact blames_group [] _
  | [n] => exact (blames_nameOf (by simp) (by simp)).bind fun _ => blames_ok _ _
  | [a, b] =>
    rw [parameterOf]
    split
    · exact (blames_nameOf (by simp) (by simp)).bind fun _ => blames_ok _ _
    · exact (blames_nameOf (by simp) (by simp)).bind fun _ =>
        (blames_scopeOf a _).bind fun _ => blames_ok _ _
  | [a, b, c] =>
    rw [parameterOf]
    split
    · exact (blames_nameOf (by simp) (by simp)).bind fun _ =>
        (blames_scopeOf a _).bind fun _ => blames_ok _ _
    · exact blames_group _ _
  | a :: b :: c :: d :: rest => exact blames_group _ _

theorem blames_declare (done : List Parameter) (group : List Token) :
    Blames group (declare done group) := by
  refine (blames_parameterOf group).bind fun p => ?_
  split
  · exact blames_group group _
  · exact blames_ok group _

theorem declare_ok {done ps : List Parameter} {group : List Token} (hg : AllWords group)
    (hdone : FreeNames (done.map (·.name))) :
    declare done group = .ok ps ↔ ∃ q, ps = done ++ [q] ∧ Group (group.map Token.sign) q ∧
      FreeNames (ps.map (·.name)) := by
  simp only [declare, except_bind_ok, parameterOf_ok hg]
  constructor
  · intro h
    obtain ⟨q, ⟨hq, hfree⟩, h⟩ := h
    split at h
    · cases h
    · next hnew =>
      cases h
      refine ⟨q, rfl, hq, ?_⟩
      rw [List.map_append]
      exact freeNames_append.2 ⟨hdone, hfree, by simpa using hnew⟩
  · intro h
    obtain ⟨q, rfl, hq, hnames⟩ := h
    rw [List.map_append] at hnames
    obtain ⟨-, hfree, hnew⟩ := freeNames_append.1 hnames
    refine ⟨q, ⟨hq, hfree⟩, ?_⟩
    rw [if_neg (by simpa using hnew)]
    rfl

theorem FreeNames.of_map_append {ps qs : List Parameter}
    (h : FreeNames ((ps ++ qs).map (·.name))) : FreeNames (ps.map (·.name)) := by
  rw [List.map_append] at h
  exact h.of_append

theorem paramsAfter_words {closer : TokenKind} {done : List Parameter} {group ws : List Token}
    (hws : AllWords ws) (ts : List Token) :
    paramsAfter closer done group (ws ++ ts) = paramsAfter closer done (group ++ ws) ts := by
  induction ws generalizing group with
  | nil => simp
  | cons t ws ih =>
    have ht : t.kind = .word := hws t List.mem_cons_self
    rw [List.cons_append, paramsAfter, if_pos ht, ih fun u hu => hws u (List.mem_cons_of_mem _ hu)]
    simp

theorem paramsAfter_sound {closer : TokenKind} (hw : closer ≠ .word) {done ps : List Parameter}
    {group ts us : List Token} (hg : AllWords group) (hdone : FreeNames (done.map (·.name)))
    (h : paramsAfter closer done group ts = .ok ps us) :
    ∃ body t qs, ts = body ++ t :: us ∧ t.sign = .mark closer ∧ ps = done ++ qs ∧
      Commas Group ((group ++ body).map Token.sign) qs ∧ FreeNames (ps.map (·.name)) := by
  induction ts generalizing done group with
  | nil => cases h
  | cons t ts ih =>
    simp only [paramsAfter] at h
    split at h
    · next hk =>
      -- a word joins the group, which only the token behind it judges
      obtain ⟨body, c, qs, rfl, hc, rfl, hqs, hnames⟩ := ih (hg.concat hk) hdone h
      exact ⟨t :: body, c, qs, rfl, hc, rfl, by simpa using hqs, hnames⟩
    · split at h
      · next hcomma =>
        split at h
        · next done' hd =>
          obtain ⟨q, rfl, hq, hnames'⟩ := (declare_ok hg hdone).1 hd
          obtain ⟨body, c, qs, rfl, hc, rfl, hqs, hnames⟩ := ih (by simp [AllWords]) hnames' h
          refine ⟨t :: body, c, q :: qs, rfl, hc, by simp, ?_, hnames⟩
          have := Commas.more hq hqs
          simpa [(Token.sign_eq_mark (by decide)).2 hcomma] using this
        · cases h
      · split at h
        · next hcloser =>
          split at h
          · next ps' hd =>
            cases h
            obtain ⟨q, rfl, hq, hnames⟩ := (declare_ok hg hdone).1 hd
            exact ⟨[], t, [q], rfl, (Token.sign_eq_mark hw).2 hcloser, rfl,
              .one (by simpa using hq), hnames⟩
          · cases h
        · cases h

theorem paramsAfter_complete {closer : TokenKind} (hw : closer ≠ .word) (hcomma : closer ≠ .comma)
    {hs : List Sign} {qs : List Parameter} (hc : Commas Group hs qs) (done : List Parameter)
    (hnames : FreeNames ((done ++ qs).map (·.name))) {body us : List Token} {t : Token}
    (hbody : body.map Token.sign = hs) (ht : t.sign = .mark closer) :
    paramsAfter closer done [] (body ++ t :: us) = .ok (done ++ qs) us := by
  induction hc generalizing done body with
  | @one gs q hq =>
    subst hbody
    have hg := allWords_of_group hq
    have hk := (Token.sign_eq_mark hw).1 ht
    have hd : declare done body = .ok (done ++ [q]) :=
      (declare_ok hg hnames.of_map_append).2 ⟨q, rfl, hq, hnames⟩
    rw [paramsAfter_words hg, List.nil_append, paramsAfter, if_neg (hk ▸ hw),
      if_neg (hk ▸ hcomma), if_pos hk, hd]
  | @more gs hs q qs hq _ ih =>
    obtain ⟨group, rest, rfl, rfl, hrest⟩ := List.map_eq_append_iff.1 hbody
    obtain ⟨c, body, rfl, hcs, rfl⟩ := List.map_eq_cons_iff.1 hrest
    have hk := (Token.sign_eq_mark (by decide)).1 hcs
    have hg := allWords_of_group hq
    have hnames' : FreeNames (((done ++ [q]) ++ qs).map (·.name)) := by simpa using hnames
    have hnames₁ : FreeNames ((done ++ [q]).map (·.name)) := hnames'.of_map_append
    have hd : declare done group = .ok (done ++ [q]) :=
      (declare_ok hg hnames₁.of_map_append).2 ⟨q, rfl, hq, hnames₁⟩
    have hih := ih (done ++ [q]) hnames' rfl
    rw [List.append_assoc, paramsAfter_words hg, List.nil_append, List.cons_append, paramsAfter,
      if_neg (by rw [hk]; decide), if_pos hk, hd]
    simpa using hih

theorem reads_paramsUntil (closer : TokenKind) (hw : closer ≠ .word) (hcomma : closer ≠ .comma) :
    Reads (paramsUntil closer) fun gs ps => ∃ hs,
      gs = hs ++ [.mark closer] ∧ Commas Group hs ps ∧ FreeNames (ps.map (·.name)) := by
  intro ts ps us
  constructor
  · intro h
    have h₀ : FreeNames (([] : List Parameter).map (·.name)) := freeNames_nil
    obtain ⟨body, t, qs, rfl, ht, rfl, hc, hnames⟩ :=
      paramsAfter_sound hw (by simp [AllWords]) h₀ h
    exact ⟨body ++ [t], by simp, body.map Token.sign, by simp [ht], hc, hnames⟩
  · intro h
    obtain ⟨pre, rfl, hs, hpre, hc, hnames⟩ := h
    obtain ⟨body, rest, rfl, hbody, hrest⟩ := List.map_eq_append_iff.1 hpre
    obtain ⟨t, rfl, ht⟩ := List.map_eq_singleton_iff.1 hrest
    rw [List.append_assoc]
    exact paramsAfter_complete hw hcomma hc [] hnames hbody ht

theorem reads_parameters (n : String) :
    Reads (parameters n) fun gs ps => ∃ hs,
      gs = [.word "parameter"] ++ hs ++ [.mark .newline] ∧ Commas Group hs ps ∧
        FreeNames (ps.map (·.name)) ∧ ∃ q ∈ ps, q.isKey = true := by
  have hkey : ∀ ps : List Parameter, Reads
      (if ps.any (·.isKey) then pure ps else throw (.defect (.noKeyParameters n)))
      fun gs qs => gs = [] ∧ qs = ps ∧ ∃ q ∈ ps, q.isKey = true := by
    intro ps
    by_cases h : ps.any (·.isKey) = true
    · rw [if_pos h]
      refine (reads_pure ps).congr fun gs qs => ?_
      simp [List.any_eq_true.1 h]
    · rw [if_neg h]
      intro ts qs us
      have hno : ¬ ∃ q ∈ ps, q.isKey = true := by simpa using h
      simp only [hno, and_false, exists_false, iff_false]
      intro he
      cases he
  refine ((reads_keyword "parameter").bind fun _ =>
    (reads_paramsUntil .newline (by decide) (by decide)).bind hkey).congr fun gs ps => ?_
  constructor
  · intro h
    obtain ⟨_, _, _, rfl, rfl, _, _, _, rfl, ⟨hs, rfl, hc, hnames⟩, rfl, rfl, hk⟩ := h
    exact ⟨hs, by simp, hc, hnames, hk⟩
  · intro h
    obtain ⟨hs, rfl, hc, hnames, hk⟩ := h
    refine ⟨(), _, hs ++ [.mark .newline], List.append_assoc .., rfl, ps, _, [], by simp,
      ⟨hs, rfl, hc, hnames⟩, rfl, rfl, hk⟩

end InfoProtocol.Grammar
