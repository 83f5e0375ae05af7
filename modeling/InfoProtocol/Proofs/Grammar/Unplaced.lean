import InfoProtocol.Proofs.Grammar.Declaration
import InfoProtocol.Source

/-!
# Reading without places

Where a token stands shows in the line numbers of faults and nowhere else. So a reading of tokens
that have been taken out of their places ends as before, in the same result or in the same fault
but for its line, with the same tokens ahead. Each reading of the grammar has this property: single
tokens, then lists by induction along the tokens, then the sections one after another.
-/

namespace InfoProtocol

def Token.unplaced (t : Token) : Token := ⟨t.kind, t.text, 0, 0⟩

namespace Grammar

def Fault.withoutLine : Fault → Fault
  | unexpected e found _ => unexpected e found 0
  | reserved w _ => reserved w 0
  | repeatedRole r _ => repeatedRole r 0
  | inputEnds e => inputEnds e
  | group ws d => group ws d
  | defect d => defect d

def Failure.withoutLine (f : Failure) : Failure := ⟨f.cause.withoutLine, f.consumed⟩

variable {α β : Type}

def unplace : EStateM.Result Fault (List Token) α → EStateM.Result Fault (List Token) α
  | .ok a us => .ok a (us.map Token.unplaced)
  | .error e us => .error e.withoutLine (us.map Token.unplaced)

/-- From `ts`, the reading `s` does without places what `r` does with them. -/
def Follows (s r : Reading α) (ts : List Token) : Prop :=
  s (ts.map Token.unplaced) = unplace (r ts)

def Blind (r : Reading α) : Prop := ∀ ts, Follows r r ts

theorem Follows.bind {r s : Reading α} {f g : α → Reading β} {ts : List Token}
    (hr : Follows s r ts) (hf : ∀ a us, Follows (g a) (f a) us) : Follows (s >>= g) (r >>= f) ts := by
  have hr' : s (ts.map Token.unplaced) = unplace (r ts) := hr
  change EStateM.bind s g _ = unplace (EStateM.bind r f ts)
  simp only [EStateM.bind, hr']
  cases r ts with
  | ok a us => exact hf a us
  | error e us => rfl

theorem Blind.bind {r : Reading α} {f : α → Reading β} (hr : Blind r) (hf : ∀ a, Blind (f a)) :
    Blind (r >>= f) :=
  fun ts => (hr ts).bind hf

theorem Blind.ok {r : Reading α} (hr : Blind r) {ts us : List Token} {a : α}
    (h : r ts = .ok a us) : r (ts.map Token.unplaced) = .ok a (us.map Token.unplaced) := by
  have hts : r (ts.map Token.unplaced) = unplace (r ts) := hr ts
  rw [hts, h]
  rfl

theorem Blind.error {r : Reading α} (hr : Blind r) {ts us : List Token} {e : Fault}
    (h : r ts = .error e us) :
    r (ts.map Token.unplaced) = .error e.withoutLine (us.map Token.unplaced) := by
  have hts : r (ts.map Token.unplaced) = unplace (r ts) := hr ts
  rw [hts, h]
  rfl

theorem blind_pure (a : α) : Blind (pure a) := fun _ => rfl

theorem blind_peek {e : Expected} {k : TokenKind} {f : Token → Reading β}
    (hf : ∀ t ts, Follows (f t.unplaced) (f t) ts) : Blind (peekAs e k >>= f) := by
  intro ts
  change EStateM.bind (peekAs e k) f _ = unplace (EStateM.bind (peekAs e k) f ts)
  cases ts with
  | nil => rfl
  | cons t ts =>
    have hk : t.unplaced.kind = t.kind := rfl
    simp only [EStateM.bind, List.map_cons, peekAs, hk]
    by_cases h : t.kind = k
    · simp only [if_pos h]
      exact hf t (t :: ts)
    · simp only [if_neg h]
      rfl

theorem blind_advance : Blind advance := by
  intro ts
  cases ts <;> rfl

theorem blind_take (k : TokenKind) : Blind (take k) := blind_peek fun _ => blind_advance

theorem follows_ofExcept {u v : Except Fault α} (h : v = u.mapError Fault.withoutLine)
    (ts : List Token) : Follows (ofExcept v) (ofExcept u) ts := by
  subst h
  cases u <;> rfl

theorem nameOf_unplaced (t : Token) : nameOf t.unplaced = (nameOf t).mapError Fault.withoutLine := by
  change (if isReserved t.text then _ else _) = _
  rw [nameOf]
  split <;> rfl

theorem blind_name : Blind name :=
  blind_peek fun t ts => (follows_ofExcept (nameOf_unplaced t) ts).bind fun n =>
    blind_advance.bind fun _ => blind_pure n

theorem blind_keyword (w : String) : Blind (keyword w) := by
  refine blind_peek fun t ts => ?_
  change Follows (if t.text = w then _ else _) _ ts
  split
  · exact blind_advance ts
  · rfl

theorem blind_declaredRole (roles : List Role) : Blind (declaredRole roles) := by
  refine blind_peek fun t ts => ?_
  change Follows (if roles.contains t.text then _ else _) _ ts
  split
  · exact (blind_advance.bind fun _ => blind_pure t.text) ts
  · rfl

theorem blind_optional (k : TokenKind) : Blind (optional k) := by
  intro ts
  cases ts with
  | nil => rfl
  | cons t ts =>
    change (if t.kind = k then _ else _) = unplace (if t.kind = k then _ else _)
    split <;> rfl

theorem blind_skipNewlines : Blind skipNewlines := by
  intro ts
  change EStateM.Result.ok _ ((ts.map Token.unplaced).dropWhile _) = .ok _ _
  rw [List.dropWhile_map]
  rfl

theorem blind_finish : Blind finish := by
  refine blind_skipNewlines.bind fun _ ts => ?_
  cases ts <;> rfl

theorem rolesAfter_unplaced {done : List Role} {t u : Token} {ts : List Token}
    (hk : ¬ t.kind ≠ .word) (hr : ¬ isReserved t.text = true) (hn : ¬ done.contains t.text = true) :
    rolesAfter done ((t :: u :: ts).map Token.unplaced) =
      if u.kind = .comma then rolesAfter (done ++ [t.text]) (ts.map Token.unplaced)
      else if u.kind = .newline then .ok (done ++ [t.text]) (ts.map Token.unplaced)
      else .error (.unexpected .roleSeparator u.text 0) ((u :: ts).map Token.unplaced) := by
  have hword : t.unplaced.kind = .word := not_not.1 hk
  have hfree : Free t.unplaced.text := Bool.eq_false_iff.2 hr
  have hnew : t.unplaced.text ∉ done := by simpa [Token.unplaced] using hn
  exact rolesAfter_cons hword hfree hnew

theorem blind_rolesAfter (done : List Role) : Blind (rolesAfter done) := by
  intro ts
  rw [Follows]
  fun_induction rolesAfter done ts with
  | case1 => rfl
  | case2 done t ts hk =>
    rw [List.map_cons, rolesAfter.eq_def]
    exact if_pos hk
  | case3 done t ts hk hr =>
    rw [List.map_cons, rolesAfter.eq_def]
    exact (if_neg hk).trans (if_pos hr)
  | case4 done t ts hk hr hn =>
    rw [List.map_cons, rolesAfter.eq_def]
    exact (if_neg hk).trans ((if_neg hr).trans (if_pos hn))
  | case5 done t hk hr hn =>
    exact (if_neg hk).trans ((if_neg hr).trans (if_neg hn))
  | case6 done t hk hr hn u ts hu ih => rw [rolesAfter_unplaced hk hr hn, if_pos hu, ih]
  | case7 done t hk hr hn u ts hu hu' =>
    rw [rolesAfter_unplaced hk hr hn, if_neg hu, if_pos hu']
    rfl
  | case8 done t hk hr hn u ts hu hu' =>
    rw [rolesAfter_unplaced hk hr hn, if_neg hu, if_neg hu']
    rfl

theorem words_unplaced (group : List Token) : words (group.map Token.unplaced) = words group := by
  simp [words, Token.unplaced]

theorem scopeOf_unplaced (t : Token) (group : List Token) :
    scopeOf t.unplaced (group.map Token.unplaced) =
      (scopeOf t group).mapError Fault.withoutLine := by
  simp only [scopeOf, words_unplaced, Token.unplaced]
  cases Scope.ofWord? t.text <;> rfl

theorem bind_withoutLine {u v : Except Fault α} {f g : α → Except Fault β}
    (huv : v = u.mapError Fault.withoutLine)
    (hfg : ∀ a, g a = (f a).mapError Fault.withoutLine) :
    (v >>= g) = (u >>= f).mapError Fault.withoutLine := by
  subst huv
  cases u with
  | ok a => exact hfg a
  | error e => rfl

theorem parameterOf_unplaced (group : List Token) :
    parameterOf (group.map Token.unplaced) = (parameterOf group).mapError Fault.withoutLine := by
  match group with
  | [] => rfl
  | [n] => exact bind_withoutLine (nameOf_unplaced n) fun _ => rfl
  | [a, b] =>
    change (if b.text = "key" then _ else _) =
      Except.mapError Fault.withoutLine (if b.text = "key" then _ else _)
    split
    · exact bind_withoutLine (nameOf_unplaced a) fun _ => rfl
    · exact bind_withoutLine (nameOf_unplaced b) fun _ =>
        bind_withoutLine (scopeOf_unplaced a [a, b]) fun _ => rfl
  | [a, b, c] =>
    change (if c.text = "key" then _ else _) =
      Except.mapError Fault.withoutLine (if c.text = "key" then _ else _)
    split
    · exact bind_withoutLine (nameOf_unplaced b) fun _ =>
        bind_withoutLine (scopeOf_unplaced a [a, b, c]) fun _ => rfl
    · rfl
  | a :: b :: c :: d :: rest =>
    change Except.error (Fault.group (words ((a :: b :: c :: d :: rest).map _)) _) = _
    rw [words_unplaced]
    rfl

theorem declare_unplaced (done : List Parameter) (group : List Token) :
    declare done (group.map Token.unplaced) =
      (declare done group).mapError Fault.withoutLine := by
  simp only [declare, parameterOf_unplaced, words_unplaced]
  cases parameterOf group with
  | error e => rfl
  | ok p =>
    simp only [bind, Except.bind, Except.mapError]
    split <;> rfl

theorem paramsAfter_unplaced (closer : TokenKind) (done : List Parameter) (group ts : List Token) :
    Follows (paramsAfter closer done (group.map Token.unplaced)) (paramsAfter closer done group)
      ts := by
  induction ts generalizing done group with
  | nil => rfl
  | cons t ts ih =>
    have hword := ih done (group ++ [t])
    rw [Follows] at hword ⊢
    rw [List.map_append] at hword
    simp only [List.map_cons, paramsAfter, declare_unplaced]
    change (if t.kind = .word then _ else if t.kind = .comma then _ else if t.kind = closer then _
      else _) = _
    split
    · exact hword
    · cases declare done group with
      | ok ps =>
        split
        · exact ih ps []
        · split <;> rfl
      | error e =>
        split
        · rfl
        · split <;> rfl

theorem blind_paramsUntil (closer : TokenKind) : Blind (paramsUntil closer) :=
  paramsAfter_unplaced closer [] []

theorem blind_roles : Blind roles :=
  (blind_keyword "role").bind fun _ => blind_rolesAfter []

theorem blind_parameters (name : String) : Blind (parameters name) := by
  refine (blind_keyword "parameter").bind fun _ => (blind_paramsUntil .newline).bind fun ps => ?_
  split
  · exact blind_pure ps
  · exact fun _ => rfl

theorem blind_action (roles : List Role) : Blind (action roles) :=
  (blind_declaredRole roles).bind fun _ =>
    (blind_take _).bind fun _ =>
      (blind_declaredRole roles).bind fun _ =>
        (blind_take _).bind fun _ =>
          blind_name.bind fun _ =>
            (blind_take _).bind fun _ =>
              (blind_paramsUntil _).bind fun _ =>
                (blind_take _).bind fun _ => blind_pure _

theorem blind_actionsUntilClose (roles : List Role) : Blind (actionsUntilClose roles) := by
  intro ts
  change actionsUntilClose roles _ = unplace (actionsUntilClose roles ts)
  -- Along the actions: what one action does without places is `blind_action`.
  fun_induction actionsUntilClose roles ts with
  | case1 =>
    rw [List.map_nil, actionsUntilClose]
    rfl
  | case2 t ts ht => exact actionsUntilClose_close ht
  | case3 t ts ht e us he =>
    have ht' : t.unplaced.kind ≠ .closeBrace := ht
    exact actionsUntilClose_error ht' ((blind_action roles).error he)
  | case4 t ts ht a us ha _ e vs he ih =>
    have ht' : t.unplaced.kind ≠ .closeBrace := ht
    rw [he] at ih
    rw [List.map_cons, actionsUntilClose_action ht' ((blind_action roles).ok ha), ih]
    rfl
  | case5 t ts ht a us ha _ as vs has ih =>
    have ht' : t.unplaced.kind ≠ .closeBrace := ht
    rw [has] at ih
    rw [List.map_cons, actionsUntilClose_action ht' ((blind_action roles).ok ha), ih]
    rfl

theorem blind_declaration : Blind declaration :=
  blind_name.bind fun n =>
    (blind_take _).bind fun _ =>
      (blind_optional _).bind fun _ =>
        blind_roles.bind fun rs =>
          (blind_parameters n).bind fun _ =>
            (blind_actionsUntilClose rs).bind fun _ => blind_pure _

theorem blind_protocol : Blind protocol :=
  blind_skipNewlines.bind fun _ =>
    blind_declaration.bind fun p => blind_finish.bind fun _ => blind_pure p

end Grammar

namespace Protocol

open Grammar

theorem ofTokens_congr {ts us : List Token}
    (h : (Token.withoutLayout ts).map Token.unplaced =
      (Token.withoutLayout us).map Token.unplaced) :
    (ofTokens ts).mapError Failure.withoutLine = (ofTokens us).mapError Failure.withoutLine := by
  simp only [ofTokens]
  generalize Token.withoutLayout ts = as at h ⊢
  generalize Token.withoutLayout us = bs at h ⊢
  have hlen : as.length = bs.length := by
    simpa using congrArg List.length h
  have hread : unplace (protocol as) = unplace (protocol bs) := by
    have has : protocol (as.map Token.unplaced) = unplace (protocol as) := blind_protocol as
    have hbs : protocol (bs.map Token.unplaced) = unplace (protocol bs) := blind_protocol bs
    rw [← has, ← hbs, h]
  cases hp : protocol as with
  | ok p vs =>
    cases hq : protocol bs with
    | ok q ws =>
      rw [hp, hq] at hread
      simp only [unplace, EStateM.Result.ok.injEq] at hread
      rw [hread.1]
    | error e ws =>
      rw [hp, hq] at hread
      cases hread
  | error e vs =>
    cases hq : protocol bs with
    | ok q ws =>
      rw [hp, hq] at hread
      cases hread
    | error e' ws =>
      rw [hp, hq] at hread
      simp only [unplace, EStateM.Result.error.injEq] at hread
      have hws : vs.length = ws.length := by
        simpa using congrArg List.length hread.2
      have hwords : words (as.take (as.length - vs.length)) =
          words (bs.take (bs.length - ws.length)) := by
        rw [← words_unplaced, List.map_take, h, hlen, hws, ← List.map_take, words_unplaced]
      simp only [Except.mapError, Failure.withoutLine, hread.1, hwords]

end Protocol

end InfoProtocol
