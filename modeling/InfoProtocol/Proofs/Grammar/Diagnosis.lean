import InfoProtocol.Proofs.Protocol.Compiled

/-!
# What a fault points at

Reading stops at the first token that cannot stand where it does. The fault names this token, or the
group of words in front of it, or a word of that group; at the end of the input there is no such
token. What stands behind it has not been looked at and may be exchanged. This passes from the single
tokens through the lists to the sections, since a reading that succeeds looks ahead by one token at
most, and only to pass over newlines.
-/

namespace InfoProtocol

namespace Grammar

variable {α β : Type}

/-- What a fault says about the tokens that were consumed before it and those that are ahead. A
missing key is found behind a heading, whose last token is the newline that ends the parameters. -/
def Fault.PointsAt (done ahead : List Token) : Fault → Prop
  | .inputEnds _ => ahead = []
  | .unexpected _ found line => ∃ t ∈ ahead.head?, t.text = found ∧ t.line = line
  | .repeatedRole r line => ∃ t ∈ ahead.head?, t.text = r ∧ t.line = line
  | .reserved w line => ∃ t, (t ∈ ahead.head? ∨ t ∈ done.drop (done.length - 3)) ∧
      t.text = w ∧ t.line = line
  | .group ws _ => (∃ group, group <:+ done ∧ AllWords group ∧ words group = ws) ∧
      ∃ t ∈ ahead.head?, t.kind = .comma ∨ t.kind = .closeBracket ∨ t.kind = .newline
  | .defect d => ∃ p bs hs, d = .noKeyParameters p.name ∧ ¬ p.HasKey ∧
      done.map Token.sign = bs ++ hs ∧ Break bs ∧ Heading hs p

/-- From `ts` the reading fails in front of `us`, where the fault points at its place behind `before`
and what was consumed, and it fails so whatever follows the next token. Of a missing key a reading of
parameters does not know what it is behind. -/
def Caught (before : List Token) (r : Reading α) (ts us : List Token) (e : Fault) : Prop :=
  ∃ pre, ts = pre ++ us ∧ ((∀ d, e ≠ .defect d) → e.PointsAt (before ++ pre) us) ∧
    ((∀ x, e ≠ .inputEnds x) → ∀ vs, us.take 1 <+: vs → r (pre ++ vs) = .error e vs)

def FailsFast (r : Reading α) : Prop := ∀ ts us e, r ts = .error e us → Caught [] r ts us e

variable {before pre ts us vs : List Token} {t : Token} {e : Fault} {r : Reading α}

theorem exists_cons_of_append (h : pre ++ us = t :: ts) (hvs : us.take 1 <+: vs) :
    ∃ ws, pre ++ vs = t :: ws := by
  cases pre with
  | nil =>
    obtain rfl : us = t :: ts := h
    obtain ⟨ws, rfl⟩ := hvs
    exact ⟨ws, rfl⟩
  | cons u pre =>
    obtain ⟨rfl, -⟩ := List.cons.inj h
    exact ⟨_, rfl⟩

theorem Fault.PointsAt.behind (h : e.PointsAt pre us) (he : ∀ d, e ≠ .defect d)
    (before : List Token) : e.PointsAt (before ++ pre) us := by
  cases e with
  | unexpected | inputEnds | repeatedRole => exact h
  | reserved w line =>
    obtain ⟨t, ht, hw⟩ := h
    refine ⟨t, ht.imp_right fun ht => ?_, hw⟩
    rw [List.length_append, List.drop_append, List.mem_append]
    right
    have hle : before.length + pre.length - 3 - before.length ≤ pre.length - 3 := by omega
    exact (List.drop_subset_drop_left pre hle) ht
  | group ws d =>
    obtain ⟨⟨group, hg, hwords⟩, ht⟩ := h
    exact ⟨⟨group, hg.trans (List.suffix_append before pre), hwords⟩, ht⟩
  | defect d => exact absurd rfl (he d)

theorem caught_at_end (before : List Token) (r : Reading α) (pre : List Token) (x : Expected) :
    Caught before r pre [] (.inputEnds x) :=
  ⟨pre, (List.append_nil pre).symm, fun _ => rfl, fun he => absurd rfl (he x)⟩

theorem caught_here (hp : e.PointsAt before (t :: ts))
    (hr : ∀ vs, r (t :: vs) = .error e (t :: vs)) : Caught before r (t :: ts) (t :: ts) e := by
  refine ⟨[], rfl, fun _ => by rwa [List.append_nil], fun _ vs hvs => ?_⟩
  obtain ⟨ws, rfl⟩ := hvs
  exact hr ws

theorem Caught.behind (h : Caught [] r ts us e) (before : List Token) :
    Caught before r ts us e := by
  obtain ⟨pre, hts, hpoints, hstays⟩ := h
  exact ⟨pre, hts, fun he => (hpoints he).behind he before, hstays⟩

theorem Caught.step {s : Reading β} (pre : List Token) (h : Caught (before ++ pre) s ts us e)
    (hr : ∀ ts us, s ts = .error e us → r (pre ++ ts) = .error e us) :
    Caught before r (pre ++ ts) us e := by
  obtain ⟨mid, rfl, hpoints, hstays⟩ := h
  refine ⟨pre ++ mid, (List.append_assoc ..).symm, fun he => ?_, fun he vs hvs => ?_⟩
  · rw [← List.append_assoc]
    exact hpoints he
  · rw [List.append_assoc]
    exact hr _ _ (hstays he vs hvs)

theorem failsFast_pure (a : α) : FailsFast (pure a) := nofun

theorem Caught.bind (h : Caught before r ts us e) (f : α → Reading β) :
    Caught before (r >>= f) ts us e := by
  obtain ⟨pre, hts, hpoints, hstays⟩ := h
  exact ⟨pre, hts, hpoints, fun he vs hvs => bind_error.2 (.inl (hstays he vs hvs))⟩

theorem FailsFast.bind {f : α → Reading β} {R : Phrase α} (hr : Reads r R) (hs : FailsFast r)
    (hf : ∀ a, FailsFast (f a)) : FailsFast (r >>= f) := by
  intro ts us e h
  rcases bind_error.1 h with h | ⟨a, vs, ha, hfa⟩
  · exact (hs _ _ _ h).bind f
  · obtain ⟨pre, rfl, hR⟩ := (hr _ _ _).1 ha
    refine ((hf a _ _ _ hfa).behind _).step pre fun ws us h => ?_
    exact bind_error.2 (.inr ⟨a, ws, (hr _ _ _).2 ⟨pre, rfl, hR⟩, h⟩)

theorem FailsFast.bind_pure (hr : FailsFast r) (g : α → β) :
    FailsFast (r >>= fun a => pure (g a)) := by
  intro ts us e h
  rcases bind_error.1 h with h | ⟨a, vs, -, h⟩
  · exact (hr _ _ _ h).bind _
  · cases h

def Skips (q : Reading Unit) : Prop :=
  ∀ ts, ∃ pre us, ts = pre ++ us ∧ ∀ vs, vs.head? = us.head? → q (pre ++ vs) = .ok () vs

theorem Skips.bind {q : Reading Unit} (hq : Skips q) (hr : FailsFast r)
    (hnil : ∀ e us, r [] = .error e us → ∃ x, e = .inputEnds x) :
    FailsFast (q >>= fun _ => r) := by
  intro ts us e h
  obtain ⟨p₁, ms, rfl, hskip⟩ := hq ts
  have hms : r ms = .error e us := by
    rcases bind_error.1 h with h | ⟨_, ns, hns, h⟩
    · rw [hskip ms rfl] at h
      cases h
    · rw [hskip ms rfl] at hns
      cases hns
      exact h
  obtain ⟨p₂, rfl, hpoints, hstays⟩ := hr _ _ _ hms
  refine ⟨p₁ ++ p₂, by simp, fun he => (hpoints he).behind he p₁, fun he vs hvs => ?_⟩
  have hhead : (p₂ ++ vs).head? = (p₂ ++ us).head? := by
    cases hns : p₂ ++ us with
    | nil =>
      -- at the end of the input only its end could be found fault with
      rw [hns] at hms
      obtain ⟨x, rfl⟩ := hnil _ _ hms
      exact absurd rfl (he x)
    | cons t ns =>
      obtain ⟨ws, hws⟩ := exists_cons_of_append hns hvs
      rw [hws, List.head?_cons, List.head?_cons]
  rw [List.append_assoc]
  exact bind_error.2 (.inr ⟨(), p₂ ++ vs, hskip _ hhead, hstays he vs hvs⟩)

theorem skips_optional (k : TokenKind) : Skips (optional k) := by
  intro ts
  cases ts with
  | nil =>
    refine ⟨[], [], rfl, fun vs hvs => ?_⟩
    obtain rfl : vs = [] := List.head?_eq_none_iff.1 hvs
    rfl
  | cons t ts =>
    by_cases ht : t.kind = k
    · exact ⟨[t], ts, rfl, fun vs _ => if_pos ht⟩
    · refine ⟨[], t :: ts, rfl, fun vs hvs => ?_⟩
      obtain ⟨ws, rfl⟩ := List.head?_eq_some_iff.1 hvs
      exact if_neg ht

theorem skips_skipNewlines : Skips skipNewlines := by
  intro ts
  refine ⟨_, _, (List.takeWhile_append_dropWhile (p := fun t : Token => t.kind = .newline)).symm,
    fun vs hvs => ?_⟩
  have hstop := List.head?_dropWhile_not (fun t : Token => decide (t.kind = .newline)) ts
  rw [← hvs] at hstop
  have hall : ∀ t ∈ ts.takeWhile fun t => t.kind = .newline, decide (t.kind = .newline) = true :=
    fun _ => List.mem_takeWhile_imp (p := fun t : Token => decide (t.kind = .newline))
  rw [skipNewlines, List.dropWhile_append_of_pos hall]
  cases vs with
  | nil => rfl
  | cons t vs => rw [List.dropWhile_cons_of_neg (by simpa using hstop)]

def Judges (f : Token → Reading β) : Prop :=
  ∀ t ts us e, f t (t :: ts) = .error e us → us = t :: ts ∧
    ((∃ x, e = .unexpected x t.text t.line) ∨ e = .reserved t.text t.line) ∧
    ∀ vs, f t (t :: vs) = .error e (t :: vs)

theorem peek_cons (x : Expected) (k : TokenKind) (f : Token → Reading β) (t : Token)
    (ts : List Token) : (peekAs x k >>= f) (t :: ts) =
      if t.kind = k then f t (t :: ts) else .error (.unexpected x t.text t.line) (t :: ts) := by
  change EStateM.bind (peekAs x k) f (t :: ts) = _
  by_cases ht : t.kind = k
  · simp only [EStateM.bind, peekAs, if_pos ht]
  · simp only [EStateM.bind, peekAs, if_neg ht]

theorem Judges.failsFast {f : Token → Reading β} (hf : Judges f) (x : Expected) (k : TokenKind) :
    FailsFast (peekAs x k >>= f) := by
  intro ts us e h
  cases ts with
  | nil =>
    cases h
    exact caught_at_end [] _ [] x
  | cons t ts =>
    rw [peek_cons] at h
    split at h
    · next ht =>
      obtain ⟨rfl, he, hstays⟩ := hf _ _ _ _ h
      refine caught_here ?_ fun vs => (peek_cons ..).trans ((if_pos ht).trans (hstays vs))
      rcases he with ⟨y, rfl⟩ | rfl
      · exact ⟨t, rfl, rfl, rfl⟩
      · exact ⟨t, .inl rfl, rfl, rfl⟩
    · next ht =>
      cases h
      exact caught_here ⟨t, rfl, rfl, rfl⟩ fun vs => (peek_cons ..).trans (if_neg ht)

theorem failsFast_take (k : TokenKind) : FailsFast (take k) := by
  refine Judges.failsFast (f := fun _ => advance) (fun t ts us e h => ?_) (.kind k) k
  cases h

theorem failsFast_name : FailsFast name := by
  refine Judges.failsFast (fun t ts us e h => ?_) (.kind .word) .word
  cases hn : nameOf t with
  | ok n =>
    rw [hn] at h
    cases h
  | error f =>
    rw [hn] at h
    cases h
    refine ⟨rfl, .inr ?_, fun _ => rfl⟩
    rw [nameOf] at hn
    split at hn
    · cases hn
      rfl
    · cases hn

theorem failsFast_keyword (w : String) : FailsFast (keyword w) := by
  refine Judges.failsFast (fun t ts us e h => ?_) (.kind .word) .word
  split at h
  · cases h
  · next ht =>
    cases h
    refine ⟨rfl, .inl ⟨_, rfl⟩, fun vs => ?_⟩
    rw [if_neg ht]
    rfl

theorem failsFast_declaredRole (roles : List Role) : FailsFast (declaredRole roles) := by
  refine Judges.failsFast (fun t ts us e h => ?_) (.kind .word) .word
  split at h
  · cases h
  · next ht =>
    cases h
    refine ⟨rfl, .inl ⟨_, rfl⟩, fun vs => ?_⟩
    rw [if_neg ht]
    rfl

theorem failsFast_finish : FailsFast finish := by
  refine skips_skipNewlines.bind (fun ts us e h => ?_) nofun
  cases ts with
  | nil => cases h
  | cons t ts =>
    cases h
    exact caught_here ⟨t, rfl, rfl, rfl⟩ fun _ => rfl

theorem failsFast_rolesAfter (done : List Role) : FailsFast (rolesAfter done) := by
  intro ts us e h
  fun_induction rolesAfter done ts with
  | case1 =>
    cases h
    exact caught_at_end ..
  | case2 done t ts hk =>
    cases h
    refine caught_here ⟨t, rfl, rfl, rfl⟩ fun vs => ?_
    rw [rolesAfter.eq_def]
    exact if_pos hk
  | case3 done t ts hk hr =>
    cases h
    refine caught_here ⟨t, .inl rfl, rfl, rfl⟩ fun vs => ?_
    rw [rolesAfter.eq_def]
    exact (if_neg hk).trans (if_pos hr)
  | case4 done t ts hk hr hn =>
    cases h
    refine caught_here ⟨t, rfl, rfl, rfl⟩ fun vs => ?_
    rw [rolesAfter.eq_def]
    exact (if_neg hk).trans ((if_neg hr).trans (if_pos hn))
  | case5 =>
    cases h
    exact caught_at_end ..
  | case6 done t hk hr hn u ts hu ih =>
    refine ((ih h).behind _).step [t, u] fun vs ws hvs => ?_
    rw [List.cons_append, List.cons_append, rolesAfter_cons (not_not.1 hk)
      (Bool.eq_false_iff.2 hr) (by simpa using hn), if_pos hu]
    exact hvs
  | case7 => cases h
  | case8 done t hk hr hn u ts hu hu' =>
    cases h
    have hsep : ∀ vs, rolesAfter done (t :: u :: vs) =
        .error (.unexpected .roleSeparator u.text u.line) (u :: vs) := by
      intro vs
      rw [rolesAfter_cons (not_not.1 hk) (Bool.eq_false_iff.2 hr) (by simpa using hn), if_neg hu,
        if_neg hu']
    refine ⟨[t], rfl, fun _ => ⟨u, rfl, rfl, rfl⟩, fun _ vs hvs => ?_⟩
    obtain ⟨ws, rfl⟩ := hvs
    exact hsep ws

theorem failsFast_roles : FailsFast roles :=
  (failsFast_keyword "role").bind (reads_keyword "role") fun _ => failsFast_rolesAfter []

theorem BlamedOn.pointsAt {group : List Token} (h : BlamedOn group e) (hg : AllWords group)
    (ht : t.kind = .comma ∨ t.kind = .closeBracket ∨ t.kind = .newline) :
    e.PointsAt group (t :: ts) := by
  rcases h with ⟨w, hw, hlen, rfl⟩ | ⟨d, rfl⟩
  · refine ⟨w, .inr ?_, rfl, rfl⟩
    rwa [Nat.sub_eq_zero_of_le hlen, List.drop_zero]
  · exact ⟨⟨group, List.suffix_refl group, hg, rfl⟩, t, rfl, ht⟩

theorem caught_paramsAfter {closer : TokenKind}
    (hcloser : closer = .closeBracket ∨ closer = .newline) {done : List Parameter}
    {group : List Token} (hg : AllWords group) (h : paramsAfter closer done group ts = .error e us) :
    Caught group (paramsAfter closer done group) ts us e := by
  induction ts generalizing done group with
  | nil =>
    cases h
    exact caught_at_end ..
  | cons t ts ih =>
    simp only [paramsAfter] at h
    split at h
    · next hk =>
      refine (ih (hg.concat hk) h).step [t] fun vs ws hvs => ?_
      rw [List.singleton_append, paramsAfter, if_pos hk, hvs]
    · next hk =>
      split at h
      · next hcomma =>
        split at h
        · next ps hd =>
          -- the group is done with, and what follows points at a later one
          have hrest : Caught [] (paramsAfter closer ps []) ts us e := ih (by simp [AllWords]) h
          refine (hrest.behind _).step [t] fun vs ws hvs => ?_
          rw [List.singleton_append, paramsAfter, if_neg hk, if_pos hcomma, hd]
          exact hvs
        · next hd =>
          cases h
          refine caught_here ((blames_declare done group _ hd).pointsAt hg (.inl hcomma)) fun vs => ?_
          rw [paramsAfter, if_neg hk, if_pos hcomma, hd]
      · next hcomma =>
        split at h
        · next hclose =>
          split at h
          · cases h
          · next hd =>
            cases h
            refine caught_here ((blames_declare done group _ hd).pointsAt hg
              (.inr (hclose ▸ hcloser))) fun vs => ?_
            rw [paramsAfter, if_neg hk, if_neg hcomma, if_pos hclose, hd]
        · next hclose =>
          cases h
          refine caught_here ⟨t, rfl, rfl, rfl⟩ fun vs => ?_
          rw [paramsAfter, if_neg hk, if_neg hcomma, if_neg hclose]

theorem failsFast_paramsUntil {closer : TokenKind}
    (hcloser : closer = .closeBracket ∨ closer = .newline) : FailsFast (paramsUntil closer) :=
  fun _ _ _ => caught_paramsAfter hcloser (by simp [AllWords])

theorem failsFast_parameters (n : String) : FailsFast (parameters n) := by
  refine (failsFast_keyword "parameter").bind (reads_keyword "parameter") fun _ =>
    (failsFast_paramsUntil (.inr rfl)).bind (reads_paramsUntil .newline (by decide) (by decide))
      fun ps => ?_
  split
  · exact failsFast_pure ps
  · -- the keys are judged without a look ahead
    intro ts us e h
    cases h
    exact ⟨[], rfl, fun hd => absurd rfl (hd _), fun _ vs _ => rfl⟩

theorem failsFast_action (roles : List Role) : FailsFast (action roles) :=
  (failsFast_declaredRole roles).bind (reads_declaredRole roles) fun s =>
    (failsFast_take .arrow).bind (reads_take (by decide)) fun _ =>
      (failsFast_declaredRole roles).bind (reads_declaredRole roles) fun r =>
        (failsFast_take .colon).bind (reads_take (by decide)) fun _ =>
          failsFast_name.bind reads_name fun n =>
            (failsFast_take .openBracket).bind (reads_take (by decide)) fun _ =>
              (failsFast_paramsUntil (.inl rfl)).bind
                (reads_paramsUntil .closeBracket (by decide) (by decide)) fun ps =>
                  (failsFast_take .newline).bind_pure fun _ => (⟨n, s, r, ps⟩ : Action)

theorem failsFast_actionsUntilClose (roles : List Role) : FailsFast (actionsUntilClose roles) := by
  intro ts us e h
  -- along the actions, of which the last one begun is at fault, or what stands in its place
  fun_induction actionsUntilClose roles ts with
  | case1 =>
    cases h
    exact caught_at_end ..
  | case2 => cases h
  | case3 t ts ht f ws hf =>
    cases h
    obtain ⟨pre, hts, hpoints, hstays⟩ := failsFast_action roles _ _ _ hf
    refine ⟨pre, hts, hpoints, fun he vs hvs => ?_⟩
    obtain ⟨ws, hws⟩ := exists_cons_of_append hts.symm hvs
    have haction := hstays he vs hvs
    rw [hws] at haction ⊢
    exact actionsUntilClose_error ht haction
  | case4 t ts ht a ms ha _ f ws hf ih =>
    cases h
    obtain ⟨pre, hpre, hline, hdecl⟩ := (reads_action roles _ _ _).1 ha
    rw [hpre]
    refine ((ih hf).behind _).step _ fun vs ws hvs => ?_
    rw [actionsUntilClose_line hline hdecl, hvs]
  | case5 => cases h

theorem failsFast_sections (n : String) : FailsFast (sections n) :=
  failsFast_roles.bind reads_roles fun rs =>
    (failsFast_parameters n).bind (reads_parameters n) fun ps =>
      (failsFast_actionsUntilClose rs).bind_pure fun as => (⟨n, rs, ps, as⟩ : Protocol)

theorem failsFast_declaration : FailsFast declaration :=
  failsFast_name.bind reads_name fun n =>
    (failsFast_take .openBrace).bind (reads_take (by decide)) fun _ =>
      (skips_optional .newline).bind (failsFast_sections n) fun _ _ h => by
        cases h
        exact ⟨_, rfl⟩

theorem failsFast_protocol : FailsFast protocol :=
  skips_skipNewlines.bind (failsFast_declaration.bind reads_declaration fun p =>
    failsFast_finish.bind_pure fun _ => p) fun _ _ h => by
      cases h
      exact ⟨_, rfl⟩

theorem pointsAt_of_protocol (hts : Token.Separated (pre ++ us))
    (h : protocol (pre ++ us) = .error e us) (hp : (∀ d, e ≠ .defect d) → e.PointsAt pre us) :
    e.PointsAt pre us := by
  cases e with
  | defect d =>
    have hsem : Fault.Semantic (.defect d) := trivial
    obtain ⟨pre', bs, hs, ks, p, hpre, hsigns, hb, hh, -, hr⟩ := (protocol_stops hsem hts).1 h
    obtain rfl : pre = pre' := List.append_cancel_right hpre
    cases hr with
    | noKey hk => exact ⟨p, bs, hs, rfl, hk, by simpa using hsigns, hb, hh⟩
    | stranger _ _ _ _ hs => cases hs
  | _ => exact hp nofun

end Grammar

namespace Protocol

open Grammar

/-- A failure counts the tokens consumed and points at its place behind them, and it stays the same
whatever follows the next token. -/
theorem ofTokens_fails_fast {table : List Token} {f : Failure} (h : ofTokens table = .error f) :
    let ts := Token.withoutLayout table
    let n := f.consumed.length
    f.consumed = words (ts.take n) ∧ f.cause.PointsAt (ts.take n) (ts.drop n) ∧
      ((∀ x, f.cause ≠ .inputEnds x) → ∀ other, ts.take (n + 1) <+: Token.withoutLayout other →
        ofTokens other = .error f) := by
  intro ts n
  obtain ⟨us, hus, hconsumed⟩ := ofTokens_eq_error.1 h
  obtain ⟨pre, hts, hpoints, hstays⟩ := failsFast_protocol _ _ _ hus
  have hsep : Token.Separated (pre ++ us) := hts ▸ Token.withoutLayout_separated table
  rw [hts, take_of_append] at hconsumed
  have hn : n = pre.length := by
    change f.consumed.length = _
    rw [hconsumed, words, List.length_map]
  have htake : ts.take n = pre := by
    change (Token.withoutLayout table).take n = pre
    rw [hts, hn, List.take_left]
  have hdrop : ts.drop n = us := by
    change (Token.withoutLayout table).drop n = us
    rw [hts, hn, List.drop_left]
  refine ⟨by rw [htake, hconsumed], ?_, fun he other hother => ?_⟩
  · rw [htake, hdrop]
    exact pointsAt_of_protocol hsep (hts ▸ hus) hpoints
  · have hsplit : ts.take (n + 1) = pre ++ us.take 1 := by
      rw [List.take_add, htake, hdrop]
    rw [hsplit] at hother
    obtain ⟨vs, hvs⟩ := hother
    rw [List.append_assoc] at hvs
    refine ofTokens_eq_error.2 ⟨us.take 1 ++ vs, ?_, ?_⟩
    · rw [← hvs]
      exact hstays he _ (List.prefix_append _ vs)
    · rw [← hvs, take_of_append, hconsumed]

/-- A parameter that is declared twice shows at the newline behind it. -/
theorem ofTokens_fails_fast_repeated :
    let word (w : String) : Token := ⟨.word, w, 1, 0⟩
    let mark (k : TokenKind) : Token := ⟨k, k.label, 1, 0⟩
    let done := [word "Offer", mark .openBrace, word "role", word "S", mark .newline,
      word "parameter", word "id", word "key", mark .comma, word "in", word "id"]
    let table := mark .blank :: done ++ [mark .blank, mark .newline, word "S", mark .arrow]
    let other := done ++ [mark .newline, mark .newline]
    let f : Failure := ⟨.group ["in", "id"] (.repeated "id"), words done⟩
    ofTokens table = .error f ∧ f.cause.PointsAt done [mark .newline, word "S", mark .arrow] ∧
      (∀ x, f.cause ≠ .inputEnds x) ∧
      (Token.withoutLayout table).take (f.consumed.length + 1) <+: Token.withoutLayout other ∧
      ofTokens other = .error f := by
  intro word mark done table other f
  have hf : ofTokens table = .error f := by decide +kernel
  have hother : (Token.withoutLayout table).take (f.consumed.length + 1) <+:
      Token.withoutLayout other := by decide +kernel
  have htake : (Token.withoutLayout table).take f.consumed.length = done := by decide +kernel
  have hdrop : (Token.withoutLayout table).drop f.consumed.length =
      [mark .newline, word "S", mark .arrow] := by decide +kernel
  obtain ⟨-, hpoints, hstays⟩ := ofTokens_fails_fast hf
  rw [htake, hdrop] at hpoints
  exact ⟨hf, hpoints, nofun, hother, hstays nofun other hother⟩

end Protocol

end InfoProtocol
