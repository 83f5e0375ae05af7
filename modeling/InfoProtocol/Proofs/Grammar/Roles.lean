import InfoProtocol.Proofs.Grammar.Reading

/-!
# Reading the roles

Roles are read between commas up to a newline. A new role is compared with those read before, so
the induction runs over what is left of the list and keeps the names of both parts different.
-/

namespace InfoProtocol.Grammar

theorem rolesAfter_cons {done : List Role} {t u : Token} {ts : List Token}
    (ht : t.kind = .word) (hfree : Free t.text) (hnew : t.text ∉ done) :
    rolesAfter done (t :: u :: ts) =
      if u.kind = .comma then rolesAfter (done ++ [t.text]) ts
      else if u.kind = .newline then .ok (done ++ [t.text]) ts
      else .error (.unexpected .roleSeparator u.text u.line) (u :: ts) := by
  rw [rolesAfter, if_neg (not_not.2 ht), if_neg (by rw [hfree]; decide),
    if_neg (by simpa using hnew)]

theorem rolesAfter_sound {done rs : List Role} {ts us : List Token} (hdone : FreeNames done)
    (h : rolesAfter done ts = .ok rs us) :
    ∃ pre qs hs, ts = pre ++ us ∧ pre.map Token.sign = hs ++ [.mark .newline] ∧
      rs = done ++ qs ∧ Commas RoleName hs qs ∧ FreeNames rs := by
  fun_induction rolesAfter done ts with
  | case1 => cases h
  | case2 => cases h
  | case3 => cases h
  | case4 => cases h
  | case5 => cases h
  | case6 done t hk hf hn u ts hu ih =>
    have hsign : t.sign = .word t.text := Token.sign_eq_word.2 ⟨not_not.1 hk, rfl⟩
    have hdone' : FreeNames (done ++ [t.text]) :=
      freeNames_append.2 ⟨hdone, by simpa [Free] using hf, by simpa using hn⟩
    obtain ⟨pre, qs, hs, rfl, hpre, rfl, hc, hnames⟩ := ih hdone' h
    refine ⟨t :: u :: pre, t.text :: qs, [.word t.text] ++ .mark .comma :: hs, rfl, ?_, by simp,
      .more (.intro t.text) hc, by simpa using hnames⟩
    simp [hsign, (Token.sign_eq_mark (by decide)).2 hu, hpre]
  | case7 done t hk hf hn u ts hu hu' =>
    cases h
    have hsign : t.sign = .word t.text := Token.sign_eq_word.2 ⟨not_not.1 hk, rfl⟩
    refine ⟨[t, u], [t.text], [.word t.text], rfl, ?_, rfl, .one (.intro t.text), ?_⟩
    · simp [hsign, (Token.sign_eq_mark (by decide)).2 hu']
    · exact freeNames_append.2 ⟨hdone, by simpa [Free] using hf, by simpa using hn⟩
  | case8 => cases h

theorem rolesAfter_complete {hs : List Sign} {qs : List Role} (hc : Commas RoleName hs qs)
    (done : List Role) (hnames : FreeNames (done ++ qs)) {pre us : List Token}
    (hpre : pre.map Token.sign = hs ++ [.mark .newline]) :
    rolesAfter done (pre ++ us) = .ok (done ++ qs) us := by
  induction hc generalizing done pre with
  | @one gs r ha =>
    obtain ⟨r⟩ := ha
    obtain ⟨t, u, rfl, ht, hu⟩ : ∃ t u, pre = [t, u] ∧ t.sign = .word r ∧
        u.sign = .mark .newline := by
      obtain ⟨t, l, rfl, ht, hl⟩ := List.map_eq_cons_iff.1 hpre
      obtain ⟨u, rfl, hu⟩ := List.map_eq_singleton_iff.1 hl
      exact ⟨t, u, rfl, ht, hu⟩
    obtain ⟨hk, rfl⟩ := Token.sign_eq_word.1 ht
    have hu' := (Token.sign_eq_mark (by decide)).1 hu
    obtain ⟨-, hfree, hnew⟩ := freeNames_append.1 hnames
    simp [rolesAfter_cons hk hfree hnew, hu']
  | @more gs hs r qs ha _ ih =>
    obtain ⟨r⟩ := ha
    obtain ⟨t, u, l, rfl, ht, hu, hl⟩ : ∃ t u l, pre = t :: u :: l ∧ t.sign = .word r ∧
        u.sign = .mark .comma ∧ l.map Token.sign = hs ++ [.mark .newline] := by
      obtain ⟨t, m, rfl, ht, hm⟩ := List.map_eq_cons_iff.1 hpre
      obtain ⟨u, l, rfl, hu, hl⟩ := List.map_eq_cons_iff.1 hm
      exact ⟨t, u, l, rfl, ht, hu, hl⟩
    obtain ⟨hk, rfl⟩ := Token.sign_eq_word.1 ht
    have hu' := (Token.sign_eq_mark (by decide)).1 hu
    have hnames' : FreeNames ((done ++ [t.text]) ++ qs) := by simpa using hnames
    obtain ⟨-, hfree, hnew⟩ := freeNames_append.1 hnames'.of_append
    have hrest := ih _ hnames' hl
    simp only [List.append_assoc, List.singleton_append] at hrest
    rw [List.cons_append, List.cons_append, rolesAfter_cons hk hfree hnew, if_pos hu', hrest]

theorem reads_roles : Reads roles fun gs rs => ∃ hs,
    gs = [.word "role"] ++ hs ++ [.mark .newline] ∧ Commas RoleName hs rs ∧ FreeNames rs := by
  have hafter : Reads (rolesAfter []) fun gs rs => ∃ hs,
      gs = hs ++ [.mark .newline] ∧ Commas RoleName hs rs ∧ FreeNames rs := by
    intro ts rs us
    constructor
    · intro h
      obtain ⟨pre, qs, hs, rfl, hpre, rfl, hc, hnames⟩ := rolesAfter_sound freeNames_nil h
      exact ⟨pre, rfl, hs, hpre, hc, hnames⟩
    · intro h
      obtain ⟨pre, rfl, hs, hpre, hc, hnames⟩ := h
      exact rolesAfter_complete hc [] hnames hpre
  refine ((reads_keyword "role").bind fun _ => hafter).congr fun gs rs => ?_
  constructor
  · intro h
    obtain ⟨_, _, _, rfl, rfl, hs, rfl, hc, hnames⟩ := h
    exact ⟨hs, rfl, hc, hnames⟩
  · intro h
    obtain ⟨hs, rfl, hc, hnames⟩ := h
    exact ⟨(), _, _, List.append_assoc .., rfl, hs, rfl, hc, hnames⟩

end InfoProtocol.Grammar
