import InfoProtocol.Proofs.Protocol.Unambiguous
import InfoProtocol.Transport.ActionLine

/-!
# Actions read back from their lines

An action is admissible if a protocol could have it: its names are free words of the lexicon, and
its parameters are named apart. Where the comment mark stands out, the line of an admissible action
shows its sender and its receiver, so the shell around the line is the written form of a protocol
that has these roles and this one action. What is read from a line is admissible.
-/

namespace InfoProtocol

open Grammar Lexicon

variable {x : Lexicon}

/-- A free word, as far as its characters go. -/
structure Lexicon.IsName (x : Lexicon) (w : String) : Prop where
  nonempty : w.toList ≠ []
  chars : ∀ c ∈ w.toList, x.isWordChar c = true
  free : Free w

structure Action.Admissible (x : Lexicon) (a : Action) : Prop where
  name : x.IsName a.name
  sender : x.IsName a.sender
  receiver : x.IsName a.receiver
  params_nonempty : a.params ≠ []
  params : ∀ q ∈ a.params, x.IsName q.name
  nodup : (a.params.map (·.name)).Nodup

instance (x : Lexicon) (w : String) : Decidable (x.IsName w) :=
  decidable_of_iff (w.toList ≠ [] ∧ w.toList.all x.isWordChar = true ∧ isReserved w = false)
    ⟨fun h => ⟨h.1, List.all_eq_true.1 h.2.1, h.2.2⟩,
      fun h => ⟨h.nonempty, List.all_eq_true.2 h.chars, h.free⟩⟩

instance (x : Lexicon) (a : Action) : Decidable (a.Admissible x) :=
  decidable_of_iff ((x.IsName a.name ∧ x.IsName a.sender ∧ x.IsName a.receiver) ∧
      a.params ≠ [] ∧ (∀ q ∈ a.params, x.IsName q.name) ∧ (a.params.map (·.name)).Nodup)
    ⟨fun h => ⟨h.1.1, h.1.2.1, h.1.2.2, h.2.1, h.2.2.1, h.2.2.2⟩,
      fun h => ⟨⟨h.name, h.sender, h.receiver⟩, h.params_nonempty, h.params, h.nodup⟩⟩

theorem Lexicon.IsName.isWord (hx : x.Acceptable) (hm : x.MarkStandsOut) {w : String}
    (h : x.IsName w) : x.IsWord w :=
  hm.isWord hx h.nonempty h.chars

theorem Lexicon.IsWord.isName {w : String} (h : x.withoutMark.IsWord w) (hw : Free w) :
    x.IsName w :=
  ⟨h.nonempty, h.chars, hw⟩

theorem Parameter.legible_of_isWord (hx : x.Acceptable) (hm : x.MarkStandsOut) {q : Parameter}
    (h : x.IsWord q.name) : q.Legible x where
  name := h
  scope _ := by cases q.scope <;> exact hm.isWord_alphanum hx (by decide) (by decide)
  key _ := hm.isWord_alphanum hx (by decide) (by decide)

namespace Action

variable {a : Action}

theorem Admissible.legible (hx : x.Acceptable) (hm : x.MarkStandsOut) (h : a.Admissible x) :
    a.Legible x where
  name := h.name.isWord hx hm
  sender := h.sender.isWord hx hm
  receiver := h.receiver.isWord hx hm
  params := by
    refine ⟨h.params_nonempty, fun q hq => ?_⟩
    exact Parameter.legible_of_isWord hx hm ((h.params q hq).isWord hx hm)

end Action

theorem Protocol.admissible_of_read (hx : x.Acceptable) {source : String} {p : Protocol}
    (h : read x source = .ok p) : ∀ a ∈ p.actions, a.Admissible x := by
  intro a ha
  obtain ⟨hl, hwf⟩ := legible_withoutMark_of_read hx h
  have hwords := hl.actions a ha
  have hdecl := hwf.actions a ha
  refine ⟨hwords.name.isName hdecl.free, hwords.sender.isName (hwf.roles.free _ hdecl.known.1),
    hwords.receiver.isName (hwf.roles.free _ hdecl.known.2), hwords.params.nonempty,
    fun q hq => (hwords.params.each q hq).name.isName ?_, hdecl.params.nodup⟩
  exact hdecl.params.free _ (List.mem_map_of_mem hq)

namespace ActionLine

def shellOf (roles : List Role) (as : List Action) : Protocol :=
  ⟨"X", roles, [⟨"C", .output, true⟩], as⟩

variable {roles : List Role} {as : List Action}

theorem shellOf_wellFormed : (shellOf roles as).WellFormed ↔
    FreeNames roles ∧ ∀ a ∈ as, ActionDeclared roles a := by
  have hname : Free "X" := by decide
  have hparams : FreeNames ["C"] := by decide
  constructor
  · intro h
    exact ⟨h.roles, h.actions⟩
  · intro h
    exact ⟨hname, h.1, hparams, ⟨_, List.mem_singleton_self _, rfl⟩, h.2⟩

theorem shellOf_legible (hx : x.Acceptable) (hm : x.MarkStandsOut) (hne : roles ≠ [])
    (hroles : ∀ r ∈ roles, x.IsWord r) (has : ∀ a ∈ as, a.Legible x) :
    (shellOf roles as).Legible x where
  name := hm.isWord_alphanum (w := "X") hx (by decide) (by decide)
  role_word := hm.isWord_alphanum hx (by decide) (by decide)
  parameter_word := hm.isWord_alphanum hx (by decide) (by decide)
  roles_nonempty := hne
  roles := hroles
  params := by
    refine ⟨List.cons_ne_nil _ _, fun q hq => ?_⟩
    rw [List.mem_singleton.1 hq]
    exact Parameter.legible_of_isWord hx hm
      (hm.isWord_alphanum (w := "C") hx (by decide) (by decide))
  actions := has

end ActionLine

namespace Action

variable {a : Action}

def roles (a : Action) : List Role :=
  if a.sender = a.receiver then [a.sender] else [a.sender, a.receiver]

theorem mem_roles {r : Role} : r ∈ a.roles ↔ r = a.sender ∨ r = a.receiver := by
  unfold roles
  split
  · next h => simp [h]
  · simp

theorem roles_nodup : a.roles.Nodup := by
  unfold roles
  split
  · simp
  · next h => simpa using h

/-- The protocol whose written form is the shell around the action. -/
def shellProtocol (a : Action) : Protocol := ⟨"X", a.roles, [⟨"C", .output, true⟩], [a]⟩

theorem Admissible.shell_wellFormed (h : a.Admissible x) : a.shellProtocol.WellFormed := by
  refine ActionLine.shellOf_wellFormed.2 ⟨⟨fun r hr => ?_, roles_nodup⟩, fun b hb => ?_⟩
  · rcases mem_roles.1 hr with rfl | rfl
    · exact h.sender.free
    · exact h.receiver.free
  · obtain rfl : b = a := List.mem_singleton.1 hb
    refine ⟨h.name.free, ⟨mem_roles.2 (.inl rfl), mem_roles.2 (.inr rfl)⟩, fun w hw => ?_, h.nodup⟩
    obtain ⟨q, hq, rfl⟩ := List.mem_map.1 hw
    exact (h.params q hq).free

theorem Admissible.shell_legible (hx : x.Acceptable) (hm : x.MarkStandsOut) (h : a.Admissible x) :
    a.shellProtocol.Legible x := by
  refine ActionLine.shellOf_legible hx hm (List.ne_nil_of_mem (mem_roles.2 (.inl rfl)))
    (fun r hr => ?_) fun b hb => List.mem_singleton.1 hb ▸ h.legible hx hm
  rcases mem_roles.1 hr with rfl | rfl
  · exact h.sender.isWord hx hm
  · exact h.receiver.isWord hx hm

theorem Admissible.shellRoles_render (hx : x.Acceptable) (hm : x.MarkStandsOut)
    (h : a.Admissible x) : ActionLine.shellRoles x a.render = a.roles := by
  obtain ⟨gs, -, hw⟩ := (h.legible hx hm).writes (hm.orderly hx)
  have hshows := hw false [] [] (by simp [Delimited]) shows_nil
  rw [List.append_nil] at hshows
  obtain ⟨ts, hts, hsigns⟩ := hshows.scan
  simp only [List.cons_append, List.append_assoc, List.append_nil, List.map_eq_cons_iff] at hsigns
  obtain ⟨s, us, hs, hss, r, vs, rfl, hrs, t, ws, rfl, hts', -⟩ := hsigns
  obtain ⟨hsk, hst⟩ := Token.sign_eq_word.1 hss
  have hrk := (Token.sign_eq_mark (by decide)).1 hrs
  obtain ⟨htk, htt⟩ := Token.sign_eq_word.1 hts'
  simp [ActionLine.shellRoles, hts, hs, ActionLine.senderOf, ActionLine.receiverOf,
    ActionLine.wordOr, hsk, hrk, htk, hst, htt, roles]

theorem render_shellProtocol (hroles : ActionLine.shellRoles x a.render = a.roles) :
    ActionLine.shell x a.render = a.shellProtocol.render := by
  rw [ActionLine.shell, hroles, ← String.toList_inj]
  simp [shellProtocol, Protocol.render, Parameters.render, Parameter.render, Scope.word]

theorem Admissible.trim_render (hx : x.Acceptable) (h : a.Admissible x) :
    Text.trim a.render = a.render := by
  apply Text.trim_eq
  · intro c hc
    obtain ⟨d, r, hd⟩ := List.exists_cons_of_ne_nil h.sender.nonempty
    have hword := h.sender.chars d (hd ▸ List.mem_cons_self)
    have hfirst : d = c := by simpa [render, hd] using hc
    exact hfirst ▸ (isWordChar_spec hx hword).1
  · intro c hc
    have hlast : "]".toList = [']'] := by decide
    rw [render, String.toList_append, hlast, List.getLast?_concat] at hc
    cases hc
    decide

theorem Admissible.read_render (hx : x.Acceptable) (hm : x.MarkStandsOut) (h : a.Admissible x) :
    Action.read x a.render = .ok a := by
  have hshell : Protocol.read x (ActionLine.shell x a.render) = .ok a.shellProtocol := by
    rw [render_shellProtocol (h.shellRoles_render hx hm)]
    exact (h.shell_legible hx hm).read_render (hm.orderly hx) h.shell_wellFormed
  rw [Action.read, h.trim_render hx, hshell]
  rfl

theorem admissible_of_read (hx : x.Acceptable) {text : String} (h : Action.read x text = .ok a) :
    a.Admissible x := by
  unfold Action.read at h
  split at h
  · cases h
  · next p hp =>
    split at h
    · cases h
    · next b bs hactions =>
      cases h
      exact Protocol.admissible_of_read hx hp a (hactions ▸ List.mem_cons_self)

end Action

end InfoProtocol
