import InfoProtocol.Proofs.Grammar.Refusals
import InfoProtocol.Proofs.Protocol.Verdict
import InfoProtocol.Source

/-!
# What compiling leaves to validation

Reading has judged the keys of a protocol before it sees an action, and the roles of each action
word by word. Validation judges both again on the whole protocol, and can find nothing there: a
protocol that has been read fails it for the coverage of its keys or for a circle only. A missing
key and an undeclared role are faults of reading, found where the heading or the role stands.
-/

namespace InfoProtocol

open Grammar

structure Parameters.Named (ps : List Parameter) : Prop where
  ne_nil : ps ≠ []
  names : FreeNames (ps.map (·.name))

/-- Reading leaves it to validation to look for these defects. -/
def Defect.Outstanding (d : Defect) : Prop :=
  d.kind = .noKeyOverlap ∨ d.kind = .circularDependency

/-- Reading from these tokens stops behind a heading, for a key or a role that is not declared. -/
def Grammar.RefusedIn (ts : List Token) (f : Failure) : Prop :=
  ∃ pre us bs hs ks p, Token.withoutLayout ts = pre ++ us ∧ f.consumed = words pre ∧
    pre.map Token.sign = bs ++ hs ++ ks ∧ Break bs ∧ Heading hs p ∧ HeadingDeclared p ∧
    Refused p f.cause ks us

namespace Protocol

structure Named (p : Protocol) : Prop where
  free : Free p.name
  roles_ne_nil : p.roles ≠ []
  roles : FreeNames p.roles
  params : Parameters.Named p.params
  actions : ∀ a ∈ p.actions, Parameters.Named a.params

variable {x : Lexicon} {source : String} {p : Protocol}

theorem spelling_of_read (h : read x source = .ok p) :
    (∃ gs, Spelling gs p) ∧ p.WellFormed := by
  obtain ⟨ts, -, hts⟩ := read_eq_ok.1 h
  obtain ⟨hs, hwf⟩ := spelling_of_ofTokens hts
  exact ⟨⟨_, hs⟩, hwf⟩

theorem params_ne_nil_of_lines {gs : List Sign} {as : List Action} (h : Lines gs as) :
    ∀ a ∈ as, a.params ≠ [] := by
  induction h with
  | nil => simp
  | cons ha _ ih =>
    obtain ⟨hs, -, hps⟩ := line_iff.1 ha
    exact List.forall_mem_cons.2 ⟨hps.ne_nil, ih⟩

theorem named_of_read (h : read x source = .ok p) : p.Named := by
  obtain ⟨⟨gs, hs⟩, hwf⟩ := spelling_of_read h
  obtain ⟨-, hd, -⟩ := hs
  obtain ⟨_, _, _, ls, -, -, hr, hp, hl⟩ := declaration_iff.1 hd
  refine ⟨hwf.free, hr.ne_nil, hwf.roles, ⟨hp.ne_nil, hwf.params⟩, fun a ha => ?_⟩
  exact ⟨params_ne_nil_of_lines hl a ha, (hwf.actions a ha).params⟩

theorem WellFormed.outstanding (h : p.WellFormed) {d : Defect} (hd : p.validate = .error d) :
    d.Outstanding := by
  have hknown : ∀ a ∈ p.actions, a.Known p.roles := fun a ha => (h.actions a ha).known
  cases firstDefect_of_validate hd with
  | noKey hk => exact absurd h.hasKey hk
  | @unknown hk before after a r ha _ hr =>
    have hka : a.Known p.roles := hknown a (by simp [ha])
    rcases hr with ⟨hs, -⟩ | ⟨-, hr, -⟩
    · exact absurd hka.1 hs
    · exact absurd hka.2 hr
  | uncovered => exact .inl rfl
  | circular => exact .inr rfl

theorem ofTokens_eq_error {table : List Token} {f : Failure} : ofTokens table = .error f ↔
    ∃ us, Grammar.protocol (Token.withoutLayout table) = .error f.cause us ∧
      f.consumed = words ((Token.withoutLayout table).take
        ((Token.withoutLayout table).length - us.length)) := by
  obtain ⟨cause, consumed⟩ := f
  simp only [ofTokens]
  cases Grammar.protocol (Token.withoutLayout table) with
  | ok p us => simp
  | error e us => simp [eq_comm]

theorem take_of_append (pre us : List Token) :
    (pre ++ us).take ((pre ++ us).length - us.length) = pre := by
  rw [List.length_append, Nat.add_sub_cancel, List.take_left]

theorem ofTokens_refuses {table : List Token} {f : Failure} (hf : f.cause.Semantic) :
    ofTokens table = .error f ↔ RefusedIn table f := by
  simp only [ofTokens_eq_error, protocol_stops hf (Token.withoutLayout_separated table)]
  constructor
  · intro h
    obtain ⟨us, ⟨pre, bs, hs, ks, p, hts, hpre, hb, hh, hd, hr⟩, hw⟩ := h
    rw [hts, take_of_append] at hw
    exact ⟨pre, us, bs, hs, ks, p, hts, hw, hpre, hb, hh, hd, hr⟩
  · intro h
    obtain ⟨pre, us, bs, hs, ks, p, hts, hw, hpre, hb, hh, hd, hr⟩ := h
    refine ⟨us, ⟨pre, bs, hs, ks, p, hts, hpre, hb, hh, hd, hr⟩, ?_⟩
    rw [hts, take_of_append, hw]

theorem exists_noKeyParameters_of_refusedIn {table : List Token} {f : Failure} {d : Defect}
    (h : RefusedIn table f) (hf : f.cause = .defect d) : ∃ n, d = .noKeyParameters n := by
  obtain ⟨pre, us, bs, hs, ks, p, -, -, -, -, -, -, hr⟩ := h
  obtain ⟨cause, consumed⟩ := f
  obtain rfl : cause = .defect d := hf
  cases hr with
  | noKey hk => exact ⟨p.name, rfl⟩
  | stranger hk hl ha hb hs => cases hs

theorem read_eq_grammar {f : Failure} : read x source = .error (.grammar f) ↔
    ∃ ts, Token.scan x source = .ok ts ∧ ofTokens ts = .error f := by
  unfold read
  split
  · next h => simp [h]
  · next ts h =>
    split
    · next h' => simp [h, h']
    · next h' => simp [h, h']

theorem read_ne_defect {d : Defect} : read x source ≠ .error (.defect d) := by
  unfold read
  split
  · simp
  · split <;> simp

theorem compile_eq_grammar {f : Failure} : compile x source = .error (.grammar f) ↔
    read x source = .error (.grammar f) := by
  unfold compile
  split
  · next h => simp [h]
  · next h =>
    split <;> simp [h]

theorem compile_eq_defect {d : Defect} : compile x source = .error (.defect d) ↔
    ∃ p, read x source = .ok p ∧ p.validate = .error d := by
  unfold compile
  split
  · next e h =>
    simp only [h, Except.error.injEq, reduceCtorEq, false_and, exists_false, iff_false]
    rintro rfl
    exact read_ne_defect h
  · next p h =>
    split
    · next h' => simp [h, h']
    · next h' => simp [h, h']

theorem compile_refuses {f : Failure} (hf : f.cause.Semantic) :
    compile x source = .error (.grammar f) ↔
      ∃ ts, Token.scan x source = .ok ts ∧ RefusedIn ts f := by
  simp only [compile_eq_grammar, read_eq_grammar, ofTokens_refuses hf]

/-- Of the four defects reading leaves two to validation. A missing key is reported by reading
alone, and so is an undeclared role, which it finds where the declared role was to stand. What
compiles has names, and enough of them, throughout. -/
theorem compile_leaves_two_defects (x : Lexicon) (source : String) :
    (∀ p, read x source = .ok p → ∀ d, p.validate = .error d → d.Outstanding) ∧
    (∀ d, compile x source = .error (.defect d) → d.Outstanding) ∧
    (∀ f d, compile x source = .error (.grammar f) → f.cause = .defect d →
      ∃ n, d = .noKeyParameters n) ∧
    (∀ f, f.cause.Semantic → (compile x source = .error (.grammar f) ↔
      ∃ ts, Token.scan x source = .ok ts ∧ RefusedIn ts f)) ∧
    ∀ p, compile x source = .ok p → p.Named := by
  have hread : ∀ p, read x source = .ok p → ∀ d, p.validate = .error d → d.Outstanding :=
    fun p hp d hd => (spelling_of_read hp).2.outstanding hd
  refine ⟨hread, fun d hd => ?_, fun f d h hf => ?_, fun f => compile_refuses, fun p hp => ?_⟩
  · obtain ⟨p, hp, hv⟩ := compile_eq_defect.1 hd
    exact hread p hp d hv
  · have hsem : f.cause.Semantic := by
      rw [hf]
      trivial
    obtain ⟨ts, -, hts⟩ := (compile_refuses hsem).1 h
    exact exists_noKeyParameters_of_refusedIn hts hf
  · exact named_of_read (compile_eq_ok.1 hp).1

theorem compile_leaves_two_defects_of_offers :
    let offer := "Offer\x7brole S,B\nparameter out id key\nS->B:quote[out id key]\n\x7d"
    let unkeyed := "Offer\x7brole S,B\nparameter out id\nS->B:quote[out id key]\n\x7d"
    let strange := "Offer\x7brole S,B\nparameter out id key\nS->Bank:quote[out id key]\n\x7d"
    let apart := "Offer\x7brole S,B\nparameter out id key\nS->B:quote[out lot key]\n\x7d"
    let id : Parameter := ⟨"id", .output, true⟩
    let noKey : Failure := ⟨.defect (.noKeyParameters "Offer"),
      ["Offer", "\x7b", "role", "S", ",", "B", "\n", "parameter", "out", "id", "\n"]⟩
    let stranger : Failure := ⟨.unexpected .declaredRole "Bank" 3,
      ["Offer", "\x7b", "role", "S", ",", "B", "\n", "parameter", "out", "id", "key", "\n", "S",
        "->"]⟩
    let p : Protocol := ⟨"Offer", ["S", "B"], [id], [⟨"quote", "S", "B", [id]⟩]⟩
    compile .default offer = .ok p ∧ p.Named ∧
      (∃ ts, Token.scan .default unkeyed = .ok ts ∧ RefusedIn ts noKey) ∧
      (∃ ts, Token.scan .default strange = .ok ts ∧ RefusedIn ts stranger) ∧
      compile .default apart = .error (.defect (.noKeyOverlap "quote" "Offer")) ∧
      Defect.Outstanding (.noKeyOverlap "quote" "Offer") := by
  intro offer unkeyed strange apart id noKey stranger p
  have hoffer : compile .default offer = .ok p := compile_eq_ok.2 ⟨by decide +kernel,
    validate_eq_ok.2 ⟨by decide, by decide, by decide, _, schedule_finRange (by decide)⟩⟩
  have hunkeyed : compile .default unkeyed = .error (.grammar noKey) := by decide +kernel
  have hstrange : compile .default strange = .error (.grammar stranger) := by decide +kernel
  have hapart : compile .default apart = .error (.defect (.noKeyOverlap "quote" "Offer")) := by
    decide +kernel
  exact ⟨hoffer, (compile_leaves_two_defects .default offer).2.2.2.2 p hoffer,
    ((compile_leaves_two_defects .default unkeyed).2.2.2.1 noKey trivial).1 hunkeyed,
    ((compile_leaves_two_defects .default strange).2.2.2.1 stranger trivial).1 hstrange,
    hapart, (compile_leaves_two_defects .default apart).2.1 _ hapart⟩

end Protocol

end InfoProtocol
