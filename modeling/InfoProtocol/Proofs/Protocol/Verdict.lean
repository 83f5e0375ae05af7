import InfoProtocol.Proofs.Enactment
import InfoProtocol.Proofs.Protocol.Canonical

/-!
# The verdict on equivalent protocols

Validation looks at actions by their places, and the search for a circle takes its roots and targets
in the order of declaration. Which action it names depends on that order; which of the four
conditions fails first does not, since none of them speaks of places. For the order of the actions
this means to forget the places and ask for an arrangement of the actions themselves.
-/

namespace InfoProtocol

inductive Defect.Kind
  | noKeyParameters
  | unknownRole
  | noKeyOverlap
  | circularDependency
  deriving DecidableEq, Repr

def Defect.kind : Defect → Kind
  | noKeyParameters _ => .noKeyParameters
  | unknownRole _ _ => .unknownRole
  | noKeyOverlap _ _ => .noKeyOverlap
  | circularDependency _ => .circularDependency

def Protocol.verdict (p : Protocol) : Except Defect.Kind Unit := p.validate.mapError Defect.kind

/-- The actions can be arranged so that none reads what a later one outputs. -/
def Actions.Arrangeable (as : List Action) : Prop :=
  ∃ bs : List Action, bs.Perm as ∧ bs.Pairwise fun a b => ¬ a.Reads b

theorem exists_perm_of_perm_map {α β : Type} {f : α → β} {l : List β} {m : List α}
    (h : l.Perm (m.map f)) : ∃ n : List α, n.Perm m ∧ l = n.map f := by
  have hcomp := congrFun (congrFun (List.eq_map_comp_perm f) l) m
  obtain ⟨n, hl, hn⟩ := hcomp.mpr h
  exact ⟨n, hn, hl⟩

namespace Action

variable {a b : Action}

theorem reads_sortParams : a.sortParams.Reads b.sortParams ↔ a.Reads b := by
  simp only [Reads, sortParams, Parameters.mem_sort]

theorem known_congr {roles roles' : List Role} (h : roles.Perm roles') :
    a.sortParams.Known roles ↔ a.Known roles' := by
  simp only [Known, sortParams, h.mem_iff]

end Action

namespace Actions

variable {as bs : List Action}

theorem Arrangeable.perm (h : Arrangeable as) (hp : as.Perm bs) : Arrangeable bs := by
  obtain ⟨cs, hcs, horder⟩ := h
  exact ⟨cs, hcs.trans hp, horder⟩

theorem arrangeable_map_sortParams :
    Arrangeable (as.map Action.sortParams) ↔ Arrangeable as := by
  constructor
  · intro h
    obtain ⟨cs, hcs, horder⟩ := h
    obtain ⟨bs, hbs, rfl⟩ := exists_perm_of_perm_map hcs
    refine ⟨bs, hbs, (List.pairwise_map.1 horder).imp fun hab => ?_⟩
    rwa [Action.reads_sortParams] at hab
  · intro h
    obtain ⟨bs, hbs, horder⟩ := h
    refine ⟨bs.map Action.sortParams, hbs.map _, List.pairwise_map.2 (horder.imp fun hab => ?_)⟩
    rwa [Action.reads_sortParams]

end Actions

namespace Protocol

variable {p q : Protocol}

theorem exists_schedule_iff_arrangeable :
    (∃ l, p.Schedule l) ↔ Actions.Arrangeable p.actions := by
  have hplaces : (List.finRange p.actions.length).map p.actions.get = p.actions :=
    List.map_get_finRange p.actions
  constructor
  · intro h
    obtain ⟨l, hl, horder⟩ := h
    have hperm := hl.map p.actions.get
    rw [hplaces] at hperm
    exact ⟨l.map p.actions.get, hperm, List.pairwise_map.2 horder⟩
  · intro h
    obtain ⟨as, has, horder⟩ := h
    obtain ⟨l, hl, rfl⟩ := exists_perm_of_perm_map (hplaces.symm ▸ has)
    exact ⟨l, hl, List.pairwise_map.1 horder⟩

theorem covers_congr (h : p.params.Perm q.params) {a : Action} :
    p.Covers a.sortParams ↔ q.Covers a := by
  simp only [Covers, Action.sortParams, Parameters.mem_sort, h.mem_iff]

namespace Rearranged

theorem actions_perm (h : p.Rearranged q) :
    (p.actions.map Action.sortParams).Perm (q.actions.map Action.sortParams) :=
  (rearranged_iff.1 h).2.2.2

theorem forall_actions (h : p.Rearranged q) {R P Q : Action → Prop}
    (hP : ∀ a, R a.sortParams ↔ P a) (hQ : ∀ a, R a.sortParams ↔ Q a) :
    (∀ a ∈ p.actions, P a) ↔ ∀ a ∈ q.actions, Q a := by
  calc (∀ a ∈ p.actions, P a)
    _ ↔ ∀ b ∈ p.actions.map Action.sortParams, R b := by simp only [List.forall_mem_map, hP]
    _ ↔ ∀ b ∈ q.actions.map Action.sortParams, R b := by simp only [h.actions_perm.mem_iff]
    _ ↔ ∀ a ∈ q.actions, Q a := by simp only [List.forall_mem_map, hQ]

theorem hasKey_iff (h : p.Rearranged q) : p.HasKey ↔ q.HasKey := by
  simp only [HasKey, h.params.mem_iff]

theorem known_iff (h : p.Rearranged q) :
    (∀ a ∈ p.actions, a.Known p.roles) ↔ ∀ a ∈ q.actions, a.Known q.roles :=
  h.forall_actions (fun _ => Action.known_congr (.refl _)) fun _ => Action.known_congr h.roles

theorem covered_iff (h : p.Rearranged q) :
    (∀ a ∈ p.actions, p.Covers a) ↔ ∀ a ∈ q.actions, q.Covers a :=
  h.forall_actions (fun _ => covers_congr (.refl _)) fun _ => covers_congr h.params

theorem arrangeable_iff (h : p.Rearranged q) :
    Actions.Arrangeable p.actions ↔ Actions.Arrangeable q.actions := by
  calc Actions.Arrangeable p.actions
    _ ↔ Actions.Arrangeable (p.actions.map Action.sortParams) :=
      Actions.arrangeable_map_sortParams.symm
    _ ↔ Actions.Arrangeable (q.actions.map Action.sortParams) :=
      ⟨fun hp => hp.perm h.actions_perm, fun hq => hq.perm h.actions_perm.symm⟩
    _ ↔ Actions.Arrangeable q.actions := Actions.arrangeable_map_sortParams

end Rearranged

theorem mapError_kind_congr {x y : Except Defect Unit} {k : Defect.Kind}
    (hx : ∀ d, x = .error d → d.kind = k) (hy : ∀ d, y = .error d → d.kind = k)
    (h : x = .ok () ↔ y = .ok ()) : x.mapError Defect.kind = y.mapError Defect.kind := by
  cases x with
  | ok u =>
    obtain rfl : y = .ok () := h.1 rfl
    rfl
  | error d =>
    cases y with
    | ok u => cases h.2 rfl
    | error e => rw [Except.mapError, Except.mapError, hx d rfl, hy e rfl]

theorem mapError_bind {x y : Except Defect Unit} :
    (x >>= fun _ => y).mapError Defect.kind =
      (x.mapError Defect.kind >>= fun _ => y.mapError Defect.kind) := by
  cases x <;> rfl

theorem kind_of_checkKeys {d : Defect} (h : p.checkKeys = .error d) :
    d.kind = .noKeyParameters := by
  obtain ⟨-, rfl⟩ := checkKeys_eq_error.1 h
  rfl

theorem kind_of_checkRoles {d : Defect} (h : p.checkRoles = .error d) : d.kind = .unknownRole := by
  obtain ⟨before, a, after, r, -, -, -, rfl⟩ := checkRoles_error h
  rfl

theorem kind_of_checkCoverage {d : Defect} (h : p.checkCoverage = .error d) :
    d.kind = .noKeyOverlap := by
  obtain ⟨before, a, after, -, -, -, rfl⟩ := checkCoverage_error h
  rfl

theorem kind_of_checkAcyclic {d : Defect} (h : p.checkAcyclic = .error d) :
    d.kind = .circularDependency := by
  obtain ⟨c, i, -, -, rfl⟩ := checkAcyclic_error h
  rfl

theorem Rearranged.verdict_eq (h : p.Rearranged q) : p.verdict = q.verdict := by
  have hkeys : p.checkKeys.mapError Defect.kind = q.checkKeys.mapError Defect.kind := by
    refine mapError_kind_congr (fun _ => kind_of_checkKeys) (fun _ => kind_of_checkKeys) ?_
    rw [checkKeys_eq_ok, checkKeys_eq_ok, Protocol.hasKey_iff, Protocol.hasKey_iff, h.hasKey_iff]
  have hroles : p.checkRoles.mapError Defect.kind = q.checkRoles.mapError Defect.kind := by
    refine mapError_kind_congr (fun _ => kind_of_checkRoles) (fun _ => kind_of_checkRoles) ?_
    rw [checkRoles_eq_ok, checkRoles_eq_ok, h.known_iff]
  have hcover : p.checkCoverage.mapError Defect.kind = q.checkCoverage.mapError Defect.kind := by
    refine mapError_kind_congr (fun _ => kind_of_checkCoverage) (fun _ => kind_of_checkCoverage) ?_
    simp only [checkCoverage_eq_ok, covers_iff, h.covered_iff]
  have hacyclic : p.checkAcyclic.mapError Defect.kind = q.checkAcyclic.mapError Defect.kind := by
    refine mapError_kind_congr (fun _ => kind_of_checkAcyclic) (fun _ => kind_of_checkAcyclic) ?_
    rw [checkAcyclic_eq_ok, checkAcyclic_eq_ok, exists_schedule_iff_arrangeable,
      exists_schedule_iff_arrangeable, h.arrangeable_iff]
  simp only [verdict, validate, mapError_bind, hkeys, hroles, hcover, hacyclic]

theorem Rearranged.key_eq (h : p.Rearranged q) : p.key = q.key := by
  rw [key, key, h.name, Parameters.keys_eq_of_perm h.params]

/-- Whatever the names are, equivalent protocols have one key and one verdict, and so have a
protocol and its canonical order. -/
theorem verdict_of_equivalent :
    (∀ p q : Protocol, p.Equivalent q → p.key = q.key ∧ p.verdict = q.verdict) ∧
    ∀ p : Protocol, p.key = p.canonical.key ∧ p.verdict = p.canonical.verdict :=
  ⟨fun _ _ h => ⟨h.rearranged.key_eq, h.rearranged.verdict_eq⟩,
    fun p => ⟨p.rearranged_canonical.key_eq, p.rearranged_canonical.verdict_eq⟩⟩

/-- Which stranger is named depends on the order of the actions. -/
theorem verdict_of_swapped_strangers :
    let id : Parameter := ⟨"id", .output, true⟩
    let lot : Parameter := ⟨"lot", .nil, true⟩
    let quote : Action := ⟨"quote", "S", "Bank", [id]⟩
    let ping : Action := ⟨"ping", "Clerk", "S", [lot]⟩
    let p : Protocol := ⟨"Offer", ["S"], [id, lot], [quote, ping]⟩
    let q : Protocol := ⟨"Offer", ["S"], [lot, id], [ping, quote]⟩
    p.Equivalent q ∧ p.validate = .error (.unknownRole "quote" "Bank") ∧
      q.validate = .error (.unknownRole "ping" "Clerk") ∧ p.key = q.key ∧
      p.verdict = q.verdict := by
  intro id lot quote ping p q
  have hpq : p.Equivalent q :=
    Rearranged.equivalent (by decide +kernel)
      ⟨rfl, .refl _, .swap lot id [],
        [quote, ping], .cons ⟨rfl, rfl, rfl, .refl _⟩ (.cons ⟨rfl, rfl, rfl, .refl _⟩ .nil),
        .swap ping quote []⟩
  obtain ⟨hkey, hverdict⟩ := verdict_of_equivalent.1 p q hpq
  exact ⟨hpq, by decide +kernel, by decide +kernel, hkey, hverdict⟩

end Protocol

end InfoProtocol
