import InfoProtocol.Enactment
import InfoProtocol.Proofs.Graph.Order

/-!
# What validation accepts

A protocol can be enacted if it has a key, knows the roles of its actions, shares a key with each
action, and its actions come in an order in which none reads what a later one outputs. Validation
accepts exactly these protocols. Any other it refuses for the first of the four conditions that
fails, and it names the first action that breaks it or an action on a circle of readers.
-/

namespace InfoProtocol

open Relation (TransGen)

namespace Action

def Reads (a b : Action) : Prop :=
  ∃ q ∈ a.params, q.scope = .input ∧ ∃ r ∈ b.params, r.scope = .output ∧ r.name = q.name

theorem reads_iff {a b : Action} : a.Reads b ↔ a.readsFrom b = true := by
  simp only [Reads, readsFrom_iff, inNames, outNames, Parameters.ins, Parameters.outs,
    List.mem_map, Parameters.mem_withScope]
  constructor
  · intro h
    obtain ⟨q, hq, hqs, r, hr, hrs, hrq⟩ := h
    exact ⟨q.name, ⟨q, ⟨hq, hqs⟩, rfl⟩, r, ⟨hr, hrs⟩, hrq⟩
  · intro h
    obtain ⟨x, ⟨q, ⟨hq, hqs⟩, rfl⟩, r, ⟨hr, hrs⟩, hrq⟩ := h
    exact ⟨q, hq, hqs, r, hr, hrs, hrq⟩

instance (a b : Action) : Decidable (a.Reads b) := decidable_of_iff _ reads_iff.symm

def Known (roles : List Role) (a : Action) : Prop := a.sender ∈ roles ∧ a.receiver ∈ roles

instance (roles : List Role) (a : Action) : Decidable (a.Known roles) :=
  inferInstanceAs (Decidable (_ ∧ _))

theorem strangerAmong_eq_none {roles : List Role} {a : Action} :
    a.strangerAmong roles = none ↔ a.Known roles := by
  simp [strangerAmong, Known]

theorem strangerAmong_eq_some {roles : List Role} {a : Action} {r : Role} :
    a.strangerAmong roles = some r ↔
      a.sender ∉ roles ∧ r = a.sender ∨
        a.sender ∈ roles ∧ a.receiver ∉ roles ∧ r = a.receiver := by
  by_cases hs : a.sender ∈ roles <;> by_cases hr : a.receiver ∈ roles <;>
    simp [strangerAmong, hs, hr, eq_comm]

end Action

namespace Protocol

def HasKey (p : Protocol) : Prop := ∃ q ∈ p.params, q.isKey = true

def Covers (p : Protocol) (a : Action) : Prop :=
  ∃ q ∈ a.params, ∃ k ∈ p.params, k.isKey = true ∧ k.name = q.name

def Depends (p : Protocol) (a b : Fin p.actions.length) : Prop :=
  a ≠ b ∧ (p.actions.get a).Reads (p.actions.get b)

/-- An order of the actions, by their places, in which none reads from a later one. -/
def Schedule (p : Protocol) (l : List (Fin p.actions.length)) : Prop :=
  l.Perm (List.finRange p.actions.length) ∧
    l.Pairwise fun a b => ¬ (p.actions.get a).Reads (p.actions.get b)

structure Enactable (p : Protocol) : Prop where
  hasKey : p.HasKey
  known : ∀ a ∈ p.actions, a.Known p.roles
  covered : ∀ a ∈ p.actions, p.Covers a
  schedule : ∃ l, p.Schedule l

/-- Two or more distinct actions, each reading from the next and the last one from the first. -/
def ReadsInCircle (p : Protocol) (c : List (Fin p.actions.length)) : Prop :=
  2 ≤ c.length ∧ Graph.Circle (fun a b => (p.actions.get a).Reads (p.actions.get b)) c

inductive FirstDefect (p : Protocol) : Defect → Prop
  | noKey (hk : ¬ p.HasKey) : FirstDefect p (.noKeyParameters p.name)
  | unknown (hk : p.HasKey) {before after : List Action} {a : Action} {r : Role}
      (ha : p.actions = before ++ a :: after) (hb : ∀ b ∈ before, b.Known p.roles)
      (hr : a.sender ∉ p.roles ∧ r = a.sender ∨
        a.sender ∈ p.roles ∧ a.receiver ∉ p.roles ∧ r = a.receiver) :
      FirstDefect p (.unknownRole a.name r)
  | uncovered (hk : p.HasKey) (hr : ∀ a ∈ p.actions, a.Known p.roles)
      {before after : List Action} {a : Action}
      (ha : p.actions = before ++ a :: after) (hb : ∀ b ∈ before, p.Covers b)
      (hc : ¬ p.Covers a) : FirstDefect p (.noKeyOverlap a.name p.name)
  | circular (hk : p.HasKey) (hr : ∀ a ∈ p.actions, a.Known p.roles)
      (hc : ∀ a ∈ p.actions, p.Covers a) {c : List (Fin p.actions.length)}
      {i : Fin p.actions.length} (hi : i ∈ c) (h : p.ReadsInCircle c) :
      FirstDefect p (.circularDependency (p.actions.get i).name)

variable {p : Protocol}

theorem hasKey_iff : p.hasKey = true ↔ p.HasKey := by
  simp [hasKey, HasKey]

theorem covers_iff {a : Action} : p.covers a = true ↔ p.Covers a := by
  simp only [covers, Covers, keyNames, List.any_eq_true, List.contains_iff_mem, List.mem_map,
    Parameters.mem_keys]
  constructor
  · intro h
    obtain ⟨q, hq, k, ⟨hk, hkey⟩, hn⟩ := h
    exact ⟨q, hq, k, hk, hkey, hn⟩
  · intro h
    obtain ⟨q, hq, k, hk, hkey, hn⟩ := h
    exact ⟨q, hq, k, ⟨hk, hkey⟩, hn⟩

instance : Decidable p.HasKey := decidable_of_iff _ hasKey_iff

instance (a : Action) : Decidable (p.Covers a) :=
  inferInstanceAs (Decidable (∃ q ∈ a.params, ∃ k ∈ p.params, k.isKey = true ∧ k.name = q.name))

theorem edge_iff {a b : Fin p.actions.length} :
    (Graph.ofActions p.actions).Edge a b ↔ p.Depends a b := by
  rw [Graph.edge_ofActions, Depends, Action.reads_iff]

theorem loopless (a : Fin p.actions.length) : ¬ (Graph.ofActions p.actions).Edge a a := by
  rw [edge_iff]
  exact fun h => h.1 rfl

theorem schedule_iff {l : List (Fin p.actions.length)} :
    p.Schedule l ↔ (Graph.ofActions p.actions).Ordered l := by
  refine and_congr_right fun hl => ?_
  have hnodup : l.Nodup := hl.nodup_iff.2 (List.nodup_finRange _)
  constructor
  · intro h
    exact h.imp fun hab he => hab (edge_iff.1 he).2
  · intro h
    refine (h.and hnodup).imp fun hab hr => ?_
    exact hab.1 (edge_iff.2 ⟨hab.2, hr⟩)

theorem exists_schedule_iff :
    (∃ l, p.Schedule l) ↔ (Graph.ofActions p.actions).cycle? = none := by
  simp only [schedule_iff, Graph.exists_ordered_iff loopless]
  constructor
  · intro h
    cases hc : (Graph.ofActions p.actions).cycle? with
    | none => rfl
    | some a => exact absurd (Graph.transGen_of_cycle?_eq_some hc) (h a)
  · exact Graph.acyclic_of_cycle?_eq_none

theorem schedule_finRange (h : p.actions.Pairwise fun a b => ¬ a.Reads b) :
    p.Schedule (List.finRange p.actions.length) := by
  refine ⟨.refl _, ?_⟩
  rw [List.pairwise_iff_getElem]
  intro a b ha hb hab
  simpa using List.pairwise_iff_getElem.1 h a b (by simpa using ha) (by simpa using hb) hab

theorem exists_readsInCircle {a : Fin p.actions.length}
    (h : (Graph.ofActions p.actions).cycle? = some a) : ∃ c, p.ReadsInCircle c ∧ a ∈ c := by
  obtain ⟨c, hc, ha⟩ := Graph.exists_circle (Graph.transGen_of_cycle?_eq_some h)
  refine ⟨c, ⟨hc.two_le_length loopless ha, hc.1, hc.2.imp ?_⟩, ha⟩
  intro a b hab
  exact (edge_iff.1 hab).2

theorem checkKeys_eq_error {d : Defect} :
    p.checkKeys = .error d ↔ ¬ p.HasKey ∧ d = .noKeyParameters p.name := by
  simp only [checkKeys, ← hasKey_iff]
  split
  · next h => simp [h]
  · next h => simp [h, eq_comm]

theorem checkRoles_eq_ok : p.checkRoles = .ok () ↔ ∀ a ∈ p.actions, a.Known p.roles := by
  simp only [checkRoles]
  split
  · next d h =>
    obtain ⟨a, ha, hd⟩ := List.exists_of_findSome?_eq_some h
    simp only [reduceCtorEq, false_iff]
    intro hall
    rw [Action.strangerAmong_eq_none.2 (hall a ha)] at hd
    cases hd
  · next h => simpa [Action.strangerAmong_eq_none] using h

theorem checkRoles_error {d : Defect} (h : p.checkRoles = .error d) :
    ∃ before a after r, p.actions = before ++ a :: after ∧ (∀ b ∈ before, b.Known p.roles) ∧
      a.strangerAmong p.roles = some r ∧ d = .unknownRole a.name r := by
  simp only [checkRoles] at h
  split at h
  · next d' h' =>
    cases h
    obtain ⟨before, a, after, ha, hd, hb⟩ := List.findSome?_eq_some_iff.1 h'
    obtain ⟨r, hr, rfl⟩ := Option.map_eq_some_iff.1 hd
    refine ⟨before, a, after, r, ha, fun b hmem => ?_, hr, rfl⟩
    have := hb b hmem
    rwa [Option.map_eq_none_iff, Action.strangerAmong_eq_none] at this
  · cases h

theorem checkCoverage_error {d : Defect} (h : p.checkCoverage = .error d) :
    ∃ before a after, p.actions = before ++ a :: after ∧ (∀ b ∈ before, p.Covers b) ∧
      ¬ p.Covers a ∧ d = .noKeyOverlap a.name p.name := by
  simp only [checkCoverage] at h
  split at h
  · next a h' =>
    cases h
    obtain ⟨hc, before, after, ha, hb⟩ := List.find?_eq_some_iff_append.1 h'
    refine ⟨before, a, after, ha, fun b hmem => ?_, ?_, rfl⟩
    · have := hb b hmem
      rw [← covers_iff]
      simpa using this
    · rw [← covers_iff]
      simpa using hc
  · cases h

theorem checkAcyclic_eq_ok : p.checkAcyclic = .ok () ↔ ∃ l, p.Schedule l := by
  rw [exists_schedule_iff, checkAcyclic]
  split
  · next h => simp [h]
  · next h => simp [h]

theorem checkAcyclic_error {d : Defect} (h : p.checkAcyclic = .error d) :
    ∃ c i, p.ReadsInCircle c ∧ i ∈ c ∧ d = .circularDependency (p.actions.get i).name := by
  simp only [checkAcyclic] at h
  split at h
  · next i h' =>
    cases h
    obtain ⟨c, hc, hi⟩ := exists_readsInCircle h'
    exact ⟨c, i, hc, hi, rfl⟩
  · cases h

theorem bind_eq_ok {x y : Except Defect Unit} :
    (x >>= fun _ => y) = .ok () ↔ x = .ok () ∧ y = .ok () := by
  cases x <;> simp [bind, Except.bind]

theorem bind_eq_error {x y : Except Defect Unit} {d : Defect} :
    (x >>= fun _ => y) = .error d ↔ x = .error d ∨ x = .ok () ∧ y = .error d := by
  cases x <;> simp [bind, Except.bind]

theorem validate_eq_ok : p.validate = .ok () ↔ p.Enactable := by
  simp only [validate, bind_eq_ok, checkKeys_eq_ok, checkRoles_eq_ok, checkCoverage_eq_ok,
    checkAcyclic_eq_ok, hasKey_iff, covers_iff]
  constructor
  · intro h
    obtain ⟨hk, hr, hc, hs⟩ := h
    exact ⟨hk, hr, hc, hs⟩
  · intro h
    obtain ⟨hk, hr, hc, hs⟩ := h
    exact ⟨hk, hr, hc, hs⟩

theorem firstDefect_of_validate {d : Defect} (h : p.validate = .error d) :
    p.FirstDefect d := by
  simp only [validate, bind_eq_error, checkKeys_eq_ok, checkRoles_eq_ok, checkCoverage_eq_ok,
    hasKey_iff, covers_iff] at h
  rcases h with h | ⟨hk, h | ⟨hr, h | ⟨hc, h⟩⟩⟩
  · obtain ⟨hk, rfl⟩ := checkKeys_eq_error.1 h
    exact .noKey hk
  · obtain ⟨before, a, after, r, ha, hb, hr, rfl⟩ := checkRoles_error h
    exact .unknown hk ha hb (Action.strangerAmong_eq_some.1 hr)
  · obtain ⟨before, a, after, ha, hb, hc, rfl⟩ := checkCoverage_error h
    exact .uncovered hk hr ha hb hc
  · obtain ⟨c, i, hcirc, hi, rfl⟩ := checkAcyclic_error h
    exact .circular hk hr hc hi hcirc

/-- Validation accepts the protocols that can be enacted, and refuses every other for its first
defect. -/
theorem validate_decides_enactable (p : Protocol) :
    (p.validate = .ok () ↔ p.Enactable) ∧ ∀ d, p.validate = .error d → p.FirstDefect d :=
  ⟨validate_eq_ok, fun _ => firstDefect_of_validate⟩

end Protocol

end InfoProtocol
