import InfoProtocol.Graph.Cycle
import Mathlib.Logic.Relation

/-!
# The search for a cycle is exact

A node is finished when it was met and is off the path again. While the search goes on, the
targets of a finished node are finished and no cycle passes through one, and every node on the
path leads to the targets still to be followed. So a closing node lies on a cycle, and a search
that closes nothing leaves only finished nodes behind: that the roots share their marks hides no
cycle.
-/

namespace InfoProtocol.Graph

open Relation (TransGen ReflTransGen)

variable {n : Nat} {g : Graph n}

def Acyclic (g : Graph n) : Prop := ∀ a, ¬ TransGen g.Edge a a

namespace Marks

variable {m : Marks n}

def Finished (m : Marks n) (a : Fin n) : Prop := m.isMet a = true ∧ m.isOnPath a = false

theorem finished_enter {t : Fin n} (ht : m.isMet t = false) (a : Fin n) :
    (m.enter t).Finished a ↔ m.Finished a := by
  simp only [Finished, isMet_enter, isOnPath_enter]
  by_cases h : t = a
  · subst h
    simp [ht]
  · simp [h]

theorem finished_leave {t : Fin n} (ht : m.isMet t = true) (a : Fin n) :
    (m.leave t).Finished a ↔ a = t ∨ m.Finished a := by
  simp only [Finished, isMet_leave, isOnPath_leave]
  by_cases h : t = a
  · subst h
    simp [ht]
  · simp [h, Ne.symm h]

theorem isOnPath_leave_enter {t a : Fin n} {m' : Marks n} (ht : m.isOnPath t = false)
    (h : m'.isOnPath a = (m.enter t).isOnPath a) : (m'.leave t).isOnPath a = m.isOnPath a := by
  rw [isOnPath_leave, h, isOnPath_enter]
  by_cases hta : t = a
  · subst hta
    simp [ht]
  · simp [hta]

/-- What the search keeps of its marks: a finished node leads to finished nodes only and lies on
no cycle. -/
structure Settled (g : Graph n) (m : Marks n) : Prop where
  met_of_onPath : ∀ a, m.isOnPath a = true → m.isMet a = true
  closed : ∀ a b, m.Finished a → g.Edge a b → m.Finished b
  acyclic : ∀ a, m.Finished a → ¬ TransGen g.Edge a a

theorem settled_none (g : Graph n) : Settled g (none n) := by
  have hf : ∀ a, ¬ (none n).Finished a := by
    intro a h
    have := h.1
    rw [isMet_none] at this
    cases this
  refine ⟨fun a h => ?_, fun a b h => absurd h (hf a), fun a h => absurd h (hf a)⟩
  rw [isOnPath_none] at h
  cases h

theorem Settled.enter (h : Settled g m) {t : Fin n} (ht : m.isMet t = false) :
    Settled g (m.enter t) := by
  refine ⟨fun a ha => ?_, fun a b ha hab => ?_, fun a ha => ?_⟩
  · rw [isOnPath_enter, Bool.or_eq_true] at ha
    rw [isMet_enter, Bool.or_eq_true]
    exact ha.imp_right (h.met_of_onPath a)
  · rw [finished_enter ht] at ha ⊢
    exact h.closed a b ha hab
  · rw [finished_enter ht] at ha
    exact h.acyclic a ha

theorem Settled.reaches (h : Settled g m) {a b : Fin n} (ha : m.Finished a)
    (hab : ReflTransGen g.Edge a b) : m.Finished b := by
  induction hab with
  | refl => exact ha
  | tail _ hbc ih => exact h.closed _ _ ih hbc

theorem Settled.leave (h : Settled g m) {t : Fin n} (ht : m.isOnPath t = true)
    (hts : ∀ u ∈ g.targets t, m.Finished u) : Settled g (m.leave t) := by
  have hmet := h.met_of_onPath t ht
  refine ⟨fun a ha => ?_, fun a b ha hab => ?_, fun a ha hcyc => ?_⟩
  · rw [isOnPath_leave, Bool.and_eq_true] at ha
    exact h.met_of_onPath a ha.2
  · rw [finished_leave hmet] at ha ⊢
    rcases ha with rfl | ha
    · exact .inr (hts b hab)
    · exact .inr (h.closed a b ha hab)
  · rw [finished_leave hmet] at ha
    rcases ha with rfl | ha
    · -- a cycle through `t` would come back to it through finished nodes
      obtain ⟨u, hau, hua⟩ := TransGen.head'_iff.1 hcyc
      have hfin := h.reaches (hts u hau) hua
      rw [hfin.2] at ht
      cases ht
    · exact h.acyclic a ha hcyc

end Marks

theorem search_met (ts : List (Fin n)) (m : Marks n) (a : Fin n) (ha : m.isMet a = true) :
    (g.search ts m).2.isMet a = true := by
  revert ha
  refine search_induction (P := fun _ m r => m.isMet a = true → r.2.isMet a = true)
    ?_ ?_ ?_ ?_ ?_ ts m
  · intro m h
    exact h
  · intro t ts m _ h
    exact h
  · intro t ts m _ _ ih h
    exact ih h
  · intro t ts m c m' _ _ ih h
    apply ih
    simp [Marks.isMet_enter, h]
  · intro t ts m m' _ _ _ ih₁ ih₂ h
    apply ih₂
    rw [Marks.isMet_leave]
    apply ih₁
    simp [Marks.isMet_enter, h]

theorem search_onPath (ts : List (Fin n)) (m : Marks n) (hr : (g.search ts m).1 = none)
    (a : Fin n) : (g.search ts m).2.isOnPath a = m.isOnPath a := by
  revert hr
  refine search_induction (P := fun _ m r => r.1 = none → r.2.isOnPath a = m.isOnPath a)
    ?_ ?_ ?_ ?_ ?_ ts m
  · intro m _
    rfl
  · intro t ts m _ h
    cases h
  · intro t ts m _ _ ih h
    exact ih h
  · intro t ts m c m' _ _ _ h
    cases h
  · intro t ts m m' ht _ _ ih₁ ih₂ h
    exact (ih₂ h).trans (Marks.isOnPath_leave_enter ht (ih₁ rfl))

theorem onPath_of_search {ts : List (Fin n)} {m m' : Marks n} (h : g.search ts m = (none, m'))
    (a : Fin n) : m'.isOnPath a = m.isOnPath a := by
  have hpath := search_onPath ts m (congrArg Prod.fst h) a
  rwa [h] at hpath

theorem search_finished {ts : List (Fin n)} {m : Marks n} (hr : (g.search ts m).1 = none)
    {a : Fin n} (ha : m.Finished a) : (g.search ts m).2.Finished a :=
  ⟨search_met ts m a ha.1, (search_onPath ts m hr a).trans ha.2⟩

theorem search_closing (ts : List (Fin n)) (m : Marks n)
    (hm : ∀ a, m.isOnPath a = true → ∀ t ∈ ts, TransGen g.Edge a t) (c : Fin n)
    (hc : (g.search ts m).1 = some c) : TransGen g.Edge c c := by
  revert hm hc
  refine search_induction (P := fun ts m r =>
    (∀ a, m.isOnPath a = true → ∀ t ∈ ts, TransGen g.Edge a t) → r.1 = some c →
      TransGen g.Edge c c) ?_ ?_ ?_ ?_ ?_ ts m
  · intro m _ hc
    cases hc
  · intro t ts m ht hm hc
    cases hc
    exact hm c ht c List.mem_cons_self
  · intro t ts m _ _ ih hm hc
    exact ih (fun a ha u hu => hm a ha u (List.mem_cons_of_mem _ hu)) hc
  · intro t ts m c' m' _ _ ih hm hc
    refine ih (fun a ha u hu => ?_) hc
    rw [Marks.isOnPath_enter, Bool.or_eq_true, decide_eq_true_eq] at ha
    rcases ha with ha | ha
    · exact ha ▸ TransGen.single hu
    · exact (hm a ha t List.mem_cons_self).tail hu
  · intro t ts m m' ht _ hs _ ih hm hc
    refine ih (fun a ha u hu => ?_) hc
    -- once `t` has left it, the path is that of `m` again
    rw [Marks.isOnPath_leave, Bool.and_eq_true, onPath_of_search hs, Marks.isOnPath_enter] at ha
    have hta : t ≠ a := by simpa using ha.1
    have ham : m.isOnPath a = true := by simpa [hta] using ha.2
    exact hm a ham u (List.mem_cons_of_mem _ hu)

theorem search_settles (ts : List (Fin n)) (m : Marks n) (hm : m.Settled g)
    (hr : (g.search ts m).1 = none) :
    (g.search ts m).2.Settled g ∧ ∀ t ∈ ts, (g.search ts m).2.Finished t := by
  revert hm hr
  refine search_induction (P := fun ts m r => m.Settled g → r.1 = none →
    r.2.Settled g ∧ ∀ t ∈ ts, r.2.Finished t) ?_ ?_ ?_ ?_ ?_ ts m
  · intro m hm _
    exact ⟨hm, by simp⟩
  · intro t ts m _ _ hr
    cases hr
  · intro t ts m ht ht' ih hm hr
    obtain ⟨hs, hts⟩ := ih hm hr
    exact ⟨hs, List.forall_mem_cons.2 ⟨search_finished hr ⟨ht', ht⟩, hts⟩⟩
  · intro t ts m c m' _ _ _ _ hr
    cases hr
  · intro t ts m m' _ ht' he ih₁ ih₂ hm hr
    obtain ⟨hs, htargets⟩ := ih₁ (hm.enter ht') rfl
    have hpath : m'.isOnPath t = true := by
      rw [onPath_of_search he, Marks.isOnPath_enter]
      simp
    obtain ⟨hs', hts⟩ := ih₂ (hs.leave hpath htargets) hr
    have hfin : (m'.leave t).Finished t :=
      (Marks.finished_leave (hs.met_of_onPath t hpath) t).2 (.inl rfl)
    exact ⟨hs', List.forall_mem_cons.2 ⟨search_finished hr hfin, hts⟩⟩

theorem transGen_of_cycle?_eq_some {c : Fin n} (h : g.cycle? = some c) :
    TransGen g.Edge c c := by
  refine search_closing (List.finRange n) (Marks.none n) (fun a ha => ?_) c h
  rw [Marks.isOnPath_none] at ha
  cases ha

theorem acyclic_of_cycle?_eq_none (h : g.cycle? = none) : g.Acyclic := by
  obtain ⟨hs, hall⟩ := search_settles _ _ (Marks.settled_none g) h
  intro a
  exact hs.acyclic a (hall a (List.mem_finRange a))

/-- The search answers nothing exactly where no cycle is, and an answer lies on a cycle. -/
theorem cycle?_decides_acyclic (g : Graph n) :
    (g.cycle? = none ↔ g.Acyclic) ∧ ∀ a, g.cycle? = some a → TransGen g.Edge a a := by
  refine ⟨⟨acyclic_of_cycle?_eq_none, fun h => ?_⟩, fun a => transGen_of_cycle?_eq_some⟩
  cases hc : g.cycle? with
  | none => rfl
  | some c => exact absurd (transGen_of_cycle?_eq_some hc) (h c)

end InfoProtocol.Graph
