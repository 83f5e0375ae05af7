import InfoProtocol.Proofs.Graph.Search
import Mathlib.Data.List.Basic

/-!
# What a visit marks

A path is white if none of its nodes was met before. A visit that closes no cycle meets exactly the
nodes to which a white path leads from the node it enters, and leaves the marks of the nodes on the
current path as they were. The targets in front take nodes away from those behind; but a white path
that comes by such a node goes on from it, so all it leads to was met with that node.
-/

namespace InfoProtocol.Graph

variable {n : Nat} {g : Graph n} {m m' : Marks n} {a b c t : Fin n} {ts : List (Fin n)}

/-- A path along edges through nodes that were not met, its ends among them. -/
inductive WhitePath (g : Graph n) (m : Marks n) (a : Fin n) : Fin n → Prop
  | here (ha : m.isMet a = false) : WhitePath g m a a
  | step {b c : Fin n} (h : WhitePath g m a b) (hbc : g.Edge b c) (hc : m.isMet c = false) :
      WhitePath g m a c

namespace WhitePath

theorem unmet_first (h : WhitePath g m a b) : m.isMet a = false := by
  induction h with
  | here ha => exact ha
  | step _ _ _ ih => exact ih

theorem trans (hab : WhitePath g m a b) (hbc : WhitePath g m b c) : WhitePath g m a c := by
  induction hbc with
  | here => exact hab
  | step _ hcd hd ih => exact ih.step hcd hd

theorem mono (hm : ∀ c, m.isMet c = true → m'.isMet c = true) (h : WhitePath g m' a b) :
    WhitePath g m a b := by
  have hunmet : ∀ {c}, m'.isMet c = false → m.isMet c = false := by
    intro c hc
    rw [← Bool.not_eq_true] at hc ⊢
    exact fun h => hc (hm c h)
  induction h with
  | here ha => exact .here (hunmet ha)
  | step _ hbc hc ih => exact ih.step hbc (hunmet hc)

theorem iff_target (ht : m.isMet t = false) :
    WhitePath g m t b ↔ t = b ∨ ∃ u ∈ g.targets t, WhitePath g (m.enter t) u b := by
  have henter : ∀ c, m.isMet c = true → (m.enter t).isMet c = true := by
    intro c hc
    rw [Marks.isMet_enter, hc, Bool.or_true]
  constructor
  · intro h
    induction h with
    | here => exact .inl rfl
    | @step b c _ hbc hc ih =>
      by_cases htc : t = c
      · exact .inl htc
      · have hc' : (m.enter t).isMet c = false := by simp [Marks.isMet_enter, htc, hc]
        rcases ih with rfl | ⟨u, hu, hub⟩
        · exact .inr ⟨c, hbc, .here hc'⟩
        · exact .inr ⟨u, hu, hub.step hbc hc'⟩
  · rintro (rfl | ⟨u, hu, hub⟩)
    · exact .here ht
    · have hub' : WhitePath g m u b := hub.mono henter
      exact trans ((WhitePath.here ht).step hu hub'.unmet_first) hub'

/-- If what was met since is where white paths lead from `t`, a white path is one still, or its end
is among that. -/
theorem still_or (hm : ∀ c, m'.isMet c = true ↔ m.isMet c = true ∨ WhitePath g m t c)
    (h : WhitePath g m a b) : WhitePath g m' a b ∨ WhitePath g m t b := by
  have hunmet : ∀ {c}, m.isMet c = false → m'.isMet c = false ∨ WhitePath g m t c := by
    intro c hc
    by_cases hc' : m'.isMet c = true
    · rcases (hm c).1 hc' with h | h
      · rw [hc] at h
        cases h
      · exact .inr h
    · exact .inl (by simpa using hc')
  induction h with
  | here ha => exact (hunmet ha).imp_left .here
  | step _ hbc hc ih =>
    rcases ih with ih | ih
    · exact (hunmet hc).imp_left (ih.step hbc)
    · exact .inr (ih.step hbc hc)

end WhitePath

theorem isMet_leave_iff (ht : m.isMet t = false)
    (h : ∀ b, m'.isMet b = true ↔
      (m.enter t).isMet b = true ∨ ∃ u ∈ g.targets t, WhitePath g (m.enter t) u b) (b : Fin n) :
    (m'.leave t).isMet b = true ↔ m.isMet b = true ∨ WhitePath g m t b := by
  rw [Marks.isMet_leave, h, WhitePath.iff_target ht, Marks.isMet_enter, Bool.or_eq_true,
    decide_eq_true_eq, or_assoc, or_left_comm]

theorem search_met_iff (ts : List (Fin n)) (m : Marks n) (hr : (g.search ts m).1 = none) (b : Fin n) :
    (g.search ts m).2.isMet b = true ↔ m.isMet b = true ∨ ∃ t ∈ ts, WhitePath g m t b := by
  revert b hr
  refine search_induction (P := fun ts m r => r.1 = none → ∀ b,
    r.2.isMet b = true ↔ m.isMet b = true ∨ ∃ t ∈ ts, WhitePath g m t b) ?_ ?_ ?_ ?_ ?_ ts m
  · intro m _ b
    simp
  · intro t ts m _ hr
    cases hr
  · intro t ts m _ ht ih hr b
    -- no white path begins at a node that was met
    have hnone : ¬ WhitePath g m t b := by
      intro h
      rw [h.unmet_first] at ht
      cases ht
    rw [ih hr b, List.exists_mem_cons_iff, or_iff_right hnone]
  · intro t ts m c m' _ _ _ hr
    cases hr
  · intro t ts m m' _ ht _ ih₁ ih₂ hr b
    have hmet := isMet_leave_iff ht (ih₁ rfl)
    rw [ih₂ hr b, hmet, List.exists_mem_cons_iff, or_assoc]
    refine or_congr_right ⟨fun h => ?_, fun h => ?_⟩
    · exact h.imp_right fun ⟨u, hu, hub⟩ => ⟨u, hu, hub.mono fun c hc => (hmet c).2 (.inl hc)⟩
    · rcases h with h | ⟨u, hu, hub⟩
      · exact .inl h
      · exact (hub.still_or hmet).symm.imp_right fun hub' => ⟨u, hu, hub'⟩

/-- A visit that closes no cycle leaves the current path as it was and meets, besides what was met
before, exactly the nodes to which a white path leads from the node it enters. -/
theorem visit_meets_white (hpath : ∀ b, m.isOnPath b = true → m.isMet b = true)
    (ha : m.isMet a = false) (h : (g.visit a m).1 = none) :
    (g.visit a m).2.onPath = m.onPath ∧
      ∀ b, (g.visit a m).2.isMet b = true ↔ m.isMet b = true ∨ WhitePath g m a b := by
  have hoff : m.isOnPath a = false := by
    rw [← Bool.not_eq_true] at ha ⊢
    exact fun hon => ha (hpath a hon)
  rw [visit] at h ⊢
  generalize hs : g.search (g.targets a) (m.enter a) = r at h ⊢
  obtain ⟨_ | c, m'⟩ := r
  · constructor
    · refine Vector.ext fun i hi => ?_
      have hsame := onPath_of_search hs ⟨i, hi⟩
      exact Marks.isOnPath_leave_enter hoff hsame
    · have hmet := search_met_iff (g.targets a) (m.enter a) (congrArg Prod.fst hs)
      rw [hs] at hmet
      exact isMet_leave_iff ha hmet
  · cases h

/-- Node `3` was met before, so the visit stops in front of it and does not come to node `4`. -/
theorem visit_meets_white_stopped :
    let g : Graph 6 := ofTargets fun
      | 0 => [1, 3]
      | 1 => [2]
      | 2 => [3]
      | 3 => [4]
      | _ => []
    let m : Marks 6 := (((Marks.none 6).enter 3).leave 3).enter 5
    (∀ b, m.isOnPath b = true → m.isMet b = true) ∧ m.isMet 0 = false ∧ (g.visit 0 m).1 = none ∧
      (g.visit 0 m).2.onPath = m.onPath ∧ (g.visit 0 m).2.isMet 2 = true ∧ WhitePath g m 0 2 ∧
      (g.visit 0 m).2.isMet 4 = false ∧ ¬ WhitePath g m 0 4 := by
  intro g m
  have hpath : ∀ b, m.isOnPath b = true → m.isMet b = true := by decide
  have ha : m.isMet 0 = false := by decide
  have hrun : g.visit 0 m =
      (none, (((((m.enter 0).enter 1).enter 2).leave 2).leave 1).leave 0) := by
    simp only [visit, search_cons, search_nil, g, targets_ofTargets]
    rfl
  have hvisit : (g.visit 0 m).1 = none := congrArg Prod.fst hrun
  have h₂ : (g.visit 0 m).2.isMet 2 = true := by
    rw [hrun]
    decide
  have h₄ : (g.visit 0 m).2.isMet 4 = false := by
    rw [hrun]
    decide
  obtain ⟨honPath, hmet⟩ := visit_meets_white hpath ha hvisit
  refine ⟨hpath, ha, hvisit, honPath, h₂, ?_, h₄, fun hwhite => ?_⟩
  · exact ((hmet 2).1 h₂).resolve_left (by decide)
  · rw [(hmet 4).2 (.inr hwhite)] at h₄
    cases h₄

end InfoProtocol.Graph
