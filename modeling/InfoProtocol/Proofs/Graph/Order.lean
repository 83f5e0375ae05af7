import InfoProtocol.Proofs.Graph.Search
import Mathlib.Data.Fintype.Card
import Mathlib.Data.List.Chain

/-!
# Orders and circles of a dependency graph

The nodes of a graph without cycles come in an order in which no node depends on a later one:
they are sorted by how many nodes they reach. In a graph without loops such an order in turn
excludes cycles. Where a node reaches itself, repetitions can be cut out of the way back, which
leaves a circle of distinct nodes.
-/

namespace InfoProtocol.Graph

open Relation (TransGen ReflTransGen)

variable {n : Nat} {g : Graph n}

open Classical in
noncomputable def reach (g : Graph n) (a : Fin n) : Finset (Fin n) :=
  Finset.univ.filter (TransGen g.Edge a)

theorem mem_reach {a b : Fin n} : b ∈ g.reach a ↔ TransGen g.Edge a b := by
  simp [reach]

theorem Acyclic.card_reach_lt (h : g.Acyclic) {a b : Fin n} (hab : g.Edge a b) :
    (g.reach b).card < (g.reach a).card := by
  apply Finset.card_lt_card
  refine ⟨fun c hc => ?_, fun hsub => ?_⟩
  · exact mem_reach.2 (TransGen.head hab (mem_reach.1 hc))
  · have hb : b ∈ g.reach a := mem_reach.2 (TransGen.single hab)
    exact h b (mem_reach.1 (hsub hb))

/-- An order of all nodes in which none depends on a later one. -/
def Ordered (g : Graph n) (l : List (Fin n)) : Prop :=
  l.Perm (List.finRange n) ∧ l.Pairwise fun a b => ¬ g.Edge a b

noncomputable def byReach (g : Graph n) : List (Fin n) :=
  (List.finRange n).mergeSort fun a b => (g.reach a).card ≤ (g.reach b).card

theorem byReach_pairwise (g : Graph n) :
    g.byReach.Pairwise fun a b => (g.reach a).card ≤ (g.reach b).card := by
  have h : g.byReach.Pairwise fun a b => decide ((g.reach a).card ≤ (g.reach b).card) = true := by
    apply List.pairwise_mergeSort
    · intro a b c hab hbc
      rw [decide_eq_true_eq] at hab hbc ⊢
      exact hab.trans hbc
    · intro a b
      rw [Bool.or_eq_true, decide_eq_true_eq, decide_eq_true_eq]
      exact Nat.le_total _ _
  exact h.imp of_decide_eq_true

theorem Acyclic.exists_ordered (h : g.Acyclic) : ∃ l, g.Ordered l := by
  refine ⟨g.byReach, List.mergeSort_perm _ _, (byReach_pairwise g).imp ?_⟩
  intro a b hle hab
  have hlt := h.card_reach_lt hab
  omega

theorem Ordered.idxOf_lt {l : List (Fin n)} (h : g.Ordered l) {a b : Fin n} (hne : a ≠ b)
    (hab : g.Edge a b) : l.idxOf b < l.idxOf a := by
  have hmem : ∀ c, c ∈ l := fun c => h.1.mem_iff.2 (List.mem_finRange c)
  have ha := List.idxOf_lt_length_iff.2 (hmem a)
  have hb := List.idxOf_lt_length_iff.2 (hmem b)
  by_contra hle
  have hlt : l.idxOf a < l.idxOf b := by
    have : l.idxOf a ≠ l.idxOf b := fun e => hne ((List.idxOf_inj (hmem a)).1 e)
    omega
  have := List.pairwise_iff_getElem.1 h.2 _ _ ha hb hlt
  rw [List.getElem_idxOf, List.getElem_idxOf] at this
  exact this hab

theorem Ordered.acyclic {l : List (Fin n)} (h : g.Ordered l) (hloop : ∀ a, ¬ g.Edge a a) :
    g.Acyclic := by
  have hlt : ∀ a b, TransGen g.Edge a b → l.idxOf b < l.idxOf a := by
    intro a b hab
    induction hab with
    | single hab => exact h.idxOf_lt (fun e => hloop _ (e ▸ hab)) hab
    | tail _ hbc ih => exact (h.idxOf_lt (fun e => hloop _ (e ▸ hbc)) hbc).trans ih
  intro a ha
  exact Nat.lt_irrefl _ (hlt a a ha)

theorem exists_ordered_iff (hloop : ∀ a, ¬ g.Edge a a) : (∃ l, g.Ordered l) ↔ g.Acyclic :=
  ⟨fun ⟨_, hl⟩ => hl.acyclic hloop, Acyclic.exists_ordered⟩

variable {α : Type} {r : α → α → Prop}

/-- A list of distinct elements, each related to the next and the last one to the first. -/
def Circle (r : α → α → Prop) (c : List α) : Prop := c.Nodup ∧ (c ++ c.take 1).IsChain r

theorem exists_nodup_chain {a b : α} (h : ReflTransGen r a b) :
    ∃ l, (a :: l).IsChain r ∧ (a :: l).Nodup ∧ (a :: l).getLast? = some b := by
  induction h using ReflTransGen.head_induction_on with
  | refl => exact ⟨[], by simp, by simp, rfl⟩
  | @head a c hac _ ih =>
    obtain ⟨l, hchain, hnodup, hlast⟩ := ih
    by_cases ha : a ∈ c :: l
    · -- the way comes by `a` again: what leads up to that place is left out
      obtain ⟨s, t, hst⟩ := List.append_of_mem ha
      rw [hst] at hchain hnodup hlast
      refine ⟨t, hchain.right_of_append, hnodup.of_append_right, ?_⟩
      rwa [List.getLast?_append_of_ne_nil _ (List.cons_ne_nil a t)] at hlast
    · refine ⟨c :: l, hchain.cons_cons hac, List.nodup_cons.2 ⟨ha, hnodup⟩, ?_⟩
      rwa [List.getLast?_cons_cons]

theorem exists_circle {a : α} (h : TransGen r a a) : ∃ c, Circle r c ∧ a ∈ c := by
  obtain ⟨c, hac, hca⟩ := TransGen.head'_iff.1 h
  obtain ⟨l, hchain, hnodup, hlast⟩ := exists_nodup_chain hca
  refine ⟨c :: l, ⟨hnodup, ?_⟩, List.mem_of_getLast? hlast⟩
  apply List.isChain_append.2
  refine ⟨hchain, by simp, ?_⟩
  intro x hx y hy
  rw [hlast] at hx
  cases hx
  cases hy
  exact hac

theorem Circle.two_le_length {c : List α} (h : Circle r c) (hirr : ∀ a, ¬ r a a) {a : α}
    (ha : a ∈ c) : 2 ≤ c.length := by
  match c with
  | [] => cases ha
  | [b] => exact absurd (List.isChain_cons_cons.1 h.2).1 (hirr b)
  | _ :: _ :: _ => simp

end InfoProtocol.Graph
