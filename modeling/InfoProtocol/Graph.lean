/-!
# Dependency graphs

A graph over the nodes `0, …, n - 1`, each with the list of nodes it depends on. The targets are
nodes of the graph by their type; a list may repeat a node or hold the node itself.
-/

namespace InfoProtocol

structure Graph (n : Nat) where
  rows : Vector (List (Fin n)) n
  deriving DecidableEq

namespace Graph

variable {n : Nat}

def targets (g : Graph n) (a : Fin n) : List (Fin n) := g.rows[a]

def Edge (g : Graph n) (a b : Fin n) : Prop := b ∈ g.targets a

instance (g : Graph n) (a b : Fin n) : Decidable (g.Edge a b) :=
  inferInstanceAs (Decidable (b ∈ g.targets a))

def ofTargets (f : Fin n → List (Fin n)) : Graph n := ⟨Vector.ofFn f⟩

@[simp] theorem targets_ofTargets (f : Fin n → List (Fin n)) (a : Fin n) :
    (ofTargets f).targets a = f a := by
  simp [targets, ofTargets]

/-- The nodes that node `a` depends on, as numbers; a number that is no node depends on none. -/
def row (g : Graph n) (a : Nat) : List Nat :=
  if h : a < n then (g.targets ⟨a, h⟩).map Fin.val else []

def ofLists? (ls : List (List Nat)) : Option (Graph ls.length) :=
  if h : ∀ l ∈ ls, ∀ b ∈ l, b < ls.length then
    some (ofTargets fun a => ls[a].attach.map fun b =>
      ⟨b.val, h ls[a] (List.getElem_mem _) b.val b.property⟩)
  else none

theorem row_ofLists? {ls : List (List Nat)} {g : Graph ls.length} (h : ofLists? ls = some g)
    (a : Fin ls.length) : g.row a = ls[a] := by
  simp only [ofLists?] at h
  split at h
  · cases h
    simp [row, List.map_map, Function.comp_def]
  · cases h

end Graph

end InfoProtocol
