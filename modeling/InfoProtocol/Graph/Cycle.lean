import InfoProtocol.Graph

/-!
# The search for a cycle

A depth-first search that marks the nodes it has met and those on the current path. The marks are
handed on from each target to the next and from each root to the next, so no node is entered
twice. A target on the current path closes a cycle and is the answer; a target met before but off
the path is passed over. Each entry uses up an unmet node, which bounds the search; its course is
stated by `search_nil`, `search_cons` and an induction along it.
-/

namespace InfoProtocol.Graph

variable {n : Nat}

structure Marks (n : Nat) where
  met : Vector Bool n
  onPath : Vector Bool n

namespace Marks

def none (n : Nat) : Marks n := ⟨Vector.replicate n false, Vector.replicate n false⟩

def isMet (m : Marks n) (a : Fin n) : Bool := getElem m.met a a.isLt

def isOnPath (m : Marks n) (a : Fin n) : Bool := getElem m.onPath a a.isLt

def enter (m : Marks n) (a : Fin n) : Marks n := ⟨m.met.set a true a.isLt, m.onPath.set a true a.isLt⟩

def leave (m : Marks n) (a : Fin n) : Marks n := { m with onPath := m.onPath.set a false a.isLt }

def unmet (m : Marks n) : Nat := (List.finRange n).countP fun a => !m.isMet a

theorem isMet_none (a : Fin n) : (none n).isMet a = false := by simp [isMet, none]

theorem isOnPath_none (a : Fin n) : (none n).isOnPath a = false := by simp [isOnPath, none]

theorem isMet_enter (m : Marks n) (a b : Fin n) :
    (m.enter a).isMet b = (decide (a = b) || m.isMet b) := by
  by_cases h : a = b <;> simp [isMet, enter, Vector.getElem_set, Fin.ext_iff] at h ⊢

theorem isOnPath_enter (m : Marks n) (a b : Fin n) :
    (m.enter a).isOnPath b = (decide (a = b) || m.isOnPath b) := by
  by_cases h : a = b <;> simp [isOnPath, enter, Vector.getElem_set, Fin.ext_iff] at h ⊢

theorem isMet_leave (m : Marks n) (a b : Fin n) : (m.leave a).isMet b = m.isMet b := rfl

theorem isOnPath_leave (m : Marks n) (a b : Fin n) :
    (m.leave a).isOnPath b = (!decide (a = b) && m.isOnPath b) := by
  by_cases h : a = b <;> simp [isOnPath, leave, Vector.getElem_set, Fin.ext_iff] at h ⊢

theorem countP_lt {α : Type} {p q : α → Bool} {l : List α} (h : ∀ x ∈ l, p x = true → q x = true)
    {a : α} (ha : a ∈ l) (hp : p a = false) (hq : q a = true) : l.countP p < l.countP q := by
  induction l with
  | nil => cases ha
  | cons b r ih =>
    have hr : ∀ x ∈ r, p x = true → q x = true := fun x hx => h x (List.mem_cons_of_mem _ hx)
    have hle := List.countP_mono_left hr
    rw [List.countP_cons, List.countP_cons]
    rcases List.mem_cons.1 ha with rfl | ha
    · simp only [hp, hq, Bool.false_eq_true, if_false, if_true]
      omega
    · have hlt := ih hr ha
      have hb := h b List.mem_cons_self
      split
      · next hpb =>
        rw [if_pos (hb hpb)]
        omega
      · split <;> omega

theorem unmet_enter {m : Marks n} {a : Fin n} (h : m.isMet a = false) :
    (m.enter a).unmet < m.unmet := by
  refine countP_lt (fun b _ hb => ?_) (List.mem_finRange a) ?_ ?_
  · rw [isMet_enter] at hb
    simp only [Bool.not_or, Bool.and_eq_true] at hb
    exact hb.2
  · simp [isMet_enter]
  · simp [h]

end Marks

/-- What a search comes back with: the node that closes a cycle, if it met one, and the marks it
leaves behind. -/
structure Found (n : Nat) (m : Marks n) where
  closing : Option (Fin n)
  marks : Marks n
  unmet_le : marks.unmet ≤ m.unmet

def explore (g : Graph n) (ts : List (Fin n)) (m : Marks n) : Found n m :=
  match ts with
  | [] => ⟨none, m, Nat.le_refl _⟩
  | t :: ts =>
    if m.isOnPath t then ⟨some t, m, Nat.le_refl _⟩
    else if h : m.isMet t = true then g.explore ts m
    else
      have ht : (m.enter t).unmet < m.unmet := Marks.unmet_enter (by simpa using h)
      match g.explore (g.targets t) (m.enter t) with
      | ⟨some c, m', hm⟩ => ⟨some c, m', Nat.le_of_lt (Nat.lt_of_le_of_lt hm ht)⟩
      | ⟨none, m', hm⟩ =>
        have hm' : (m'.leave t).unmet < m.unmet := Nat.lt_of_le_of_lt hm ht
        match g.explore ts (m'.leave t) with
        | ⟨c, m'', h⟩ => ⟨c, m'', Nat.le_trans h (Nat.le_of_lt hm')⟩
termination_by (m.unmet, ts.length)

def search (g : Graph n) (ts : List (Fin n)) (m : Marks n) : Option (Fin n) × Marks n :=
  ((g.explore ts m).closing, (g.explore ts m).marks)

theorem search_nil (g : Graph n) (m : Marks n) : g.search [] m = (none, m) := by
  simp [search, explore]

theorem search_cons (g : Graph n) (t : Fin n) (ts : List (Fin n)) (m : Marks n) :
    g.search (t :: ts) m =
      if m.isOnPath t then (some t, m)
      else if m.isMet t then g.search ts m
      else
        match g.search (g.targets t) (m.enter t) with
        | (some c, m') => (some c, m')
        | (none, m') => g.search ts (m'.leave t) := by
  rw [search, explore]
  split
  · rfl
  · split
    · rfl
    · simp only [search]
      split
      · next h => simp [h]
      · next h => simp [h]

theorem search_unmet (g : Graph n) (ts : List (Fin n)) (m : Marks n) :
    (g.search ts m).2.unmet ≤ m.unmet :=
  (g.explore ts m).unmet_le

/-- Enters a node, follows its targets, and takes it off the path again if they close no cycle. -/
def visit (g : Graph n) (a : Fin n) (m : Marks n) : Option (Fin n) × Marks n :=
  match g.search (g.targets a) (m.enter a) with
  | (some c, m') => (some c, m')
  | (none, m') => (none, m'.leave a)

theorem search_cons_visit (g : Graph n) (t : Fin n) (ts : List (Fin n)) (m : Marks n) :
    g.search (t :: ts) m =
      if m.isOnPath t then (some t, m)
      else if m.isMet t then g.search ts m
      else
        match g.visit t m with
        | (some c, m') => (some c, m')
        | (none, m') => g.search ts m' := by
  rw [search_cons, visit]
  split
  · rfl
  · split
    · rfl
    · split <;> rfl

/-- A node that lies on a cycle, searched from every node in ascending order. -/
def cycle? (g : Graph n) : Option (Fin n) := (g.search (List.finRange n) (Marks.none n)).1

/-- What holds of a search may be shown along its course: where there is no target left, where the
next one is on the path or was met before, and where it is new and closes a cycle or does not. -/
theorem search_induction {g : Graph n}
    {P : List (Fin n) → Marks n → Option (Fin n) × Marks n → Prop}
    (nil : ∀ m, P [] m (none, m))
    (onPath : ∀ t ts m, m.isOnPath t = true → P (t :: ts) m (some t, m))
    (met : ∀ t ts m, m.isOnPath t = false → m.isMet t = true →
      P ts m (g.search ts m) → P (t :: ts) m (g.search ts m))
    (closes : ∀ t ts m c m', m.isOnPath t = false → m.isMet t = false →
      P (g.targets t) (m.enter t) (some c, m') → P (t :: ts) m (some c, m'))
    (goesOn : ∀ t ts m m', m.isOnPath t = false → m.isMet t = false →
      g.search (g.targets t) (m.enter t) = (none, m') →
      P (g.targets t) (m.enter t) (none, m') →
      P ts (m'.leave t) (g.search ts (m'.leave t)) →
      P (t :: ts) m (g.search ts (m'.leave t)))
    (ts : List (Fin n)) (m : Marks n) : P ts m (g.search ts m) := by
  match ts with
  | [] => exact search_nil g m ▸ nil m
  | t :: ts =>
    rw [search_cons]
    split
    · next h => exact onPath t ts m h
    · next h =>
      have h : m.isOnPath t = false := by simpa using h
      split
      · next h' => exact met t ts m h h' (search_induction nil onPath met closes goesOn ts m)
      · next h' =>
        have h' : m.isMet t = false := by simpa using h'
        have ht : (m.enter t).unmet < m.unmet := Marks.unmet_enter h'
        have hi := search_induction nil onPath met closes goesOn (g.targets t) (m.enter t)
        have hu := search_unmet g (g.targets t) (m.enter t)
        generalize he : g.search (g.targets t) (m.enter t) = r at hi hu
        match r with
        | (some c, m') => exact closes t ts m c m' h h' hi
        | (none, m') =>
          have hm' : (m'.leave t).unmet < m.unmet := Nat.lt_of_le_of_lt hu ht
          exact goesOn t ts m m' h h' he hi
            (search_induction nil onPath met closes goesOn ts (m'.leave t))
termination_by (m.unmet, ts.length)

end InfoProtocol.Graph
