/-!
# Information protocols

A protocol names its roles, its parameters and the actions by which one role sends information
to another. A parameter has a scope: an input must be known before the action, an output becomes
known by it. The parameters marked as keys identify an enactment. Declarations keep the order in
which they were made, and equality respects it.
-/

namespace InfoProtocol

abbrev Role := String

inductive Scope
  | input
  | nil
  | output
  deriving DecidableEq, Repr

namespace Scope

def word : Scope → String
  | input => "in"
  | nil => "nil"
  | output => "out"

def ofWord? (w : String) : Option Scope :=
  if w = "in" then some input
  else if w = "out" then some output
  else if w = "nil" then some nil
  else none

theorem ofWord?_word (s : Scope) : ofWord? s.word = some s := by
  cases s <;> decide

theorem word_of_ofWord? {w : String} {s : Scope} (h : ofWord? w = some s) : s.word = w := by
  simp only [ofWord?] at h
  split at h
  · next hw => cases h; exact hw.symm
  · split at h
    · next hw => cases h; exact hw.symm
    · split at h
      · next hw => cases h; exact hw.symm
      · cases h

end Scope

/-- The words of the grammar; none of them may name a protocol, a role, an action or a
parameter. -/
def reservedWords : List String := ["role", "parameter", "in", "out", "nil", "key"]

def isReserved (w : String) : Bool := reservedWords.contains w

structure Parameter where
  name : String
  scope : Scope
  isKey : Bool
  deriving DecidableEq, Repr

structure Action where
  name : String
  sender : Role
  receiver : Role
  params : List Parameter
  deriving DecidableEq, Repr

structure Protocol where
  name : String
  roles : List Role
  params : List Parameter
  actions : List Action
  deriving DecidableEq, Repr

namespace Parameters

def withScope (s : Scope) (ps : List Parameter) : List Parameter :=
  ps.filter fun p => p.scope = s

def ins (ps : List Parameter) : List Parameter := withScope .input ps

def outs (ps : List Parameter) : List Parameter := withScope .output ps

def nils (ps : List Parameter) : List Parameter := withScope .nil ps

def find? (name : String) (ps : List Parameter) : Option Parameter :=
  ps.find? fun p => p.name = name

theorem mem_withScope {s : Scope} {ps : List Parameter} {p : Parameter} :
    p ∈ withScope s ps ↔ p ∈ ps ∧ p.scope = s := by
  simp [withScope]

theorem find?_mem {name : String} {ps : List Parameter} {p : Parameter}
    (h : find? name ps = some p) : p ∈ ps ∧ p.name = name :=
  ⟨List.mem_of_find?_eq_some h, by simpa using List.find?_some h⟩

theorem find?_eq_none {name : String} {ps : List Parameter} :
    find? name ps = none ↔ ∀ p ∈ ps, p.name ≠ name := by
  simp [find?]

theorem find?_of_nodup {ps : List Parameter} (h : (ps.map (·.name)).Nodup) {p : Parameter}
    (hp : p ∈ ps) : find? p.name ps = some p := by
  induction ps with
  | nil => cases hp
  | cons a r ih =>
    simp only [List.map_cons, List.nodup_cons, List.mem_map, not_exists, not_and] at h
    rcases List.mem_cons.1 hp with rfl | hp
    · simp [find?]
    · have hne : a.name ≠ p.name := fun e => h.1 p hp e.symm
      have := ih h.2 hp
      simp only [find?] at this ⊢
      rw [List.find?_cons_of_neg (by simpa using hne), this]

end Parameters

namespace Protocol

def empty (name : String) : Protocol := ⟨name, [], [], []⟩

def addRole (p : Protocol) (r : Role) : Protocol := { p with roles := p.roles ++ [r] }

def addParam (p : Protocol) (q : Parameter) : Protocol := { p with params := p.params ++ [q] }

def addAction (p : Protocol) (a : Action) : Protocol := { p with actions := p.actions ++ [a] }

def hasRole (p : Protocol) (r : Role) : Bool := p.roles.contains r

def findAction (p : Protocol) (name : String) : Option Action :=
  p.actions.find? fun a => a.name = name

def hasKey (p : Protocol) : Bool := p.params.any (·.isKey)

end Protocol

end InfoProtocol
