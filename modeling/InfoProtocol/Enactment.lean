import InfoProtocol.Protocol.Order
import InfoProtocol.Graph.Cycle

/-!
# Protocols that can be enacted

Four conditions, judged in this order: some parameter of the protocol is a key; the sender and
the receiver of each action are declared roles; each action has a parameter named like a key of
the protocol; and no actions wait for each other's outputs in a circle. The first that fails is
the defect, with the first action that breaks it.
-/

namespace InfoProtocol

inductive Defect
  | noKeyParameters (protocol : String)
  | unknownRole (action : String) (role : Role)
  | noKeyOverlap (action protocol : String)
  | circularDependency (action : String)
  deriving DecidableEq, Repr

def Defect.message : Defect → String
  | noKeyParameters p => "Protocol '" ++ p ++ "' declares no key parameters"
  | unknownRole a r => "Action '" ++ a ++ "' references unknown role '" ++ r ++ "'"
  | noKeyOverlap a p => "Action '" ++ a ++ "' has no key parameters in common with '" ++ p ++ "'"
  | circularDependency a => "Circular dependency at action '" ++ a ++ "'"

namespace Action

def inNames (a : Action) : List String := (Parameters.ins a.params).map (·.name)

def outNames (a : Action) : List String := (Parameters.outs a.params).map (·.name)

def readsFrom (a b : Action) : Bool := b.outNames.any fun x => a.inNames.contains x

theorem readsFrom_iff {a b : Action} :
    a.readsFrom b = true ↔ ∃ x, x ∈ a.inNames ∧ x ∈ b.outNames := by
  simp only [readsFrom, List.any_eq_true, List.contains_iff_mem]
  exact ⟨fun ⟨x, hb, ha⟩ => ⟨x, ha, hb⟩, fun ⟨x, ha, hb⟩ => ⟨x, hb, ha⟩⟩

def strangerAmong (roles : List Role) (a : Action) : Option Role :=
  [a.sender, a.receiver].find? fun r => !roles.contains r

end Action

/-- Each action depends on the other actions that output what it reads. -/
def Graph.ofActions (as : List Action) : Graph as.length :=
  .ofTargets fun a => (List.finRange as.length).filter fun b =>
    a ≠ b && (as.get a).readsFrom (as.get b)

theorem Graph.edge_ofActions {as : List Action} {a b : Fin as.length} :
    (Graph.ofActions as).Edge a b ↔ a ≠ b ∧ (as.get a).readsFrom (as.get b) = true := by
  simp [Edge, ofActions]

namespace Protocol

def checkKeys (p : Protocol) : Except Defect Unit :=
  if p.hasKey then .ok () else .error (.noKeyParameters p.name)

def checkRoles (p : Protocol) : Except Defect Unit :=
  match p.actions.findSome? fun a => (a.strangerAmong p.roles).map (Defect.unknownRole a.name) with
  | some d => .error d
  | none => .ok ()

def keyNames (p : Protocol) : List String := (Parameters.keys p.params).map (·.name)

def covers (p : Protocol) (a : Action) : Bool :=
  a.params.any fun q => p.keyNames.contains q.name

def checkCoverage (p : Protocol) : Except Defect Unit :=
  match p.actions.find? fun a => !p.covers a with
  | some a => .error (.noKeyOverlap a.name p.name)
  | none => .ok ()

def checkAcyclic (p : Protocol) : Except Defect Unit :=
  match (Graph.ofActions p.actions).cycle? with
  | some i => .error (.circularDependency (p.actions.get i).name)
  | none => .ok ()

def validate (p : Protocol) : Except Defect Unit := do
  p.checkKeys
  p.checkRoles
  p.checkCoverage
  p.checkAcyclic

theorem checkKeys_eq_ok {p : Protocol} : p.checkKeys = .ok () ↔ p.hasKey = true := by
  unfold checkKeys
  split <;> simp_all

theorem checkCoverage_eq_ok {p : Protocol} :
    p.checkCoverage = .ok () ↔ ∀ a ∈ p.actions, p.covers a = true := by
  unfold checkCoverage
  split
  · next a h =>
    have := List.find?_some h
    have ha := List.mem_of_find?_eq_some h
    simp only [reduceCtorEq, false_iff]
    intro hall
    simp [hall a ha] at this
  · next h => simpa using h

end Protocol

end InfoProtocol
