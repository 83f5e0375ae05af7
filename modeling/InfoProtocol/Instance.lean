import InfoProtocol.Message
import InfoProtocol.Text.Quoted

/-!
# Instances

An instance is one enactment of a protocol. It binds roles to the agents that play them and
written forms of parameters to values, and it records messages under the written forms of their
actions. A parameter without a value reads as the empty text. The key of an instance is the key
of its protocol, a colon, and the values of the key parameters between commas.
-/

namespace InfoProtocol

structure Instance where
  protocol : Protocol
  roles : Bindings String
  values : Bindings String
  messages : Bindings Message
  deriving DecidableEq

inductive InstanceError
  | valueConflict (parameter current incoming : String)
  | unmatchedDiff (names : List String)
  | duplicateMessage (action : String)
  | unknownParameter (protocol name : String)
  | protocolMismatch (expected found : String)
  | unresolved (key : String)
  deriving DecidableEq, Repr

def InstanceError.message : InstanceError → String
  | valueConflict p c i =>
    "Conflicting values for '" ++ p ++ "': '" ++ c ++ "' and '" ++ i ++ "'"
  | unmatchedDiff ns => "No action produces exactly the parameters " ++ Text.quotedWords ns
  | duplicateMessage a => "A message is already recorded for action '" ++ a ++ "'"
  | unknownParameter p n => "Protocol '" ++ p ++ "' declares no parameter '" ++ n ++ "'"
  | protocolMismatch e f => "Instances of different protocols: '" ++ e ++ "' and '" ++ f ++ "'"
  | unresolved k => "Value key '" ++ k ++ "' does not resolve to any parameter"

/-- The instance that a call leaves behind, with what is wrong if the call fails. -/
abbrev Outcome := Instance × Option InstanceError

/-- The instance that a successful call leaves behind; of a failed one, only what is wrong. -/
def Outcome.result : Outcome → Except InstanceError Instance
  | (i, none) => .ok i
  | (_, some e) => .error e

instance : Coe Outcome (Except InstanceError Instance) := ⟨Outcome.result⟩

theorem Outcome.snd_eq_some {o : Outcome} {e : InstanceError} :
    o.2 = some e ↔ ∃ i, o = (i, some e) :=
  ⟨fun h => ⟨o.1, Prod.ext rfl h⟩, fun ⟨_, h⟩ => congrArg Prod.snd h⟩

namespace Instance

def new (p : Protocol) (roles : Bindings String) : Instance := ⟨p, roles, ∅, ∅⟩

def valueAt (i : Instance) (text : String) : String := (i.values.get? text).getD ""

def key (i : Instance) : String :=
  i.protocol.key ++ ":" ++
    ",".intercalate ((Parameters.keys i.protocol.params).map fun p => i.valueAt p.render)

def getValue (i : Instance) (name : String) : String :=
  match Parameters.find? name i.protocol.params with
  | some p => i.valueAt p.render
  | none => ""

def setValue (i : Instance) (name value : String) : Outcome :=
  match Parameters.find? name i.protocol.params with
  | some p => ({ i with values := i.values.insert p.render value }, none)
  | none => (i, some (.unknownParameter i.protocol.name name))

def keys (i : Instance) : Bindings String :=
  .ofList ((Parameters.keys i.protocol.params).map fun p => (p.name, i.getValue p.name))

instance : Keyed Instance := ⟨keys⟩

def addMessage (i : Instance) (m : Message) : Outcome :=
  if i.messages.contains m.action.render then (i, some (.duplicateMessage m.action.render))
  else ({ i with messages := i.messages.insert m.action.render m }, none)

theorem setValue_succeeds {i j : Instance} {name value : String} :
    i.setValue name value = (j, none) ↔ ∃ p, Parameters.find? name i.protocol.params = some p ∧
      j = { i with values := i.values.insert p.render value } := by
  unfold setValue
  split
  · next p h => simp [h, eq_comm]
  · next h => simp [h]

theorem setValue_fails {i j : Instance} {name value : String} {e : InstanceError} :
    i.setValue name value = (j, some e) ↔
      (∀ p ∈ i.protocol.params, p.name ≠ name) ∧ j = i ∧
        e = .unknownParameter i.protocol.name name := by
  rw [← Parameters.find?_eq_none]
  unfold setValue
  split
  · next p h => simp [h]
  · next h => simp [h, eq_comm]

theorem addMessage_succeeds {i j : Instance} {m : Message} :
    i.addMessage m = (j, none) ↔ m.action.render ∉ i.messages.keys ∧
      j = { i with messages := i.messages.insert m.action.render m } := by
  rw [← Bindings.contains_iff]
  unfold addMessage
  split
  · next h => simp [h]
  · next h => simp [h, eq_comm]

theorem addMessage_fails {i j : Instance} {m : Message} {e : InstanceError} :
    i.addMessage m = (j, some e) ↔ m.action.render ∈ i.messages.keys ∧ j = i ∧
      e = .duplicateMessage m.action.render := by
  rw [← Bindings.contains_iff]
  unfold addMessage
  split
  · next h => simp [h, eq_comm]
  · next h => simp [h]

end Instance

end InfoProtocol
