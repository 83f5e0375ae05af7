import InfoProtocol.Instance
import InfoProtocol.Json.Shape
import InfoProtocol.Transport.ActionLine

/-!
# Envelopes

Instances and messages travel as JSON records in which protocols and actions stand in their
written form, so that a receiver needs no copy of the protocol. An envelope is opened by reading
those texts again. The value keys of an instance have to be written forms of its protocol's own
parameters, and its messages are recorded under the actions that were read, a later entry taking
the place of an earlier one.
-/

namespace InfoProtocol

structure MessageEnvelope where
  instanceKey : String
  action : String
  values : Bindings String
  deriving DecidableEq

structure InstanceEnvelope where
  protocol : String
  roles : Bindings String
  values : Bindings String
  messages : Bindings MessageEnvelope
  deriving DecidableEq

def writeBindings {α : Type} (write : α → String) (b : Bindings α) : String :=
  Json.writeObject (b.entries.map fun e => (e.1, write e.2))

namespace MessageEnvelope

def write (m : MessageEnvelope) : String :=
  Json.writeObject [("instance_key", Json.quote m.instanceKey), ("action", Json.quote m.action),
    ("values", writeBindings Json.quote m.values)]

structure Draft where
  instanceKey : Option String
  action : Option String
  values : Option (Bindings String)

def Draft.fields : List (Json.Field Draft) :=
  [.of "instance_key" instanceKey (fun d s => { d with instanceKey := some s }) Json.string,
    .of "action" action (fun d s => { d with action := some s }) Json.string,
    .of "values" values (fun d b => { d with values := some b }) (Json.map Json.string)]

def Draft.finish (d : Draft) : Option MessageEnvelope := do
  return ⟨← d.instanceKey, ← d.action, ← d.values⟩

def reader : Json.Reader MessageEnvelope :=
  Json.record Draft.fields ⟨none, none, none⟩ Draft.finish

end MessageEnvelope

namespace InstanceEnvelope

def write (i : InstanceEnvelope) : String :=
  Json.writeObject [("protocol", Json.quote i.protocol),
    ("roles", writeBindings Json.quote i.roles), ("values", writeBindings Json.quote i.values),
    ("messages", writeBindings MessageEnvelope.write i.messages)]

structure Draft where
  protocol : Option String
  roles : Option (Bindings String)
  values : Option (Bindings String)
  messages : Option (Bindings MessageEnvelope)

def Draft.fields : List (Json.Field Draft) :=
  [.of "protocol" protocol (fun d s => { d with protocol := some s }) Json.string,
    .of "roles" roles (fun d b => { d with roles := some b }) (Json.map Json.string),
    .of "values" values (fun d b => { d with values := some b }) (Json.map Json.string),
    .of "messages" messages (fun d b => { d with messages := some b })
      (Json.map MessageEnvelope.reader)]

def Draft.finish (d : Draft) : Option InstanceEnvelope := do
  return ⟨← d.protocol, ← d.roles, ← d.values, ← d.messages⟩

def reader : Json.Reader InstanceEnvelope :=
  Json.record Draft.fields ⟨none, none, none, none⟩ Draft.finish

end InstanceEnvelope

namespace Message

def envelope (m : Message) : MessageEnvelope := ⟨m.instanceKey, m.action.render, m.values⟩

def ofEnvelope (x : Lexicon) (e : MessageEnvelope) : Except TransportError Message :=
  match Action.read x e.action with
  | .error f => .error f
  | .ok a => .ok ⟨e.instanceKey, a, e.values⟩

def encode (m : Message) : String := m.envelope.write

def decode (x : Lexicon) (s : Octets) : Except TransportError Message :=
  match Json.document MessageEnvelope.reader s with
  | .error f => .error (.json f)
  | .ok e => ofEnvelope x e

end Message

namespace Instance

def envelope (i : Instance) : InstanceEnvelope :=
  ⟨i.protocol.render, i.roles, i.values, i.messages.map Message.envelope⟩

def openMessages (x : Lexicon) :
    List MessageEnvelope → Bindings Message → Except TransportError (Bindings Message)
  | [], b => .ok b
  | e :: es, b =>
    match Message.ofEnvelope x e with
    | .error f => .error f
    | .ok m => openMessages x es (b.insert m.action.render m)

def undeclaredKey? (p : Protocol) (values : Bindings String) : Option String :=
  values.keys.find? fun k => !(p.params.map Parameter.render).contains k

def ofEnvelope (x : Lexicon) (e : InstanceEnvelope) : Except TransportError Instance :=
  match Protocol.compile x e.protocol with
  | .error f => .error (.source f)
  | .ok p =>
    match undeclaredKey? p e.values with
    | some k => .error (.undeclaredValue k)
    | none =>
      match openMessages x (e.messages.entries.map (·.2)) ∅ with
      | .error f => .error f
      | .ok ms => .ok ⟨p, e.roles, e.values, ms⟩

def encode (i : Instance) : String := i.envelope.write

def decode (x : Lexicon) (s : Octets) : Except TransportError Instance :=
  match Json.document InstanceEnvelope.reader s with
  | .error f => .error (.json f)
  | .ok e => ofEnvelope x e

theorem undeclaredKey?_eq_none {p : Protocol} {values : Bindings String} :
    undeclaredKey? p values = none ↔ ∀ k ∈ values.keys, ∃ q ∈ p.params, q.render = k := by
  simp [undeclaredKey?]

theorem ofEnvelope_eq_ok {x : Lexicon} {e : InstanceEnvelope} {i : Instance} :
    ofEnvelope x e = .ok i ↔ ∃ p ms, Protocol.compile x e.protocol = .ok p ∧
      undeclaredKey? p e.values = none ∧
      openMessages x (e.messages.entries.map (·.2)) ∅ = .ok ms ∧
      i = ⟨p, e.roles, e.values, ms⟩ := by
  unfold ofEnvelope
  split
  · next h => simp [h]
  · next p h =>
    split
    · next k hk => simp [h, hk]
    · next hk =>
      split
      · next hm => simp [h, hm]
      · next ms hm => simp [h, hk, hm, eq_comm]

theorem decode_eq_ok {x : Lexicon} {s : Octets} {i : Instance} :
    decode x s = .ok i ↔
      ∃ e, Json.document InstanceEnvelope.reader s = .ok e ∧ ofEnvelope x e = .ok i := by
  unfold decode
  split
  · next h => simp [h]
  · next e h => simp [h]

end Instance

end InfoProtocol
