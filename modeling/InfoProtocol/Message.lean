import InfoProtocol.Bindings
import InfoProtocol.Protocol.Order

/-!
# Messages

A message records that an action took place within one instance. Its values are bound to the
written forms of the action's own parameters. What identifies it are the values of the action's
key parameters, by name, as far as they are bound.
-/

namespace InfoProtocol

/-- What is identified by the values that key parameters are bound to, by name. -/
class Keyed (α : Type) where
  keys : α → Bindings String

def differ {α β : Type} [Keyed α] [Keyed β] (a : α) (b : β) : Bool :=
  decide (Keyed.keys a ≠ Keyed.keys b)

structure Message where
  instanceKey : String
  action : Action
  values : Bindings String
  deriving DecidableEq

def Message.keys (m : Message) : Bindings String :=
  .ofList ((Parameters.keys m.action.params).filterMap fun p =>
    (m.values.get? p.render).map fun v => (p.name, v))

instance : Keyed Message := ⟨Message.keys⟩

end InfoProtocol
