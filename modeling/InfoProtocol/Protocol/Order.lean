import InfoProtocol.Protocol.Render

/-!
# Canonical order

Parameters come key first, then by scope (input, nil, output), then by name. Roles come by name,
actions by their written form once their parameters are in order. Names compare by code point and
sorting keeps equal elements in place. Protocols are equivalent when they agree in canonical
order.
-/

namespace InfoProtocol

def Scope.rank : Scope → Nat
  | .input => 0
  | .nil => 1
  | .output => 2

theorem Scope.rank_injective {s t : Scope} (h : s.rank = t.rank) : s = t := by
  cases s <;> cases t <;> first | rfl | cases h

namespace Parameter

def order (a b : Parameter) : Ordering :=
  (compare b.isKey a.isKey).then ((compare a.scope.rank b.scope.rank).then (compare a.name b.name))

def le (a b : Parameter) : Bool := (order a b).isLE

end Parameter

namespace Parameters

def sort (ps : List Parameter) : List Parameter := ps.mergeSort Parameter.le

def keys (ps : List Parameter) : List Parameter := sort (ps.filter (·.isKey))

theorem sort_perm (ps : List Parameter) : (sort ps).Perm ps := List.mergeSort_perm _ _

theorem mem_sort {ps : List Parameter} {p : Parameter} : p ∈ sort ps ↔ p ∈ ps :=
  (sort_perm ps).mem_iff

theorem mem_keys {ps : List Parameter} {p : Parameter} :
    p ∈ keys ps ↔ p ∈ ps ∧ p.isKey = true := by
  rw [keys, mem_sort, List.mem_filter]

end Parameters

def Roles.sort (rs : List Role) : List Role := rs.mergeSort fun a b => a ≤ b

def Action.sortParams (a : Action) : Action := { a with params := Parameters.sort a.params }

def Actions.sort (as : List Action) : List Action :=
  as.mergeSort fun a b => a.render ≤ b.render

theorem Roles.sort_perm (rs : List Role) : (Roles.sort rs).Perm rs := List.mergeSort_perm _ _

theorem Actions.sort_perm (as : List Action) : (Actions.sort as).Perm as :=
  List.mergeSort_perm _ _

namespace Protocol

def canonical (p : Protocol) : Protocol where
  name := p.name
  roles := Roles.sort p.roles
  params := Parameters.sort p.params
  actions := Actions.sort (p.actions.map Action.sortParams)

def Equivalent (p q : Protocol) : Prop := p.canonical = q.canonical

instance (p q : Protocol) : Decidable (p.Equivalent q) :=
  inferInstanceAs (Decidable (p.canonical = q.canonical))

/-- The name of the protocol, then a comma and a name for each key parameter in canonical
order. -/
def key (p : Protocol) : String :=
  p.name ++ String.join ((Parameters.keys p.params).map fun q => "," ++ q.name)

end Protocol

end InfoProtocol
