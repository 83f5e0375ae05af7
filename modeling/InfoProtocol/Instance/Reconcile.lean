import InfoProtocol.Enactment
import InfoProtocol.Instance

/-!
# Reconciling two snapshots of an instance

The news in a snapshot are its non-empty values where the instance at hand has none. The values
must not contradict each other, and the news must be the outputs of some action: the difference
names all actions whose outputs are exactly the parameters in the news. Updating takes the news
over, parameter by parameter.
-/

namespace InfoProtocol

def sortedNames (ns : List String) : List String :=
  (Bindings.ofList (ns.map fun n => (n, ()))).keys

structure Diff where
  actions : List Action
  values : Bindings String
  deriving DecidableEq

namespace Instance

/-- The first value of `j` that differs from a value of `i`, neither of them empty. -/
def conflict? (i j : Instance) : Option InstanceError :=
  j.values.entries.findSome? fun e =>
    if e.2 ≠ "" ∧ i.valueAt e.1 ≠ "" ∧ i.valueAt e.1 ≠ e.2 then
      some (.valueConflict e.1 (i.valueAt e.1) e.2)
    else none

def news (i j : Instance) : Bindings String :=
  j.values.filter fun k v => v ≠ "" && i.valueAt k = ""

def nameOf (i : Instance) (key : String) : Except InstanceError String :=
  match i.protocol.resolve key with
  | some p => .ok p.name
  | none => .error (.unresolved key)

def explains (a : Action) (names : List String) : Bool :=
  a.outNames.length = names.length && a.outNames.all fun n => names.contains n

def diff (i j : Instance) : Except InstanceError Diff :=
  if i.protocol ≠ j.protocol then
    .error (.protocolMismatch i.protocol.key j.protocol.key)
  else
    match i.conflict? j with
    | some e => .error e
    | none =>
      match (i.news j).keys.mapM i.nameOf with
      | .error e => .error e
      | .ok ns =>
        let names := sortedNames ns
        match i.protocol.actions.filter fun a => explains a names with
        | [] => .error (.unmatchedDiff names)
        | as => .ok ⟨as, i.news j⟩

/-- Sets the parameters behind the given keys in turn. At the first that cannot be set the
assignment ends, with what is set so far. -/
def assign (i : Instance) : List (String × String) → Outcome
  | [] => (i, none)
  | (k, v) :: es =>
    match i.nameOf k with
    | .error e => (i, some e)
    | .ok n =>
      match i.setValue n v with
      | (j, some e) => (j, some e)
      | (j, none) => j.assign es

def update (i j : Instance) : Outcome :=
  match i.diff j with
  | .error e => (i, some e)
  | .ok d => i.assign d.values.entries

theorem update_of_diff_error {i j : Instance} {e : InstanceError} (h : i.diff j = .error e) :
    i.update j = (i, some e) := by
  simp [update, h]

end Instance

end InfoProtocol
