import InfoProtocol.Instance.Reconcile
import InfoProtocol.Proofs.Protocol.Unambiguous
import InfoProtocol.Transport.Envelope

/-!
# Instances that come about

An enactment starts from a protocol that was compiled, or from an envelope that was opened; it may
also start from a protocol that nobody judged. From then on values are set, snapshots are taken over
and messages are recorded, and some of this may fail. Whatever is done, the protocol stays as it is,
and every name in the values is the written form of one of the protocol's own parameters.
-/

namespace InfoProtocol.Instance

inductive Opened (x : Lexicon) : Instance → Prop
  | new {source : String} {p : Protocol} (hp : Protocol.compile x source = .ok p)
      (roles : Bindings String) : Opened x (.new p roles)
  | decode {s : Octets} {i : Instance} (hi : decode x s = .ok i) : Opened x i

/-- An instance of any protocol at all, or one opened under any lexicon. -/
inductive Begun : Instance → Prop
  | new (p : Protocol) (roles : Bindings String) : Begun (.new p roles)
  | decode {x : Lexicon} {s : Octets} {i : Instance} (hi : decode x s = .ok i) : Begun i

/-- What comes about from an instance with `origin` when only messages with `allowed` are recorded,
by calls that may succeed or fail. -/
inductive Enacted (origin : Instance → Prop) (allowed : Message → Prop) : Instance → Prop
  | start {i : Instance} (h : origin i) : Enacted origin allowed i
  | setValue {i : Instance} (hi : Enacted origin allowed i) (name value : String) :
      Enacted origin allowed (i.setValue name value).1
  | update {i : Instance} (hi : Enacted origin allowed i) (j : Instance) :
      Enacted origin allowed (i.update j).1
  | addMessage {i : Instance} {m : Message} (hi : Enacted origin allowed i) (hm : allowed m) :
      Enacted origin allowed (i.addMessage m).1

def Reachable (i : Instance) : Prop :=
  ∃ x : Lexicon, x.Acceptable ∧ Enacted (Opened x) (fun _ => True) i

def Declared (i : Instance) : Prop := ∀ k ∈ i.values.keys, ∃ q ∈ i.protocol.params, q.render = k

/-- The names in the values are written forms of the protocol's own parameters, and each leads to
one of them only. -/
structure Traceable (i : Instance) : Prop where
  protocol : i.protocol.Unambiguous
  declared : ∀ k ∈ i.values.keys, ∃ q ∈ i.protocol.params, q.render = k

section Steps

variable {P : Instance → Prop} {i : Instance}

theorem setValue_induction (hput : ∀ q ∈ i.protocol.params, ∀ v,
      P { i with values := i.values.insert q.render v }) (h : P i) (name value : String) :
    P (i.setValue name value).1 := by
  unfold setValue
  split
  · next q hq => exact hput q (Parameters.find?_mem hq).1 value
  · exact h

theorem addMessage_induction {m : Message}
    (hadd : m.action.render ∉ i.messages.keys →
      P { i with messages := i.messages.insert m.action.render m }) (h : P i) :
    P (i.addMessage m).1 := by
  unfold addMessage
  split
  · exact h
  · next hfree => exact hadd fun hm => hfree (Bindings.contains_iff.2 hm)

theorem assign_induction (hset : ∀ i n v, P i → P (i.setValue n v).1) (h : P i)
    (es : List (String × String)) : P (i.assign es).1 := by
  induction es generalizing i with
  | nil => exact h
  | cons e es ih =>
    simp only [assign]
    split
    · exact h
    · next n _ =>
      have hn := hset i n e.2 h
      split
      · next k _ hk => exact hk ▸ hn
      · next k hk =>
        rw [hk] at hn
        exact ih hn

theorem update_induction (hset : ∀ i n v, P i → P (i.setValue n v).1) (h : P i) (j : Instance) :
    P (i.update j).1 := by
  unfold update
  split
  · exact h
  · exact assign_induction hset h _

theorem Declared.insert (hi : i.Declared) {q : Parameter} (hq : q ∈ i.protocol.params)
    (v : String) : Declared { i with values := i.values.insert q.render v } := by
  intro k hk
  obtain ⟨w, hw⟩ := Bindings.mem_keys.1 hk
  rw [Bindings.get?_insert] at hw
  split at hw
  · next he => exact ⟨q, hq, he.symm⟩
  · exact hi k (Bindings.mem_keys.2 ⟨w, hw⟩)

theorem Declared.setValue (hi : i.Declared) (name value : String) :
    (i.setValue name value).1.Declared :=
  setValue_induction (fun _ hq v => hi.insert hq v) hi name value

theorem Traceable.insert (hi : i.Traceable) {q : Parameter} (hq : q ∈ i.protocol.params)
    (v : String) : Traceable { i with values := i.values.insert q.render v } :=
  ⟨hi.protocol, Declared.insert hi.declared hq v⟩

theorem Traceable.setValue (hi : i.Traceable) (name value : String) :
    (i.setValue name value).1.Traceable :=
  setValue_induction (fun _ hq v => hi.insert hq v) hi name value

theorem Traceable.update (hi : i.Traceable) (j : Instance) : (i.update j).1.Traceable :=
  update_induction (P := Traceable) (fun _ n v h => h.setValue n v) hi j

theorem Traceable.addMessage (hi : i.Traceable) (m : Message) : (i.addMessage m).1.Traceable :=
  addMessage_induction (P := Traceable) (fun _ => ⟨hi.protocol, hi.declared⟩) hi

end Steps

variable {x : Lexicon} {i : Instance}

theorem declared_new (p : Protocol) (roles : Bindings String) : (new p roles).Declared := by
  intro k hk
  cases hk

theorem declared_of_decode {s : Octets} (h : decode x s = .ok i) : i.Declared := by
  obtain ⟨e, -, he⟩ := decode_eq_ok.1 h
  obtain ⟨p, ms, -, hkeys, -, rfl⟩ := ofEnvelope_eq_ok.1 he
  exact undeclaredKey?_eq_none.1 hkeys

theorem Opened.traceable (hx : x.Acceptable) (h : Opened x i) : i.Traceable := by
  cases h with
  | new hp roles =>
    exact ⟨Protocol.unambiguous_of_read hx (Protocol.compile_eq_ok.1 hp).1, declared_new _ roles⟩
  | decode hi =>
    have hdeclared := declared_of_decode hi
    obtain ⟨e, -, he⟩ := decode_eq_ok.1 hi
    obtain ⟨p, ms, hp, -, -, rfl⟩ := ofEnvelope_eq_ok.1 he
    exact ⟨Protocol.unambiguous_of_read hx (Protocol.compile_eq_ok.1 hp).1, hdeclared⟩

theorem Enacted.of_setValue {origin : Instance → Prop} {allowed : Message → Prop} {j : Instance}
    {name value : String} {o : Option InstanceError} (hi : Enacted origin allowed i)
    (h : i.setValue name value = (j, o)) : Enacted origin allowed j := by
  have hj := hi.setValue name value
  rwa [h] at hj

theorem Enacted.of_addMessage {origin : Instance → Prop} {allowed : Message → Prop}
    {j : Instance} {m : Message} {o : Option InstanceError} (hi : Enacted origin allowed i)
    (hm : allowed m) (h : i.addMessage m = (j, o)) : Enacted origin allowed j := by
  have hj := hi.addMessage hm
  rwa [h] at hj

theorem Enacted.declared {allowed : Message → Prop} (h : Enacted Begun allowed i) :
    i.Declared := by
  induction h with
  | start h =>
    cases h with
    | new p roles => exact declared_new p roles
    | decode hi => exact declared_of_decode hi
  | setValue _ name value ih => exact ih.setValue name value
  | update _ j ih => exact update_induction (P := Declared) (fun _ n v h => h.setValue n v) ih j
  | addMessage _ _ ih => exact addMessage_induction (fun _ => ih) ih

theorem Enacted.traceable {origin : Instance → Prop} {allowed : Message → Prop}
    (horigin : ∀ i, origin i → i.Traceable) (h : Enacted origin allowed i) : i.Traceable := by
  induction h with
  | start h => exact horigin _ h
  | setValue _ name value ih => exact ih.setValue name value
  | update _ j ih => exact ih.update j
  | @addMessage _ m _ _ ih => exact ih.addMessage m

theorem Reachable.traceable (h : i.Reachable) : i.Traceable := by
  obtain ⟨x, hx, h⟩ := h
  exact h.traceable fun _ => Opened.traceable hx

end InfoProtocol.Instance
