import InfoProtocol.Proofs.Bindings
import InfoProtocol.Proofs.Instance.Key
import InfoProtocol.Proofs.Instance.Recorded
import Mathlib.Logic.Function.Basic

/-!
# Values as cells

Each parameter of a compiled protocol is a cell for one value. A value is set and read by the name
of the parameter, and kept under its written form. The names of the parameters are distinct and so
are the written forms, so a value that is set is read back by its own name only, and in which order
different cells are set does not matter.
-/

namespace InfoProtocol.Instance

variable {i : Instance} {q r : Parameter} {m n v w : String}

def put (i : Instance) (q : Parameter) (v : String) : Instance :=
  { i with values := i.values.insert q.render v }

theorem put_comm (h : q.render ≠ r.render) (i : Instance) (v w : String) :
    (i.put q v).put r w = (i.put r w).put q v := by
  simp only [put, Bindings.insert_comm h]

theorem valueAt_put (i : Instance) (q : Parameter) (v text : String) :
    (i.put q v).valueAt text = if text = q.render then v else i.valueAt text := by
  rw [valueAt, put, Bindings.get?_insert]
  split
  · rfl
  · rfl

theorem getValue_put (hi : i.protocol.Unambiguous) (hq : q ∈ i.protocol.params) (v : String) :
    (i.put q v).getValue = Function.update i.getValue q.name v := by
  funext m
  rw [Function.update_apply]
  cases hm : Parameters.find? m i.protocol.params with
  | none =>
    have hne : m ≠ q.name := fun h => Parameters.find?_eq_none.1 hm q hq h.symm
    rw [if_neg hne, getValue, getValue]
    simp only [put, hm]
  | some r =>
    obtain ⟨hr, rfl⟩ := Parameters.find?_mem hm
    rw [getValue_name (i := i.put q v) hi hr, valueAt_put, getValue_name hi hr]
    by_cases h : r.name = q.name
    · rw [if_pos h, if_pos (congrArg _ (hi.eq_of_name_eq hr hq h))]
    · have hrender : r.render ≠ q.render := fun he => h (hi.eq_of_render_eq hr hq he ▸ rfl)
      rw [if_neg h, if_neg hrender]

theorem after_setValue (i : Instance) (n v : String) : i.after (.setValue n v) =
    match Parameters.find? n i.protocol.params with
    | some q => i.put q v
    | none => i := by
  rw [after, call, setValue]
  cases Parameters.find? n i.protocol.params with
  | none => rfl
  | some q => rfl

theorem setValue_fails_iff :
    (∃ e, (i.setValue n v).2 = some e) ↔ ∀ q ∈ i.protocol.params, q.name ≠ n := by
  simp [Outcome.snd_eq_some, setValue_fails]

theorem protocol_after_setValue (i : Instance) (n v : String) :
    (i.after (.setValue n v)).protocol = i.protocol := by
  rw [after_setValue]
  split <;> rfl

theorem after_setValue_comm (hi : i.protocol.Unambiguous) (h : m ≠ n) :
    (i.after (.setValue m v)).after (.setValue n w) =
      (i.after (.setValue n w)).after (.setValue m v) := by
  rw [after_setValue (i.after _), after_setValue (i.after _), protocol_after_setValue,
    protocol_after_setValue, after_setValue, after_setValue]
  cases hm : Parameters.find? m i.protocol.params with
  | none => rfl
  | some q =>
    cases hn : Parameters.find? n i.protocol.params with
    | none => rfl
    | some r =>
      obtain ⟨hq, rfl⟩ := Parameters.find?_mem hm
      obtain ⟨hr, rfl⟩ := Parameters.find?_mem hn
      exact put_comm (fun he => h (hi.eq_of_render_eq hq hr he ▸ rfl)) i v w

def setEach (i : Instance) (es : List (String × String)) : Instance :=
  i.run (es.map fun e => .setValue e.1 e.2)

theorem setEach_cons (i : Instance) (e : String × String) (es : List (String × String)) :
    i.setEach (e :: es) = (i.after (.setValue e.1 e.2)).setEach es := rfl

theorem setEach_perm (hi : i.protocol.Unambiguous) {es fs : List (String × String)}
    (h : es.Perm fs) (hnames : (es.map (·.1)).Nodup) : i.setEach es = i.setEach fs := by
  induction h generalizing i with
  | nil => rfl
  | cons e _ ih =>
    rw [setEach_cons, setEach_cons]
    exact ih (protocol_after_setValue i e.1 e.2 ▸ hi) (List.nodup_cons.1 hnames).2
  | swap e f es =>
    have hne : f.1 ≠ e.1 := by
      intro he
      simp [he] at hnames
    simp only [setEach_cons, after_setValue_comm hi hne]
  | trans hes _ ih₁ ih₂ =>
    rw [ih₁ hi hnames, ih₂ hi ((hes.map _).nodup_iff.1 hnames)]

/-- A value is refused exactly if the protocol has no parameter of this name, and nothing happens
then. Else it is read back by its name, and whatever is read by other names, all other entries, the
roles and the messages are as before; values of different names can be set in either order. -/
theorem values_are_cells {x : Lexicon} (hx : x.Acceptable) {source : String} {p : Protocol}
    (hp : Protocol.compile x source = .ok p) (hi : i.protocol = p) (n v : String) :
    ((∃ e, (i.setValue n v).2 = some e) ↔ ∀ q ∈ p.params, q.name ≠ n) ∧
    (∀ j e, i.setValue n v = (j, some e) → j = i) ∧
    (∀ j, i.setValue n v = (j, none) → j.getValue = Function.update i.getValue n v ∧
      (∃ q ∈ p.params, q.name = n ∧ ∀ text,
        j.values.get? text = if text = q.render then some v else i.values.get? text) ∧
      j.protocol = i.protocol ∧ j.roles = i.roles ∧ j.messages = i.messages) ∧
    ∀ m w, m ≠ n → (i.after (.setValue n v)).after (.setValue m w) =
      (i.after (.setValue m w)).after (.setValue n v) := by
  have hu : i.protocol.Unambiguous :=
    hi ▸ Protocol.unambiguous_of_read hx (Protocol.compile_eq_ok.1 hp).1
  refine ⟨hi ▸ setValue_fails_iff, fun j e he => (setValue_fails.1 he).2.1, fun j hj => ?_,
    fun m w hne => after_setValue_comm hu hne.symm⟩
  obtain ⟨q, hq, rfl⟩ := setValue_succeeds.1 hj
  obtain ⟨hmem, rfl⟩ := Parameters.find?_mem hq
  refine ⟨getValue_put hu hmem v, ⟨q, hi ▸ hmem, rfl, fun text => ?_⟩, rfl, rfl, rfl⟩
  exact Bindings.get?_insert i.values q.render text v

theorem values_are_cells_offer :
    let source := "Offer\x7brole S,B\nparameter out id key, out sum\n" ++
      "S->B:quote[out id key,out sum]\n\x7d"
    let id : Parameter := ⟨"id", .output, true⟩
    let sum : Parameter := ⟨"sum", .output, false⟩
    let p : Protocol := ⟨"Offer", ["S", "B"], [id, sum], [⟨"quote", "S", "B", [id, sum]⟩]⟩
    let i : Instance := new p ∅
    let j : Instance := i.after (.setValue "id" "7")
    Protocol.compile .default source = .ok p ∧ (∃ e, (i.setValue "item" "7").2 = some e) ∧
      (i.setValue "item" "7").1 = i ∧ i.setValue "id" "7" = (j, none) ∧ j.getValue "id" = "7" ∧ j.getValue "sum" = "" ∧
      j.after (.setValue "sum" "9") = (i.after (.setValue "sum" "9")).after (.setValue "id" "7") := by
  intro source id sum p i j
  have hp : Protocol.compile .default source = .ok p :=
    Protocol.compile_eq_ok.2 ⟨by decide +kernel, Protocol.validate_eq_ok.2
      ⟨by decide, by decide, by decide, _, Protocol.schedule_finRange (by decide)⟩⟩
  have hcells := values_are_cells (i := i) Lexicon.acceptable_default hp rfl
  have hset : i.setValue "id" "7" = (j, none) := by decide +kernel
  obtain ⟨-, -, hstep, hcomm⟩ := hcells "id" "7"
  have hread := (hstep j hset).1
  obtain ⟨e, he⟩ := (hcells "item" "7").1.2 (by decide)
  refine ⟨hp, ⟨e, he⟩, (hcells "item" "7").2.1 _ e (Prod.ext rfl he), hset, ?_, ?_,
    hcomm "sum" "9" (by decide)⟩
  · rw [hread, Function.update_self]
  · rw [hread, Function.update_of_ne (by decide)]
    decide +kernel

end InfoProtocol.Instance
