import InfoProtocol.Proofs.Instance.Enacted
import InfoProtocol.Proofs.Text.Separated

/-!
# Keys of instances

The key of an instance joins the values of the key parameters by commas, and a value may hold commas
itself. So instances of one protocol that agree on these values have one key, but one key may stand
for different values. It stands for the same ones exactly if, with one key parameter left out, each
of these values holds as many commas in one instance as in the other.
-/

namespace InfoProtocol.Instance

variable {i j : Instance}

theorem getValue_name (hi : i.protocol.Unambiguous) {q : Parameter} (hq : q ∈ i.protocol.params) :
    i.getValue q.name = i.valueAt q.render := by
  simp only [getValue, hi.find?_name hq]

theorem key_eq (hi : i.protocol.Unambiguous) :
    i.key = i.protocol.key ++ ":" ++
      ",".intercalate ((Parameters.keys i.protocol.params).map fun q => i.getValue q.name) := by
  have hvalues : (Parameters.keys i.protocol.params).map (fun q => i.valueAt q.render) =
      (Parameters.keys i.protocol.params).map fun q => i.getValue q.name :=
    List.map_congr_left fun q hq => (getValue_name hi (Parameters.mem_keys.1 hq).1).symm
  rw [key, hvalues]

theorem key_eq_key_iff {p : Protocol} (hp : p.Unambiguous) (hi : i.protocol = p)
    (hj : j.protocol = p) : i.key = j.key ↔
      ",".intercalate ((Parameters.keys p.params).map fun q => i.getValue q.name) =
        ",".intercalate ((Parameters.keys p.params).map fun q => j.getValue q.name) := by
  have hcancel : ∀ s t u : String, s ++ t = s ++ u ↔ t = u := by
    simp [← String.toList_inj]
  rw [key_eq (hi ▸ hp), key_eq (hj ▸ hp), hi, hj, hcancel]

theorem keyNames_nodup {p : Protocol} (hp : p.Unambiguous) :
    ((Parameters.keys p.params).map (·.name)).Nodup := by
  rw [Parameters.keys, ((Parameters.sort_perm _).map _).nodup_iff]
  exact hp.wellFormed.params.nodup.sublist (List.filter_sublist.map _)

theorem keys_nodup {p : Protocol} (hp : p.Unambiguous) : (Parameters.keys p.params).Nodup :=
  (keyNames_nodup hp).of_map _

/-- The values of all key parameters but one hold as many commas here as there. -/
def CommasAgree (i j : Instance) : Prop :=
  ∃ r, ∀ q ∈ i.protocol.params, q.isKey = true → q ≠ r →
    Text.occurrences ',' (i.getValue q.name) = Text.occurrences ',' (j.getValue q.name)

theorem CommasAgree.of_eq
    (h : ∀ q ∈ i.protocol.params, q.isKey = true → i.getValue q.name = j.getValue q.name)
    (r : Parameter) : i.CommasAgree j :=
  ⟨r, fun q hq hkey _ => by rw [h q hq hkey]⟩

/-- Instances of a compiled protocol agree on the key parameters exactly if they have the same key
and it is divided by commas alike. -/
theorem agree_iff_key_eq {x : Lexicon} (hx : x.Acceptable) {source : String} {p : Protocol}
    (hp : Protocol.compile x source = .ok p) (hi : i.protocol = p) (hj : j.protocol = p) :
    (∀ q ∈ p.params, q.isKey = true → i.getValue q.name = j.getValue q.name) ↔
      i.key = j.key ∧ i.CommasAgree j := by
  have hu := Protocol.unambiguous_of_read hx (Protocol.compile_eq_ok.1 hp).1
  rw [key_eq_key_iff hu hi hj]
  constructor
  · intro h
    obtain ⟨r, -, -⟩ := hu.wellFormed.hasKey
    refine ⟨?_, .of_eq (hi ▸ h) r⟩
    rw [List.map_congr_left fun q hq =>
      h q (Parameters.mem_keys.1 hq).1 (Parameters.mem_keys.1 hq).2]
  · intro h
    obtain ⟨hjoint, r, hr⟩ := h
    rw [hi] at hr
    intro q hq hqk
    refine Text.intercalate_map_inj Text.separator_comma (keys_nodup hu) (r := r) ?_ hjoint q
      (Parameters.mem_keys.2 ⟨hq, hqk⟩)
    exact fun k hk => hr k (Parameters.mem_keys.1 hk).1 (Parameters.mem_keys.1 hk).2

theorem agree_iff_key_eq_of_lots :
    let source := "Sale\x7brole S,B\nparameter out id key, out lot key\n" ++
      "S->B:quote[out id key,out lot key]\n\x7d"
    let id : Parameter := ⟨"id", .output, true⟩
    let lot : Parameter := ⟨"lot", .output, true⟩
    let p : Protocol := ⟨"Sale", ["S", "B"], [id, lot], [⟨"quote", "S", "B", [id, lot]⟩]⟩
    let values : Bindings String := (∅ : Bindings String).insert "out id key" "7,8"
    let i : Instance := ⟨p, ∅, values, ∅⟩
    let j : Instance := ⟨p, ∅, values.insert "out lot key" "red, blue", ∅⟩
    Protocol.compile .default source = .ok p ∧ i.CommasAgree j ∧ i.key ≠ j.key ∧
      ((∀ q ∈ p.params, q.isKey = true → i.getValue q.name = j.getValue q.name) ↔
        i.key = j.key ∧ i.CommasAgree j) := by
  intro source id lot p values i j
  have hp : Protocol.compile .default source = .ok p :=
    Protocol.compile_eq_ok.2 ⟨by decide +kernel, Protocol.validate_eq_ok.2
      ⟨by decide, by decide, by decide, _, Protocol.schedule_finRange (by decide)⟩⟩
  have hcommas : i.CommasAgree j := ⟨lot, by decide +kernel⟩
  have hiff := agree_iff_key_eq (i := i) (j := j) Lexicon.acceptable_default hp rfl rfl
  have hlot : i.getValue "lot" ≠ j.getValue "lot" := by decide +kernel
  exact ⟨hp, hcommas, fun h => hlot (hiff.2 ⟨h, hcommas⟩ lot (by decide) rfl), hiff⟩

/-- A comma that moves from one value to the next one leaves the key as it was. -/
theorem key_eq_of_moved_comma :
    let source := "Sale\x7brole S,B\nparameter out id key, out lot key\n" ++
      "S->B:quote[out id key,out lot key]\n\x7d"
    let id : Parameter := ⟨"id", .output, true⟩
    let lot : Parameter := ⟨"lot", .output, true⟩
    let p : Protocol := ⟨"Sale", ["S", "B"], [id, lot], [⟨"quote", "S", "B", [id, lot]⟩]⟩
    let values (v w : String) : Bindings String :=
      ((∅ : Bindings String).insert "out id key" v).insert "out lot key" w
    let i : Instance := ⟨p, ∅, values "a,b" "c", ∅⟩
    let j : Instance := ⟨p, ∅, values "a" "b,c", ∅⟩
    Protocol.compile .default source = .ok p ∧ i.Reachable ∧ j.Reachable ∧ i.key = j.key ∧
      ¬ (i.key = j.key ↔
        ∀ q ∈ p.params, q.isKey = true → i.getValue q.name = j.getValue q.name) := by
  intro source id lot p values i j
  have hp : Protocol.compile .default source = .ok p :=
    Protocol.compile_eq_ok.2 ⟨by decide +kernel, Protocol.validate_eq_ok.2
      ⟨by decide, by decide, by decide, _, Protocol.schedule_finRange (by decide)⟩⟩
  have hreach (v w : String) : Reachable ⟨p, ∅, values v w, ∅⟩ := by
    have hid : Parameters.find? "id" p.params = some id := by decide +kernel
    have hlot : Parameters.find? "lot" p.params = some lot := by decide +kernel
    exact ⟨.default, Lexicon.acceptable_default,
      ((Enacted.start (.new hp ∅)).of_setValue (setValue_succeeds.2 ⟨id, hid, rfl⟩)).of_setValue
        (setValue_succeeds.2 ⟨lot, hlot, rfl⟩)⟩
  have hi : i.Reachable := hreach "a,b" "c"
  have hj : j.Reachable := hreach "a" "b,c"
  have hkeys : Parameters.keys p.params = [id, lot] := List.mergeSort_of_pairwise (by decide)
  have hkey : i.key = j.key := by
    rw [key_eq_key_iff (j := j) hi.traceable.protocol rfl rfl, hkeys]
    decide +kernel
  refine ⟨hp, hi, hj, hkey, fun h => ?_⟩
  exact absurd (h.1 hkey id (by decide) rfl) (by decide +kernel)

end InfoProtocol.Instance
