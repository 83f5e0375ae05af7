import InfoProtocol.Proofs.Instance.Cells
import InfoProtocol.Proofs.Protocol.Canonical

/-!
# Two views of the key

What identifies an instance can be had as the values of its key parameters by name, or as one text
that joins these values in canonical order. The first goes from each key parameter to its name, and
from the name to the first parameter that has it; the second goes from the parameter to its written
form. In a compiled protocol both come to the same cell, so instances whose key values do not differ
have the same key, and only setting a key parameter changes either view.
-/

namespace InfoProtocol

/-- The canonical order of key parameters: by scope, then by name. -/
def Parameter.Precedes (q r : Parameter) : Prop :=
  q.scope.Before r.scope ∨ q.scope = r.scope ∧ q.name < r.name

theorem Parameter.precedes_of_le {q r : Parameter} (hr : r.isKey = true)
    (hname : q.name ≠ r.name) (h : q.le r = true) : q.Precedes r := by
  have hlt := order_eq_lt_of_le h fun hqr => hname (congrArg name hqr)
  rcases order_eq_lt.1 hlt with ⟨-, hr'⟩ | ⟨-, hprecedes⟩
  · rw [hr] at hr'
    cases hr'
  · exact hprecedes

theorem Parameters.keys_pairwise {ps : List Parameter} (h : ((keys ps).map (·.name)).Nodup) :
    (keys ps).Pairwise Parameter.Precedes := by
  have hsorted : (keys ps).Pairwise fun q r => q.le r = true :=
    List.pairwise_mergeSort Parameter.le_trans Parameter.le_total _
  refine (hsorted.and (List.pairwise_map.1 h)).imp_of_mem fun {q r} _ hr hqr => ?_
  exact Parameter.precedes_of_le (mem_keys.1 hr).2 hqr.2 hqr.1

namespace Instance

variable {i j : Instance} {p : Protocol} {q : Parameter}

theorem keyed_nodup (hi : i.protocol.Unambiguous) :
    (((Parameters.keys i.protocol.params).map fun q => (q.name, i.getValue q.name)).map
      (·.1)).Nodup := by
  rw [List.map_map]
  exact keyNames_nodup hi

theorem get?_keys (hi : i.protocol.Unambiguous) (hq : q ∈ i.protocol.params)
    (hkey : q.isKey = true) : i.keys.get? q.name = some (i.getValue q.name) := by
  rw [keys, Bindings.get?_ofList (keyed_nodup hi)]
  exact List.mem_map_of_mem (Parameters.mem_keys.2 ⟨hq, hkey⟩)

theorem keys_perm (hi : i.protocol.Unambiguous) :
    i.keys.keys.Perm ((i.protocol.params.filter (·.isKey)).map (·.name)) := by
  have hnames := Bindings.keys_ofList_perm (keyed_nodup hi)
  rw [List.map_map] at hnames
  exact hnames.trans ((Parameters.sort_perm _).map _)

def KeysAgree (i j : Instance) : Prop :=
  ∀ q ∈ i.protocol.params, q.isKey = true → i.getValue q.name = j.getValue q.name

theorem KeysAgree.keys_eq (hp : i.protocol = j.protocol) (h : i.KeysAgree j) :
    i.keys = j.keys := by
  rw [keys, keys, ← hp, List.map_congr_left fun q hq =>
    congrArg (q.name, ·) (h q (Parameters.mem_keys.1 hq).1 (Parameters.mem_keys.1 hq).2)]

theorem KeysAgree.key_eq (hi : i.protocol.Unambiguous) (hp : i.protocol = j.protocol)
    (h : i.KeysAgree j) : i.key = j.key := by
  rw [key_eq_key_iff hi rfl hp.symm, List.map_congr_left fun q hq =>
    h q (Parameters.mem_keys.1 hq).1 (Parameters.mem_keys.1 hq).2]

theorem keysAgree_of_not_differ (hi : i.protocol.Unambiguous) (hp : i.protocol = j.protocol)
    (h : differ i j = false) : i.KeysAgree j := by
  have hkeys : i.keys = j.keys := not_ne_iff.1 (of_decide_eq_false h)
  intro q hq hkey
  have hvalue := get?_keys hi hq hkey
  rw [hkeys, get?_keys (hp ▸ hi) (hp ▸ hq) hkey] at hvalue
  exact (Option.some.inj hvalue).symm

theorem keysAgree_put (hi : i.protocol.Unambiguous) (hq : q ∈ i.protocol.params)
    (hkey : q.isKey = false) (v : String) : (i.put q v).KeysAgree i := by
  intro r hr hrkey
  have hne : r.name ≠ q.name := by
    intro h
    rw [hi.eq_of_name_eq hr hq h, hkey] at hrkey
    cases hrkey
  rw [getValue_put hi hq, Function.update_of_ne hne]

/-- The key of an instance is that of its protocol, a colon and the values of the key parameters,
which it has by name, in canonical order. If these do not differ then neither do the keys, and
neither of the two changes when another parameter is set. -/
theorem key_views_agree {x : Lexicon} (hx : x.Acceptable) {source : String}
    (hp : Protocol.compile x source = .ok p) :
    (∀ i : Instance, i.protocol = p →
      i.keys.keys.Perm ((p.params.filter (·.isKey)).map (·.name)) ∧
      (∀ q ∈ p.params, q.isKey = true → i.keys.get? q.name = some (i.getValue q.name)) ∧
      ∃ (qs : List Parameter) (vs : List String), qs.Perm (p.params.filter (·.isKey)) ∧
        qs.Pairwise Parameter.Precedes ∧ qs.map (fun q => i.keys.get? q.name) = vs.map some ∧
        i.key = p.key ++ ":" ++ ",".intercalate vs) ∧
    (∀ i j : Instance, i.protocol = p → j.protocol = p → differ i j = false → i.key = j.key) ∧
    ∀ i : Instance, i.protocol = p → ∀ q ∈ p.params, q.isKey = false → ∀ v,
      ∃ j, i.setValue q.name v = (j, none) ∧ j.keys = i.keys ∧ j.key = i.key := by
  have hu := Protocol.unambiguous_of_read hx (Protocol.compile_eq_ok.1 hp).1
  refine ⟨fun i hi => ?_, fun i j hi hj h => ?_, fun i hi q hq hkey v => ?_⟩
  · subst hi
    have hkey := key_eq (i := i) hu
    have hvalues : (Parameters.keys i.protocol.params).map (fun q => i.keys.get? q.name) =
        ((Parameters.keys i.protocol.params).map fun q => i.getValue q.name).map some := by
      rw [List.map_map]
      exact List.map_congr_left fun q hq =>
        get?_keys hu (Parameters.mem_keys.1 hq).1 (Parameters.mem_keys.1 hq).2
    have hsorted := Parameters.keys_pairwise (keyNames_nodup hu)
    exact ⟨keys_perm hu, fun q => get?_keys hu, _, _, Parameters.sort_perm _, hsorted, hvalues, hkey⟩
  · subst hi
    exact (keysAgree_of_not_differ hu hj.symm h).key_eq hu hj.symm
  · subst hi
    have hagree := keysAgree_put hu hq hkey v
    exact ⟨i.put q v, setValue_succeeds.2 ⟨q, hu.find?_name hq, rfl⟩, hagree.keys_eq rfl,
      hagree.key_eq hu rfl⟩

theorem key_views_agree_sale :
    let source := "Sale\x7brole S,B\nparameter out id key, in lot key, out sum\n" ++
      "S->B:quote[out id key,in lot key,out sum]\n\x7d"
    let id : Parameter := ⟨"id", .output, true⟩
    let lot : Parameter := ⟨"lot", .input, true⟩
    let sum : Parameter := ⟨"sum", .output, false⟩
    let ps : List Parameter := [id, lot, sum]
    let p : Protocol := ⟨"Sale", ["S", "B"], ps, [⟨"quote", "S", "B", ps⟩]⟩
    let i : Instance := ⟨p, ∅, (∅ : Bindings String).insert "in lot key" "red", ∅⟩
    let j : Instance := ⟨p, ∅, i.values.insert "out id key" "", ∅⟩
    Protocol.compile .default source = .ok p ∧ i.keys.get? "lot" = some "red" ∧
      i.key = "Sale,lot,id:red," ∧ differ i j = false ∧ i.key = j.key ∧
      ∃ k, i.setValue "sum" "9" = (k, none) ∧ k.keys = i.keys ∧ k.key = i.key := by
  intro source id lot sum ps p i j
  have hp : Protocol.compile .default source = .ok p :=
    Protocol.compile_eq_ok.2 ⟨by decide +kernel, Protocol.validate_eq_ok.2
      ⟨by decide, by decide, by decide, _, Protocol.schedule_finRange (by decide)⟩⟩
  obtain ⟨hviews, hdiffer, hset⟩ := key_views_agree Lexicon.acceptable_default hp
  obtain ⟨-, hvalues, -⟩ := hviews i rfl
  have hkeys : Parameters.keys ps = [lot, id] := by
    have hswap : Parameters.sort [id, lot] = Parameters.sort [lot, id] :=
      Parameters.sort_eq_sort.2 (.swap lot id [])
    exact hswap.trans (List.mergeSort_of_pairwise (by decide))
  have hagree : i.KeysAgree j := by
    change ∀ q ∈ ps, q.isKey = true → i.getValue q.name = j.getValue q.name
    decide +kernel
  have hsame : differ i j = false := decide_eq_false (not_ne_iff.2 (hagree.keys_eq rfl))
  have hkey : i.key = "Sale,lot,id:red," := by
    change p.key ++ ":" ++ ",".intercalate ((Parameters.keys ps).map fun q => i.valueAt q.render) = _
    rw [Protocol.key, hkeys]
    decide +kernel
  exact ⟨hp, hvalues lot (by decide) rfl, hkey, hsame, hdiffer i j rfl rfl hsame,
    hset i rfl sum (by decide) rfl "9"⟩

end Instance

end InfoProtocol
