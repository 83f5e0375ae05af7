import InfoProtocol.Proofs.Instance.Key
import InfoProtocol.Proofs.Instance.Replay

/-!
# What the difference of two snapshots is

The difference is settled by looking at values alone: which of them clash, which are gained, and
which actions output exactly the names that are gained. Written forms lead back to the names of the
parameters they are written for, and the outputs of an action have different names, so that
comparing lengths and looking for each output compares the two sets of names.
-/

namespace InfoProtocol.Instance

variable {i j : Instance} {text v w : String} {a : Action} {ns : List String}

def Clashes (i j : Instance) (text v w : String) : Prop :=
  i.values.get? text = some v ∧ j.values.get? text = some w ∧ v ≠ "" ∧ w ≠ "" ∧ v ≠ w

structure FirstClash (i j : Instance) (text v w : String) : Prop where
  clashes : i.Clashes j text v w
  least : ∀ text' v' w', i.Clashes j text' v' w' → text ≤ text'

def Learns (i j : Instance) (name : String) : Prop := i.getValue name = "" ∧ j.getValue name ≠ ""

def Explains (i j : Instance) (a : Action) : Prop := ∀ n, n ∈ a.outNames ↔ i.Learns j n

theorem Clashes.symm (h : i.Clashes j text v w) : j.Clashes i text w v := by
  obtain ⟨hv, hw, hne, hne', hvw⟩ := h
  exact ⟨hw, hv, hne', hne, hvw.symm⟩

theorem FirstClash.symm (h : i.FirstClash j text v w) : j.FirstClash i text w v :=
  ⟨h.clashes.symm, fun _ _ _ hc => h.least _ _ _ hc.symm⟩

theorem FirstClash.unique {text' v' w' : String} (h : i.FirstClash j text v w)
    (h' : i.FirstClash j text' v' w') : text = text' ∧ v = v' ∧ w = w' := by
  obtain rfl : text = text' :=
    String.le_antisymm (h.least _ _ _ h'.clashes) (h'.least _ _ _ h.clashes)
  obtain ⟨hv, hw, -⟩ := h.clashes
  obtain ⟨hv', hw', -⟩ := h'.clashes
  rw [hv] at hv'
  rw [hw] at hw'
  exact ⟨rfl, Option.some.inj hv', Option.some.inj hw'⟩

theorem conflict?_eq_none_iff_no_clash :
    i.conflict? j = none ↔ ∀ text v w, ¬ i.Clashes j text v w := by
  rw [conflict?_eq_none]
  constructor
  · intro h text v w hc
    obtain ⟨hv, hw, hne, hne', hvw⟩ := hc
    rw [← valueAt_eq hne] at hv
    rcases h text w hw hne' with he | he
    · exact hne (hv.symm.trans he)
    · exact hvw (hv.symm.trans he)
  · intro h text w hw hne
    by_cases hv : i.valueAt text = ""
    · exact .inl hv
    · refine .inr (Decidable.byContradiction fun hvw => ?_)
      exact h text _ w ⟨(valueAt_eq hv).1 rfl, hw, hv, hne, hvw⟩

theorem firstClash_of_conflict? {e : InstanceError} (h : i.conflict? j = some e) :
    ∃ text v w, i.FirstClash j text v w ∧ e = .valueConflict text v w := by
  have hsorted := j.values.ascending
  obtain ⟨before, ⟨text, w⟩, after, hentries, he, hbefore⟩ := List.findSome?_eq_some_iff.1 h
  obtain ⟨⟨hw, hv, hvw⟩, he⟩ := Option.ite_none_right_eq_some.1 he
  have hget : j.values.get? text = some w := by
    rw [Bindings.get?_eq_some, hentries]
    simp
  refine ⟨text, _, w, ⟨⟨(valueAt_eq hv).1 rfl, hget, hv, hw, hvw⟩, fun text' v' w' hc => ?_⟩,
    (Option.some.inj he).symm⟩
  obtain ⟨hv', hw', hne, hne', hvw'⟩ := hc
  rw [Bindings.get?_eq_some, hentries] at hw'
  rw [hentries, List.pairwise_append, List.pairwise_cons] at hsorted
  rcases List.mem_append.1 hw' with hmem | hmem
  · -- an earlier clash would have been found instead
    have hnone := hbefore _ hmem
    rw [(valueAt_eq hne).2 hv', if_pos ⟨hne', hne, hvw'⟩] at hnone
    cases hnone
  · rcases List.mem_cons.1 hmem with hmem | hmem
    · obtain ⟨rfl, -⟩ := Prod.mk.inj hmem
      exact String.le_refl _
    · exact String.not_lt.1 (String.lt_asymm (hsorted.2.1.1 _ hmem))

theorem Learns.exists_param {n : String} (h : i.Learns j n) :
    ∃ q ∈ j.protocol.params, q.name = n := by
  cases hq : Parameters.find? n j.protocol.params with
  | none =>
    have hempty : j.getValue n = "" := by rw [getValue, hq]
    exact absurd hempty h.2
  | some q => exact ⟨q, Parameters.find?_mem hq⟩

theorem learns_iff (hi : i.protocol.Unambiguous) (hp : i.protocol = j.protocol) {n : String} :
    i.Learns j n ↔ ∃ q ∈ i.protocol.params, q.render ∈ (i.news j).keys ∧ q.name = n := by
  have hnews : ∀ q ∈ i.protocol.params,
      q.render ∈ (i.news j).keys ↔ i.Learns j q.name := by
    intro q hq
    have hq' : q ∈ j.protocol.params := hp ▸ hq
    rw [Learns, getValue_name hi hq, getValue_name (hp ▸ hi) hq', Bindings.mem_keys]
    simp only [get?_news, Gains, ← valueAt_eq_empty]
    constructor
    · intro h
      obtain ⟨v, hv, hne, hunset⟩ := h
      rw [(valueAt_eq hne).2 hv]
      exact ⟨hunset, hne⟩
    · intro h
      obtain ⟨hunset, hne⟩ := h
      exact ⟨_, (valueAt_eq hne).1 rfl, hne, hunset⟩
  constructor
  · intro h
    obtain ⟨q, hq, rfl⟩ := h.exists_param
    rw [← hp] at hq
    exact ⟨q, hq, (hnews q hq).2 h, rfl⟩
  · intro h
    obtain ⟨q, hq, ht, rfl⟩ := h
    exact (hnews q hq).1 ht

theorem exists_learned (hi : i.protocol.Unambiguous) (hp : i.protocol = j.protocol)
    (hj : j.Declared) :
    ∃ ns, (i.news j).keys.mapM i.nameOf = .ok ns ∧ ∀ n, n ∈ ns ↔ i.Learns j n := by
  obtain ⟨ns, hns, hmem⟩ := mapM_nameOf hi (news_declared hp hj)
  exact ⟨ns, hns, fun n => (hmem n).trans (learns_iff hi hp).symm⟩

theorem explains_iff (ha : a.outNames.Nodup) :
    explains a (sortedNames ns) = true ↔ ∀ n, n ∈ a.outNames ↔ n ∈ ns := by
  constructor
  · intro h
    simp only [explains, Bool.and_eq_true, decide_eq_true_eq, List.all_eq_true,
      List.contains_iff_mem] at h
    obtain ⟨hlen, hall⟩ := h
    have hperm : a.outNames.Perm (sortedNames ns) :=
      (ha.subperm hall).perm_of_length_le hlen.ge
    exact fun n => hperm.mem_iff.trans mem_sortedNames
  · intro h
    exact explains_sortedNames ha fun n => (h n).symm

theorem explains_iff_outNames : i.Explains j a ↔ (∀ n ∈ a.outNames, i.Learns j n) ∧
    ∀ q ∈ j.protocol.params, i.Learns j q.name → q.name ∈ a.outNames := by
  constructor
  · intro h
    exact ⟨fun n hn => (h n).1 hn, fun q _ hq => (h q.name).2 hq⟩
  · intro h n
    refine ⟨h.1 n, fun hn => ?_⟩
    obtain ⟨q, hq, rfl⟩ := hn.exists_param
    exact h.2 q hq hn

instance (i j : Instance) (n : String) : Decidable (i.Learns j n) :=
  inferInstanceAs (Decidable (_ ∧ _))

instance (i j : Instance) (a : Action) : Decidable (i.Explains j a) :=
  decidable_of_iff _ explains_iff_outNames.symm

/-- The outcome of comparing `i` with `j`: their protocols differ, or values clash, or the actions
that output exactly what is learned are named together with what is gained, or no action is. -/
inductive Difference (i j : Instance) : Except InstanceError Diff → Prop
  | mismatch (hp : i.protocol ≠ j.protocol) :
      Difference i j (.error (.protocolMismatch i.protocol.key j.protocol.key))
  | conflict (hp : i.protocol = j.protocol) {text v w : String} (hc : i.FirstClash j text v w) :
      Difference i j (.error (.valueConflict text v w))
  | explained (hp : i.protocol = j.protocol) (hc : ∀ text v w, ¬ i.Clashes j text v w) {d : Diff}
      (ha : d.actions = i.protocol.actions.filter fun a => i.Explains j a) (hne : d.actions ≠ [])
      (hv : ∀ text w, d.values.get? text = some w ↔ i.Gains j text w) : Difference i j (.ok d)
  | unexplained (hp : i.protocol = j.protocol) (hc : ∀ text v w, ¬ i.Clashes j text v w)
      (ha : ∀ a ∈ i.protocol.actions, ¬ i.Explains j a) {names : List String}
      (hsorted : names.Pairwise (· < ·)) (hn : ∀ n, n ∈ names ↔ i.Learns j n) :
      Difference i j (.error (.unmatchedDiff names))

theorem difference_diff (hi : i.protocol.Unambiguous) (hj : j.Declared) :
    i.Difference j (i.diff j) := by
  unfold diff
  split
  · next hp => exact .mismatch hp
  · next hp =>
    rw [not_not] at hp
    split
    · next e he =>
      obtain ⟨text, v, w, hc, rfl⟩ := firstClash_of_conflict? he
      exact .conflict hp hc
    · next he =>
      have hc := conflict?_eq_none_iff_no_clash.1 he
      obtain ⟨ns, hns, hmem⟩ := exists_learned hi hp hj
      have hfilter : (i.protocol.actions.filter fun a => explains a (sortedNames ns)) =
          i.protocol.actions.filter fun a => i.Explains j a := by
        apply List.filter_congr
        intro a ha
        rw [Bool.eq_iff_iff, explains_iff (outNames_nodup hi ha), decide_eq_true_eq]
        simp only [hmem, Explains]
      simp only [hns, hfilter]
      split
      · next hnil =>
        refine .unexplained hp hc ?_ (Bindings.keys_ascending _) fun n => ?_
        · simpa [List.filter_eq_nil_iff] using hnil
        · exact mem_sortedNames.trans (hmem n)
      · next hne => exact .explained hp hc rfl hne fun text w => get?_news

theorem Difference.unique {r s : Except InstanceError Diff} (hr : i.Difference j r)
    (hs : i.Difference j s) : r = s := by
  cases hr with
  | mismatch hp =>
    cases hs with
    | mismatch => rfl
    | conflict hp' | explained hp' | unexplained hp' => exact absurd hp' hp
  | conflict hp hc =>
    cases hs with
    | mismatch hp' => exact absurd hp hp'
    | conflict _ hc' =>
      obtain ⟨rfl, rfl, rfl⟩ := hc.unique hc'
      rfl
    | explained _ hc' | unexplained _ hc' => exact absurd hc.clashes (hc' _ _ _)
  | @explained hp hc d ha hne hv =>
    cases hs with
    | mismatch hp' => exact absurd hp hp'
    | conflict _ hc' => exact absurd hc'.clashes (hc _ _ _)
    | @explained _ _ d' ha' _ hv' =>
      have hvalues : d.values = d'.values := by
        apply Bindings.ext
        intro text
        apply Option.ext
        intro w
        rw [hv, hv']
      cases d
      cases d'
      rw [Except.ok.injEq, Diff.mk.injEq]
      exact ⟨ha.trans ha'.symm, hvalues⟩
    | unexplained _ _ ha' =>
      refine absurd (ha.trans ?_) hne
      simpa [List.filter_eq_nil_iff] using ha'
  | @unexplained hp hc ha names hsorted hn =>
    cases hs with
    | mismatch hp' => exact absurd hp hp'
    | conflict _ hc' => exact absurd hc'.clashes (hc _ _ _)
    | explained _ _ ha' hne' =>
      refine absurd (ha'.trans ?_) hne'
      simpa [List.filter_eq_nil_iff] using ha
    | @unexplained _ _ _ names' hsorted' hn' =>
      have hperm : names.Perm names' :=
        (List.perm_ext_iff_of_nodup (hsorted.imp fun h => String.ne_of_lt h)
          (hsorted'.imp fun h => String.ne_of_lt h)).2 fun n => (hn n).trans (hn' n).symm
      rw [hperm.eq_of_pairwise (fun _ _ _ _ h h' => absurd h (String.lt_asymm h')) hsorted hsorted']

theorem diff_eq_iff (hi : i.protocol.Unambiguous) (hj : j.Declared)
    {r : Except InstanceError Diff} : i.diff j = r ↔ i.Difference j r := by
  constructor
  · intro h
    exact h ▸ difference_diff hi hj
  · intro h
    exact (difference_diff hi hj).unique h

theorem diff_eq_valueConflict (hi : i.protocol.Unambiguous) (hj : j.Declared) :
    i.diff j = .error (.valueConflict text v w) ↔
      i.protocol = j.protocol ∧ i.FirstClash j text v w := by
  rw [diff_eq_iff hi hj]
  constructor
  · intro h
    cases h with
    | conflict hp hc => exact ⟨hp, hc⟩
  · intro h
    obtain ⟨hp, hc⟩ := h
    exact .conflict hp hc

/-- The difference is determined by the values and the outputs of the actions, and a conflict does
not depend on the side from which it is looked at. -/
theorem diff_exact (ha : i.Reachable) (hb : j.Reachable) :
    (∀ r, i.diff j = r ↔ i.Difference j r) ∧
    ∀ text, (∃ v w, i.diff j = .error (.valueConflict text v w)) ↔
      ∃ v w, j.diff i = .error (.valueConflict text v w) := by
  have hi := ha.traceable
  have hj := hb.traceable
  refine ⟨fun r => diff_eq_iff hi.protocol hj.declared, fun text => ?_⟩
  simp only [diff_eq_valueConflict hi.protocol hj.declared,
    diff_eq_valueConflict hj.protocol hi.declared]
  constructor
  · intro h
    obtain ⟨v, w, hp, hc⟩ := h
    exact ⟨w, v, hp.symm, hc.symm⟩
  · intro h
    obtain ⟨w, v, hp, hc⟩ := h
    exact ⟨v, w, hp.symm, hc.symm⟩

theorem diff_exact_offers :
    let source := "Offer\x7brole S,B\nparameter out id key\nS->B:quote[out id key]\n\x7d"
    let id : Parameter := ⟨"id", .output, true⟩
    let quote : Action := ⟨"quote", "S", "B", [id]⟩
    let i : Instance := .new ⟨"Offer", ["S", "B"], [id], [quote]⟩ ∅
    let j : Instance := { i with values := (∅ : Bindings String).insert "out id key" "7" }
    let k : Instance := { i with values := (∅ : Bindings String).insert "out id key" "8" }
    Protocol.compile .default source = .ok i.protocol ∧
      i.Reachable ∧ j.Reachable ∧ k.Reachable ∧
      i.Difference j (.ok ⟨[quote], j.values⟩) ∧ j.Difference i (.error (.unmatchedDiff [])) ∧
      j.FirstClash k "out id key" "7" "8" ∧
      ∃ v w, k.diff j = .error (.valueConflict "out id key" v w) := by
  intro source id quote i j k
  have hp : Protocol.compile .default source = .ok i.protocol :=
    Protocol.compile_eq_ok.2 ⟨by decide +kernel, Protocol.validate_eq_ok.2
      ⟨by decide, by decide, by decide, _, Protocol.schedule_finRange (by decide)⟩⟩
  have hi : i.Reachable := ⟨.default, Lexicon.acceptable_default, .start (.new hp ∅)⟩
  have hset : ∀ v,
      i.setValue "id" v = ({ i with values := i.values.insert "out id key" v }, none) :=
    fun v => setValue_succeeds.2 ⟨id, by decide +kernel, rfl⟩
  have hj : j.Reachable :=
    ⟨.default, Lexicon.acceptable_default, (Enacted.start (.new hp ∅)).of_setValue (hset "7")⟩
  have hk : k.Reachable :=
    ⟨.default, Lexicon.acceptable_default, (Enacted.start (.new hp ∅)).of_setValue (hset "8")⟩
  have hclash : j.diff k = .error (.valueConflict "out id key" "7" "8") := by decide +kernel
  refine ⟨hp, hi, hj, hk, ((diff_exact hi hj).1 _).1 (by decide +kernel),
    ((diff_exact hj hi).1 _).1 (by decide +kernel), ?_,
    ((diff_exact hj hk).2 "out id key").1 ⟨"7", "8", hclash⟩⟩
  cases ((diff_exact hj hk).1 _).1 hclash with
  | conflict _ hc => exact hc

end InfoProtocol.Instance
