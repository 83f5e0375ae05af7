import InfoProtocol.Proofs.Instance.Update

/-!
# Replaying a run

An agent takes an action by setting the action's outputs, which had no values. Between the
snapshots before and after, the news are those outputs and nothing else, so the difference names
the action, and updating by it leads to the snapshot after. Whoever starts from the first snapshot
and takes over the others in turn ends at the last one.
-/

namespace InfoProtocol.Instance

variable {i j : Instance} {a : Action} {value : String → String} {ns : List String}

/-- One after another, sets the parameters with these names, as long as this succeeds. -/
def setAll (i : Instance) (value : String → String) (ns : List String) :
    Except InstanceError Instance :=
  ns.foldlM (fun j n => j.setValue n (value n)) i

/-- `j` is `i` after the outputs of `a` were set, in some order. Setting them succeeds, so the
protocol declares them all. -/
structure Performs (i : Instance) (a : Action) (value : String → String) (j : Instance) : Prop where
  action : a ∈ i.protocol.actions
  unset : ∀ n ∈ a.outNames, i.getValue n = ""
  value_ne : ∀ n ∈ a.outNames, value n ≠ ""
  result : ∃ ns : List String, ns.Perm a.outNames ∧ i.setAll value ns = .ok j

structure Deed where
  action : Action
  value : String → String
  after : Instance

inductive Course : Instance → List Deed → Prop
  | nil (i : Instance) : Course i []
  | cons {i : Instance} {s : Deed} {rest : List Deed}
      (h : Performs i s.action s.value s.after) (ht : Course s.after rest) : Course i (s :: rest)

theorem setAll_cons_eq_ok {n : String} :
    i.setAll value (n :: ns) = .ok j ↔
      ∃ k, i.setValue n (value n) = (k, none) ∧ k.setAll value ns = .ok j := by
  simp only [setAll, List.foldlM_cons]
  rcases i.setValue n (value n) with ⟨k, _ | e⟩ <;> simp [bind, Except.bind, Outcome.result]

theorem setAll_spec (hi : i.protocol.Unambiguous) (h : i.setAll value ns = .ok j) :
    (∃ values, j = { i with values := values }) ∧
    (∀ n ∈ ns, ∃ q ∈ i.protocol.params, q.name = n) ∧
    (∀ q ∈ i.protocol.params, q.name ∈ ns → j.values.get? q.render = some (value q.name)) ∧
    ∀ text, (∀ q ∈ i.protocol.params, q.name ∈ ns → q.render ≠ text) →
      j.values.get? text = i.values.get? text := by
  induction ns generalizing i with
  | nil =>
    cases h
    exact ⟨⟨_, rfl⟩, by simp, by simp, fun _ _ => rfl⟩
  | cons n ns ih =>
    obtain ⟨k, hk, hj⟩ := setAll_cons_eq_ok.1 h
    obtain ⟨q, hq, rfl⟩ := setValue_succeeds.1 hk
    obtain ⟨hmem, rfl⟩ := Parameters.find?_mem hq
    obtain ⟨⟨values, rfl⟩, hdecl, hset, hrest⟩ :=
      ih (i := { i with values := i.values.insert q.render (value q.name) }) hi hj
    refine ⟨⟨values, rfl⟩, ?_, fun r hr hn => ?_, fun text htext => ?_⟩
    · exact List.forall_mem_cons.2 ⟨⟨q, hmem, rfl⟩, hdecl⟩
    · by_cases hns : r.name ∈ ns
      · exact hset r hr hns
      · -- `r` is set now and not again
        have hname : r.name = q.name := (List.mem_cons.1 hn).resolve_right hns
        have hqr : q = r := by
          have hr' := hi.find?_name hr
          rw [hname, hq] at hr'
          exact Option.some.inj hr'
        rw [hqr] at hrest
        rw [hrest r.render, Bindings.get?_insert, if_pos rfl]
        intro s hs hsn he
        exact hns (hi.eq_of_render_eq hs hr he ▸ hsn)
    · rw [hrest text fun r hr hn => htext r hr (List.mem_cons_of_mem _ hn), Bindings.get?_insert,
        if_neg fun he => htext q hmem List.mem_cons_self he.symm]

theorem exists_setAll (h : ∀ n ∈ ns, ∃ q ∈ i.protocol.params, q.name = n) :
    ∃ j, i.setAll value ns = .ok j := by
  induction ns generalizing i with
  | nil => exact ⟨i, rfl⟩
  | cons n ns ih =>
    obtain ⟨hn, hns⟩ := List.forall_mem_cons.1 h
    rcases hk : i.setValue n (value n) with ⟨k, _ | e⟩
    · obtain ⟨q, -, rfl⟩ := setValue_succeeds.1 hk
      obtain ⟨j, hj⟩ := ih (i := { i with values := i.values.insert q.render (value n) }) hns
      exact ⟨j, setAll_cons_eq_ok.2 ⟨_, hk, hj⟩⟩
    · obtain ⟨q, hq, he⟩ := hn
      exact absurd he ((setValue_fails.1 hk).1 q hq)

theorem exists_performs (ha : a ∈ i.protocol.actions)
    (hdecl : ∀ n ∈ a.outNames, ∃ q ∈ i.protocol.params, q.name = n)
    (hunset : ∀ n ∈ a.outNames, i.getValue n = "") (hvalue : ∀ n ∈ a.outNames, value n ≠ "") :
    ∃ j, Performs i a value j := by
  obtain ⟨j, hj⟩ := exists_setAll hdecl
  exact ⟨j, ha, hunset, hvalue, a.outNames, .refl _, hj⟩

theorem mem_sortedNames {n : String} : n ∈ sortedNames ns ↔ n ∈ ns := by
  change n ∈ ((∅ : Bindings Unit).insertAll (ns.map fun n => (n, ()))).keys ↔ _
  rw [Bindings.mem_keys_insertAll, Bindings.mem_keys]
  simp

theorem explains_sortedNames (ha : a.outNames.Nodup) (h : ∀ n, n ∈ ns ↔ n ∈ a.outNames) :
    explains a (sortedNames ns) = true := by
  have hmem : ∀ n, n ∈ a.outNames ↔ n ∈ sortedNames ns := fun n => by rw [mem_sortedNames, h]
  have hperm : a.outNames.Perm (sortedNames ns) :=
    (List.perm_ext_iff_of_nodup ha (Bindings.keys_nodup _)).2 hmem
  simp only [explains, Bool.and_eq_true, decide_eq_true_eq, List.all_eq_true,
    List.contains_iff_mem]
  exact ⟨hperm.length_eq, fun n hn => (hmem n).1 hn⟩

theorem Performs.protocol_eq (hi : i.protocol.Unambiguous) (h : Performs i a value j) :
    j.protocol = i.protocol := by
  obtain ⟨ns, -, hj⟩ := h.result
  obtain ⟨⟨values, rfl⟩, -⟩ := setAll_spec hi hj
  rfl

theorem Performs.gains_iff (hi : i.protocol.Unambiguous) (h : Performs i a value j)
    {text v : String} : i.Gains j text v ↔
      ∃ q ∈ i.protocol.params, q.name ∈ a.outNames ∧ text = q.render ∧ v = value q.name := by
  obtain ⟨ns, hns, hj⟩ := h.result
  obtain ⟨-, -, hset, hrest⟩ := setAll_spec hi hj
  simp only [hns.mem_iff] at hset hrest
  constructor
  · intro hg
    obtain ⟨hv, hne, hunset⟩ := hg
    by_cases hout : ∃ q ∈ i.protocol.params, q.name ∈ a.outNames ∧ q.render = text
    · obtain ⟨q, hq, hn, rfl⟩ := hout
      rw [hset q hq hn] at hv
      exact ⟨q, hq, hn, rfl, (Option.some.inj hv).symm⟩
    · -- what is no output is as before, and no news
      rw [hrest text fun q hq hn he => hout ⟨q, hq, hn, he⟩] at hv
      rw [hv] at hunset
      simp [hne] at hunset
  · intro hq
    obtain ⟨q, hq, hn, rfl, rfl⟩ := hq
    refine ⟨hset q hq hn, h.value_ne _ hn, valueAt_eq_empty.1 ?_⟩
    have hunset := h.unset _ hn
    rwa [getValue, hi.find?_name hq] at hunset

theorem Performs.values_eq (hi : i.protocol.Unambiguous) (h : Performs i a value j) :
    j = { i with values := i.values.overlay (i.news j) } := by
  obtain ⟨ns, hns, hj⟩ := h.result
  obtain ⟨⟨values, rfl⟩, -, hset, hrest⟩ := setAll_spec hi hj
  simp only [hns.mem_iff] at hset hrest
  congr 1
  apply Bindings.ext
  intro text
  rw [Bindings.get?_overlay]
  cases hnews : (i.news { i with values := values }).get? text with
  | some v => exact (get?_news.1 hnews).1
  | none =>
    rw [Option.none_or]
    refine hrest text fun q hq hn he => ?_
    exact get?_news_eq_none.1 hnews _ ((h.gains_iff hi).2 ⟨q, hq, hn, he.symm, rfl⟩)

theorem outNames_nodup (hi : i.protocol.Unambiguous) (ha : a ∈ i.protocol.actions) :
    a.outNames.Nodup :=
  (hi.wellFormed.actions a ha).params.nodup.sublist (List.filter_sublist.map _)

theorem Performs.conflict?_eq (hi : i.protocol.Unambiguous) (h : Performs i a value j) :
    i.conflict? j = none := by
  have hvalues : j.values = i.values.overlay (i.news j) :=
    congrArg Instance.values (h.values_eq hi)
  rw [conflict?_eq_none]
  intro text v hv hne
  rw [hvalues, Bindings.get?_overlay, Option.or_eq_some_iff] at hv
  rcases hv with hnews | ⟨-, hold⟩
  · exact .inl (valueAt_eq_empty.2 (get?_news.1 hnews).2.2)
  · exact .inr ((valueAt_eq hne).2 hold)

theorem Performs.names_eq (hi : i.protocol.Unambiguous) (h : Performs i a value j) :
    ∃ ns, (i.news j).keys.mapM i.nameOf = .ok ns ∧ ∀ n, n ∈ ns ↔ n ∈ a.outNames := by
  have hkey : ∀ text, text ∈ (i.news j).keys ↔
      ∃ q ∈ i.protocol.params, q.name ∈ a.outNames ∧ q.render = text := by
    intro text
    simp only [Bindings.mem_keys, get?_news, h.gains_iff hi]
    grind
  obtain ⟨ns, hns, hmem⟩ := mapM_nameOf hi fun text ht => by
    obtain ⟨q, hq, -, he⟩ := (hkey text).1 ht
    exact ⟨q, hq, he⟩
  refine ⟨ns, hns, fun n => ?_⟩
  rw [hmem]
  constructor
  · intro hn
    obtain ⟨q, hq, ht, rfl⟩ := hn
    obtain ⟨r, hr, hout, he⟩ := (hkey _).1 ht
    exact hi.eq_of_render_eq hr hq he ▸ hout
  · intro hn
    obtain ⟨ms, hms, hj⟩ := h.result
    obtain ⟨q, hq, rfl⟩ := (setAll_spec hi hj).2.1 n (hms.mem_iff.2 hn)
    exact ⟨q, hq, (hkey _).2 ⟨q, hq, hn, rfl⟩, rfl⟩

theorem Performs.diff_eq (hi : i.protocol.Unambiguous) (h : Performs i a value j) :
    ∃ d, i.diff j = .ok d ∧ a ∈ d.actions ∧ d.values = i.news j := by
  obtain ⟨ns, hns, hmem⟩ := h.names_eq hi
  have ha : a ∈ i.protocol.actions.filter fun b => explains b (sortedNames ns) :=
    List.mem_filter.2 ⟨h.action, explains_sortedNames (outNames_nodup hi h.action) hmem⟩
  exact ⟨_, diff_eq_ok.2 ⟨(h.protocol_eq hi).symm, h.conflict?_eq hi, ns, hns, rfl,
    List.ne_nil_of_mem ha⟩, ha, rfl⟩

theorem Performs.update_eq (hi : i.protocol.Unambiguous) (h : Performs i a value j) :
    i.update j = (j, none) := by
  obtain ⟨d, hd, -, hv⟩ := h.diff_eq hi
  have hassign : i.assign (i.news j).entries =
      ({ i with values := i.values.overlay (i.news j) }, none) := by
    apply assign_declared hi
    intro e he
    obtain ⟨q, hq, -, ht, -⟩ := (h.gains_iff hi).1 (get?_news.1 (Bindings.get?_eq_some.2 he))
    exact ⟨q, hq, ht.symm⟩
  rw [update, hd]
  simp only [hv, hassign, ← h.values_eq hi]

def lastOf (i : Instance) (deeds : List Deed) : Instance := (deeds.map (·.after)).getLastD i

theorem Course.follow_eq {deeds : List Deed} (hi : i.protocol.Unambiguous)
    (h : Course i deeds) : i.follow (deeds.map (·.after)) = .ok (i.lastOf deeds) := by
  induction h with
  | nil i => rfl
  | @cons i s rest hs _ ih =>
    have hp : s.after.protocol.Unambiguous := by rwa [hs.protocol_eq hi]
    rw [lastOf, List.map_cons, List.getLastD_cons, follow_cons_eq_ok]
    exact ⟨s.after, hs.update_eq hi, ih hp⟩

theorem Course.diff_eq {deeds done rest : List Deed} {s : Deed} (hi : i.protocol.Unambiguous)
    (h : Course i deeds) (he : deeds = done ++ s :: rest) :
    ∃ here d, i.follow (done.map (·.after)) = .ok here ∧ here.diff s.after = .ok d ∧
      s.action ∈ d.actions ∧ ∀ text v, d.values.get? text = some v ↔
        ∃ q ∈ i.protocol.params, q.name ∈ s.action.outNames ∧ text = q.render ∧
          v = s.value q.name := by
  induction h generalizing done with
  | nil i => simp at he
  | @cons i t deeds ht _ ih =>
    cases done with
    | nil =>
      obtain ⟨rfl, rfl⟩ := List.cons.inj he
      obtain ⟨d, hd, ha, hv⟩ := ht.diff_eq hi
      refine ⟨i, d, rfl, hd, ha, fun text v => ?_⟩
      rw [hv, get?_news]
      exact ht.gains_iff hi
    | cons u done =>
      obtain ⟨rfl, rfl⟩ := List.cons.inj he
      have hp : t.after.protocol = i.protocol := ht.protocol_eq hi
      obtain ⟨here, d, hhere, hrest⟩ := ih (by rwa [hp]) rfl
      rw [hp] at hrest
      exact ⟨here, d, follow_cons_eq_ok.2 ⟨t.after, ht.update_eq hi, hhere⟩, hrest⟩

/-- Taking over the snapshots of a run one by one succeeds and ends at the last; each difference on
the way names the action that was taken and has its outputs for values. -/
theorem follow_replays {x : Lexicon} (hx : x.Acceptable) {source : String} {p : Protocol}
    (hp : Protocol.compile x source = .ok p) {start : Instance} (hstart : start.protocol = p)
    {deeds : List Deed} (hrun : Course start deeds) :
    start.follow (deeds.map (·.after)) = .ok (start.lastOf deeds) ∧
    ∀ done s rest, deeds = done ++ s :: rest → ∃ here d,
      start.follow (done.map (·.after)) = .ok here ∧ here.diff s.after = .ok d ∧
      s.action ∈ d.actions ∧ ∀ text v, d.values.get? text = some v ↔
        ∃ q ∈ p.params, q.name ∈ s.action.outNames ∧ text = q.render ∧ v = s.value q.name := by
  subst hstart
  have hi := Protocol.unambiguous_of_read hx (Protocol.compile_eq_ok.1 hp).1
  exact ⟨hrun.follow_eq hi, fun _ _ _ he => hrun.diff_eq hi he⟩

theorem follow_replays_offer :
    let source :=
      "Offer\x7brole S,B\nparameter out id key\nS->B:quote[out id key]\nB->S:note[in id key]\n\x7d"
    let id : Parameter := ⟨"id", .output, true⟩
    let quote : Action := ⟨"quote", "S", "B", [id]⟩
    let note : Action := ⟨"note", "B", "S", [⟨"id", .input, true⟩]⟩
    let p : Protocol := ⟨"Offer", ["S", "B"], [id], [quote, note]⟩
    let start : Instance := ⟨p, ∅, (∅ : Bindings String).insert "out id key" "", ∅⟩
    let after : Instance := { start with values := (∅ : Bindings String).insert "out id key" "7" }
    let deeds : List Deed := [⟨quote, fun _ => "7", after⟩, ⟨note, fun _ => "", after⟩]
    Protocol.compile .default source = .ok p ∧ start.protocol = p ∧ Course start deeds ∧
      start.follow (deeds.map (·.after)) = .ok (start.lastOf deeds) ∧
      ∀ done s rest, deeds = done ++ s :: rest → ∃ here d,
        start.follow (done.map (·.after)) = .ok here ∧ here.diff s.after = .ok d ∧
        s.action ∈ d.actions ∧ ∀ text v, d.values.get? text = some v ↔
          ∃ q ∈ p.params, q.name ∈ s.action.outNames ∧ text = q.render ∧ v = s.value q.name := by
  intro source id quote note p start after deeds
  have hp : Protocol.compile .default source = .ok p :=
    Protocol.compile_eq_ok.2 ⟨by decide +kernel, Protocol.validate_eq_ok.2
      ⟨by decide, by decide, by decide, _, Protocol.schedule_finRange (by decide)⟩⟩
  have hquote : Performs start quote (fun _ => "7") after :=
    ⟨by decide, by decide +kernel, by decide, ["id"], .refl _, by decide +kernel⟩
  have hnote : Performs after note (fun _ => "") after :=
    ⟨by decide, by decide, by decide, [], .refl _, rfl⟩
  have hrun : Course start deeds := .cons hquote (.cons hnote (.nil after))
  exact ⟨hp, rfl, hrun, follow_replays Lexicon.acceptable_default hp rfl hrun⟩

end InfoProtocol.Instance
