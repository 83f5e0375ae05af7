import InfoProtocol.Proofs.Bindings
import InfoProtocol.Proofs.Instance.Enacted

/-!
# Taking over a snapshot

The difference of two snapshots names written forms of parameters, and updating goes from each of
them to a parameter, from there to its name, and from the name back to a written form. Where
parameters can be told apart this comes back to the form it started from and cannot fail. So an
update fails only where the difference does, before anything is set, and else lays the news over
the values.
-/

namespace InfoProtocol.Instance

variable {i j k : Instance} {q : Parameter}

/-- What `i` would learn from `j`: a value where it has none, or the empty one. -/
def Gains (i j : Instance) (text value : String) : Prop :=
  j.values.get? text = some value ∧ value ≠ "" ∧
    (i.values.get? text = none ∨ i.values.get? text = some "")

theorem valueAt_eq_empty {text : String} :
    i.valueAt text = "" ↔ i.values.get? text = none ∨ i.values.get? text = some "" := by
  unfold valueAt
  cases i.values.get? text <;> simp

theorem valueAt_eq {text value : String} (hv : value ≠ "") :
    i.valueAt text = value ↔ i.values.get? text = some value := by
  unfold valueAt
  cases i.values.get? text <;> simp [eq_comm, hv]

theorem get?_news {text value : String} :
    (i.news j).get? text = some value ↔ i.Gains j text value := by
  rw [news, Bindings.get?_filter, Gains, ← valueAt_eq_empty]
  simp

theorem get?_news_eq_none {text : String} :
    (i.news j).get? text = none ↔ ∀ value, ¬ i.Gains j text value := by
  simp only [Option.eq_none_iff_forall_ne_some, ne_eq, get?_news]

theorem conflict?_eq_none :
    i.conflict? j = none ↔ ∀ text value, j.values.get? text = some value → value ≠ "" →
      i.valueAt text = "" ∨ i.valueAt text = value := by
  simp only [conflict?, List.findSome?_eq_none_iff, Prod.forall, ← Bindings.get?_eq_some]
  refine forall_congr' fun text => forall_congr' fun value => forall_congr' fun _ => ?_
  by_cases h : i.valueAt text = "" <;> simp [h]

theorem diff_eq_ok {d : Diff} :
    i.diff j = .ok d ↔ i.protocol = j.protocol ∧ i.conflict? j = none ∧
      ∃ ns, (i.news j).keys.mapM i.nameOf = .ok ns ∧
        d = ⟨i.protocol.actions.filter fun a => explains a (sortedNames ns), i.news j⟩ ∧
        d.actions ≠ [] := by
  unfold diff
  split
  · next h => simp [h]
  · next h =>
    split
    · next e he => simp [he]
    · next he =>
      split
      · next e hn => simp [hn]
      · next ns hn =>
        rw [not_not] at h
        dsimp only
        split
        · next ha =>
          constructor
          · intro hd
            cases hd
          · intro hd
            obtain ⟨-, -, ms, hm, rfl, hne⟩ := hd
            rw [hn] at hm
            cases hm
            exact absurd ha hne
        · next ha =>
          constructor
          · intro hd
            cases hd
            exact ⟨h, he, ns, hn, rfl, ha⟩
          · intro hd
            obtain ⟨-, -, ms, hm, rfl, -⟩ := hd
            rw [hn] at hm
            cases hm
            rfl

theorem nameOf_render (hi : i.protocol.Unambiguous) (hq : q ∈ i.protocol.params) :
    i.nameOf q.render = .ok q.name := by
  rw [nameOf, hi.resolve_render hq]

theorem mapM_nameOf (hi : i.protocol.Unambiguous) {texts : List String}
    (h : ∀ t ∈ texts, ∃ q ∈ i.protocol.params, q.render = t) :
    ∃ ns, texts.mapM i.nameOf = .ok ns ∧
      ∀ n, n ∈ ns ↔ ∃ q ∈ i.protocol.params, q.render ∈ texts ∧ q.name = n := by
  induction texts with
  | nil => exact ⟨[], rfl, by simp⟩
  | cons t texts ih =>
    obtain ⟨⟨q, hq, rfl⟩, hrest⟩ := List.forall_mem_cons.1 h
    obtain ⟨ns, hns, hmem⟩ := ih hrest
    refine ⟨q.name :: ns, ?_, fun n => ?_⟩
    · rw [List.mapM_cons, nameOf_render hi hq, hns]
      rfl
    · rw [List.mem_cons, hmem]
      constructor
      · intro hn
        rcases hn with rfl | ⟨r, hr, ht, rfl⟩
        · exact ⟨q, hq, List.mem_cons_self, rfl⟩
        · exact ⟨r, hr, List.mem_cons_of_mem _ ht, rfl⟩
      · intro hn
        obtain ⟨r, hr, ht, rfl⟩ := hn
        rcases List.mem_cons.1 ht with he | ht
        · exact .inl (hi.eq_of_render_eq hr hq he ▸ rfl)
        · exact .inr ⟨r, hr, ht, rfl⟩

theorem news_declared (hp : i.protocol = j.protocol) (hj : j.Declared) :
    ∀ t ∈ (i.news j).keys, ∃ q ∈ i.protocol.params, q.render = t := by
  intro t ht
  obtain ⟨v, hv⟩ := Bindings.mem_keys.1 ht
  rw [hp]
  exact hj t (Bindings.mem_keys.2 ⟨v, (get?_news.1 hv).1⟩)

/-- Where parameters are ambiguous, the written form of one may lead to another, but it leads to
some parameter. -/
theorem exists_nameOf (hq : q ∈ i.protocol.params) : ∃ n, i.nameOf q.render = .ok n := by
  obtain ⟨r, hr⟩ := Option.isSome_iff_exists.1 (Protocol.resolve_isSome hq)
  exact ⟨r.name, by rw [nameOf, hr]⟩

theorem exists_mapM_nameOf {texts : List String}
    (h : ∀ t ∈ texts, ∃ q ∈ i.protocol.params, q.render = t) :
    ∃ ns, texts.mapM i.nameOf = .ok ns := by
  induction texts with
  | nil => exact ⟨[], rfl⟩
  | cons t texts ih =>
    obtain ⟨⟨q, hq, rfl⟩, hrest⟩ := List.forall_mem_cons.1 h
    obtain ⟨n, hn⟩ := exists_nameOf hq
    obtain ⟨ns, hns⟩ := ih hrest
    refine ⟨n :: ns, ?_⟩
    rw [List.mapM_cons, hn, hns]
    rfl

theorem conflict?_ne_unresolved (t : String) : i.conflict? j ≠ some (.unresolved t) := by
  intro h
  obtain ⟨e, -, he⟩ := List.exists_of_findSome?_eq_some h
  split at he
  · cases he
  · cases he

theorem diff_ne_unresolved (hj : j.Declared) (t : String) : i.diff j ≠ .error (.unresolved t) := by
  intro h
  unfold diff at h
  split at h
  · cases h
  · next hp =>
    split at h
    · next e hc =>
      cases h
      exact conflict?_ne_unresolved t hc
    · obtain ⟨ns, hns⟩ := exists_mapM_nameOf (news_declared (not_not.1 hp) hj)
      simp only [hns] at h
      split at h
      · cases h
      · cases h

theorem setValue_name (hi : i.protocol.Unambiguous) (hq : q ∈ i.protocol.params)
    (value : String) :
    i.setValue q.name value = ({ i with values := i.values.insert q.render value }, none) :=
  setValue_succeeds.2 ⟨q, hi.find?_name hq, rfl⟩

theorem assign_declared (hi : i.protocol.Unambiguous) {es : List (String × String)}
    (hes : ∀ e ∈ es, ∃ q ∈ i.protocol.params, q.render = e.1) :
    i.assign es = ({ i with values := i.values.insertAll es }, none) := by
  induction es generalizing i with
  | nil => rfl
  | cons e es ih =>
    obtain ⟨text, value⟩ := e
    obtain ⟨⟨q, hq, rfl⟩, hrest⟩ := List.forall_mem_cons.1 hes
    simp only [assign, nameOf_render hi hq, setValue_name hi hq]
    exact ih hi hrest

theorem update_of_diff_ok (hi : i.protocol.Unambiguous) (hj : j.Traceable) {d : Diff}
    (h : i.diff j = .ok d) :
    i.update j = ({ i with values := i.values.overlay (i.news j) }, none) := by
  obtain ⟨hp, -, ns, -, rfl, -⟩ := diff_eq_ok.1 h
  simp only [update, h]
  apply assign_declared hi
  exact fun e he => news_declared hp hj.declared e.1 (List.mem_map_of_mem he)

/-- Takes over the snapshots one after another, as long as this succeeds. -/
def follow (i : Instance) : List Instance → Except InstanceError Instance
  | [] => .ok i
  | j :: js =>
    match i.update j with
    | (_, some e) => .error e
    | (k, none) => k.follow js

theorem follow_cons_eq_ok {js : List Instance} {m : Instance} :
    i.follow (j :: js) = .ok m ↔ ∃ k, i.update j = (k, none) ∧ k.follow js = .ok m := by
  rw [follow]
  split
  · next h => simp [h]
  · next k h => simp [h]

/-- An update fails where the difference fails, never for a name that leads to no parameter, and
leaves the instance as it was; else it sets what is gained and nothing else. -/
theorem update_atomic (ha : i.Reachable) (hb : j.Reachable) :
    (∀ e, (i.update j).2 = some e ↔ i.diff j = .error e) ∧
    (∀ t, (i.update j).2 ≠ some (.unresolved t)) ∧
    (∀ e, (i.update j).2 = some e → (i.update j).1 = i) ∧
    ((i.update j).2 = none → ∃ values, (i.update j).1 = { i with values := values } ∧
      ∀ text value, values.get? text = some value ↔ i.Gains j text value ∨
        i.values.get? text = some value ∧ ∀ w, ¬ i.Gains j text w) := by
  have hresolved := diff_ne_unresolved (i := i) hb.traceable.declared
  cases hd : i.diff j with
  | error e =>
    rw [update_of_diff_error hd]
    rw [hd] at hresolved
    simpa [eq_comm] using hresolved
  | ok d =>
    rw [update_of_diff_ok ha.traceable.protocol hb.traceable hd]
    refine ⟨by simp, by simp, by simp, fun _ => ⟨_, rfl, fun text value => ?_⟩⟩
    rw [Bindings.get?_overlay, Option.or_eq_some_iff, get?_news, get?_news_eq_none]
    tauto

theorem update_atomic_offer :
    let source := "Offer\x7brole S,B\nparameter out id key\nS->B:quote[out id key]\n\x7d"
    let id : Parameter := ⟨"id", .output, true⟩
    let i : Instance := .new ⟨"Offer", ["S", "B"], [id], [⟨"quote", "S", "B", [id]⟩]⟩ ∅
    let j : Instance := { i with values := (∅ : Bindings String).insert "out id key" "7" }
    let e : InstanceError := .unmatchedDiff []
    Protocol.compile .default source = .ok i.protocol ∧ i.Reachable ∧ j.Reachable ∧
      (i.update j).2 = none ∧ (i.update i).2 = some e ∧
      (∃ values, (i.update j).1 = { i with values := values } ∧
        ∀ text value, values.get? text = some value ↔ i.Gains j text value ∨
          i.values.get? text = some value ∧ ∀ w, ¬ i.Gains j text w) ∧
      i.diff i = .error e ∧ (i.update i).1 = i := by
  intro source id i j e
  have hp : Protocol.compile .default source = .ok i.protocol :=
    Protocol.compile_eq_ok.2 ⟨by decide +kernel, Protocol.validate_eq_ok.2
      ⟨by decide, by decide, by decide, _, Protocol.schedule_finRange (by decide)⟩⟩
  have hi : i.Reachable := ⟨.default, Lexicon.acceptable_default, .start (.new hp ∅)⟩
  have hset : i.setValue "id" "7" = (j, none) := by decide +kernel
  have hj : j.Reachable :=
    ⟨.default, Lexicon.acceptable_default, (Enacted.start (.new hp ∅)).of_setValue hset⟩
  have hok : (i.update j).2 = none := by decide +kernel
  have hfail : (i.update i).2 = some e := by decide +kernel
  exact ⟨hp, hi, hj, hok, hfail, (update_atomic hi hj).2.2.2 hok,
    ((update_atomic hi hi).1 e).1 hfail, (update_atomic hi hi).2.2.1 e hfail⟩

end InfoProtocol.Instance
