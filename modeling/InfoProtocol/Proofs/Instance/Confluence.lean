import InfoProtocol.Proofs.Instance.Update

/-!
# Snapshots in any order

Which snapshots can be taken over depends on what was taken over before. What becomes of a value
does not: a value that is set stays, a value that some snapshot shows is set by the first that
shows it and contradicted by none, and where no snapshot shows a value nothing changes, also not
from none to the empty one. So two orders that both succeed end alike.
-/

namespace InfoProtocol.Instance

variable {i j k m n : Instance} {js ks : List Instance}

def Heard (js : List Instance) (text value : String) : Prop :=
  ∃ j ∈ js, j.values.get? text = some value ∧ value ≠ ""

/-- What has become of `i` when all that the snapshots show was taken over. -/
structure Adopts (i : Instance) (js : List Instance) (m : Instance) : Prop where
  protocol : m.protocol = i.protocol
  roles : m.roles = i.roles
  messages : m.messages = i.messages
  settled : ∀ text value, i.values.get? text = some value → value ≠ "" →
    m.values.get? text = some value
  heard : ∀ text value, Heard js text value → m.values.get? text = some value
  unheard : ∀ text, (∀ value, ¬ Heard js text value) → m.values.get? text = i.values.get? text

theorem adopts_nil (i : Instance) : Adopts i [] i where
  protocol := rfl
  roles := rfl
  messages := rfl
  settled _ _ h _ := h
  heard _ _ h := by
    obtain ⟨j, hj, -⟩ := h
    cases hj
  unheard _ _ := rfl

theorem heard_append {text value : String} :
    Heard (js ++ ks) text value ↔ Heard js text value ∨ Heard ks text value := by
  simp only [Heard, List.mem_append, or_and_right, exists_or]

theorem Adopts.trans (hk : Adopts i js k) (hm : Adopts k ks m) : Adopts i (js ++ ks) m where
  protocol := hm.protocol.trans hk.protocol
  roles := hm.roles.trans hk.roles
  messages := hm.messages.trans hk.messages
  settled text value h hne := hm.settled text value (hk.settled text value h hne) hne
  heard text value h := by
    rcases heard_append.1 h with h | h
    · obtain ⟨j, -, -, hne⟩ := id h
      exact hm.settled text value (hk.heard text value h) hne
    · exact hm.heard text value h
  unheard text h := by
    rw [hm.unheard text fun v hv => h v (heard_append.2 (.inr hv)),
      hk.unheard text fun v hv => h v (heard_append.2 (.inl hv))]

theorem adopts_of_update (hi : i.Traceable) (hj : j.Traceable) (h : i.update j = (k, none)) :
    Adopts i [j] k := by
  cases hd : i.diff j with
  | error e =>
    rw [update_of_diff_error hd] at h
    cases h
  | ok d =>
    rw [update_of_diff_ok hi.protocol hj hd] at h
    cases h
    have hconflict := conflict?_eq_none.1 (diff_eq_ok.1 hd).2.1
    refine ⟨rfl, rfl, rfl, fun text value h hne => ?_, fun text value h => ?_, fun text h => ?_⟩
    · have hnews : (i.news j).get? text = none := by
        rw [get?_news_eq_none]
        rintro w ⟨-, -, hunset⟩
        rw [h] at hunset
        simp [hne] at hunset
      rw [Bindings.get?_overlay, hnews, Option.none_or, h]
    · obtain ⟨_, hmem, hv, hne⟩ := h
      cases List.mem_singleton.1 hmem
      rw [Bindings.get?_overlay, Option.or_eq_some_iff]
      rcases hconflict text value hv hne with hunset | hsame
      · exact .inl (get?_news.2 ⟨hv, hne, valueAt_eq_empty.1 hunset⟩)
      · -- the value is there already, so it is no news
        refine .inr ⟨get?_news_eq_none.2 ?_, (valueAt_eq hne).1 hsame⟩
        rintro w ⟨-, -, hunset⟩
        rw [← valueAt_eq_empty, hsame] at hunset
        exact hne hunset
    · have hnews : (i.news j).get? text = none :=
        get?_news_eq_none.2 fun v hv => h v ⟨j, by simp, hv.1, hv.2.1⟩
      rw [Bindings.get?_overlay, hnews, Option.none_or]

theorem adopts_of_follow (hi : i.Traceable) (hjs : ∀ j ∈ js, j.Traceable)
    (h : i.follow js = .ok m) : Adopts i js m := by
  induction js generalizing i with
  | nil =>
    cases h
    exact adopts_nil _
  | cons j js ih =>
    obtain ⟨k, hk, hm⟩ := follow_cons_eq_ok.1 h
    obtain ⟨hj, hrest⟩ := List.forall_mem_cons.1 hjs
    have hkt : k.Traceable := by
      have := hi.update j
      rwa [hk] at this
    exact (adopts_of_update hi hj hk).trans (ih hkt hrest hm)

theorem Adopts.unique (hm : Adopts i js m) (hn : Adopts i ks n)
    (hsame : ∀ j, j ∈ js ↔ j ∈ ks) : m = n := by
  have hvalues : m.values = n.values := by
    apply Bindings.ext
    intro text
    have hheard : ∀ value, Heard js text value ↔ Heard ks text value := by
      simp only [Heard, hsame, implies_true]
    by_cases h : ∃ value, Heard js text value
    · obtain ⟨value, hv⟩ := h
      rw [hm.heard text value hv, hn.heard text value ((hheard value).1 hv)]
    · rw [not_exists] at h
      rw [hm.unheard text h, hn.unheard text fun v hv => h v ((hheard v).2 hv)]
  cases m
  cases n
  simp only [Instance.mk.injEq]
  exact ⟨hm.protocol.trans hn.protocol.symm, hm.roles.trans hn.roles.symm, hvalues,
    hm.messages.trans hn.messages.symm⟩

/-- Two orders in which all the snapshots can be taken over lead to the same instance. -/
theorem follow_confluent (hi : i.Reachable) (hjs : ∀ j ∈ js, j.Reachable) (hp : js.Perm ks)
    (hm : i.follow js = .ok m) (hn : i.follow ks = .ok n) : m = n := by
  have ht : ∀ j ∈ js, j.Traceable := fun j hj => (hjs j hj).traceable
  have ht' : ∀ j ∈ ks, j.Traceable := fun j hj => ht j (hp.mem_iff.2 hj)
  exact (adopts_of_follow hi.traceable ht hm).unique (adopts_of_follow hi.traceable ht' hn)
    fun _ => hp.mem_iff

theorem follow_confluent_sale :
    let source :=
      "Sale\x7brole S,B\nparameter out id key,out price\n" ++
        "S->B:quote[out id key]\nB->S:pay[in id key,out price]\n\x7d"
    let id : Parameter := ⟨"id", .output, true⟩
    let price : Parameter := ⟨"price", .output, false⟩
    let pay : Action := ⟨"pay", "B", "S", [⟨"id", .input, true⟩, price]⟩
    let i : Instance := .new ⟨"Sale", ["S", "B"], [id, price], [⟨"quote", "S", "B", [id]⟩, pay]⟩ ∅
    let j : Instance := { i with values := (∅ : Bindings String).insert "out id key" "7" }
    let k : Instance := { i with values := (∅ : Bindings String).insert "out price" "20" }
    let m : Instance := { i with values := j.values.insert "out price" "20" }
    let n : Instance := { i with values := k.values.insert "out id key" "7" }
    Protocol.compile .default source = .ok i.protocol ∧ i.Reachable ∧ j.Reachable ∧ k.Reachable ∧
      i.follow [j, k] = .ok m ∧ i.follow [k, j] = .ok n ∧ m = n := by
  intro source id price pay i j k m n
  have hp : Protocol.compile .default source = .ok i.protocol :=
    Protocol.compile_eq_ok.2 ⟨by decide +kernel, Protocol.validate_eq_ok.2
      ⟨by decide, by decide, by decide, _, Protocol.schedule_finRange (by decide)⟩⟩
  have hreach : ∀ name value l, i.setValue name value = (l, none) → l.Reachable := fun _ _ _ h =>
    ⟨.default, Lexicon.acceptable_default, (Enacted.start (.new hp ∅)).of_setValue h⟩
  have hi : i.Reachable := ⟨.default, Lexicon.acceptable_default, .start (.new hp ∅)⟩
  have hj : j.Reachable := hreach "id" "7" j (by decide +kernel)
  have hk : k.Reachable := hreach "price" "20" k (by decide +kernel)
  have hm : i.follow [j, k] = .ok m := by decide +kernel
  have hn : i.follow [k, j] = .ok n := by decide +kernel
  have hjs : ∀ l ∈ [j, k], l.Reachable := by simp [hj, hk]
  exact ⟨hp, hi, hj, hk, hm, hn, follow_confluent hi hjs (.swap k j []) hm hn⟩
end InfoProtocol.Instance
