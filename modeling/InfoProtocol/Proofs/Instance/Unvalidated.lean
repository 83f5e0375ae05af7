import InfoProtocol.Proofs.Instance.Update

/-!
# Instances of protocols that nobody judged

Where names are arbitrary texts, different parameters may be written alike. A name in the values
may then lead to a parameter of some action, and the name of that parameter to nothing the protocol
declares, so that an update stops midway. But no name in the values leads nowhere: a value is only
ever set under the written form of a declared parameter.
-/

namespace InfoProtocol.Instance

variable {i j : Instance}

theorem assign_ne_unresolved {es : List (String × String)}
    (hes : ∀ e ∈ es, ∃ q ∈ i.protocol.params, q.render = e.1) (t : String) :
    (i.assign es).2 ≠ some (.unresolved t) := by
  induction es generalizing i with
  | nil => simp [assign]
  | cons e es ih =>
    obtain ⟨text, value⟩ := e
    obtain ⟨⟨q, hq, rfl⟩, hrest⟩ := List.forall_mem_cons.1 hes
    obtain ⟨n, hn⟩ := exists_nameOf hq
    simp only [assign, hn]
    split
    · next e he =>
      obtain ⟨-, -, rfl⟩ := setValue_fails.1 he
      simp
    · next k hk =>
      obtain ⟨r, -, rfl⟩ := setValue_succeeds.1 hk
      exact ih hrest

theorem update_ne_unresolved (hj : j.Declared) (t : String) :
    (i.update j).2 ≠ some (.unresolved t) := by
  cases hd : i.diff j with
  | error e =>
    rw [update_of_diff_error hd, ne_eq, Option.some.injEq]
    rintro rfl
    exact diff_ne_unresolved hj t hd
  | ok d =>
    obtain ⟨hp, -, ns, -, rfl, -⟩ := diff_eq_ok.1 hd
    simp only [update, hd]
    apply assign_ne_unresolved
    exact fun e he => news_declared hp hj e.1 (List.mem_map_of_mem he)

/-- Whatever the protocol and whatever was done, each name in the values is the written form of a
declared parameter, and reconciling two instances meets no name that leads to no parameter. -/
theorem reconciling_resolves (hi : Enacted Begun (fun _ => True) i)
    (hj : Enacted Begun (fun _ => True) j) :
    (∀ k ∈ i.values.keys, ∃ q ∈ i.protocol.params, q.render = k) ∧
    (∀ t, i.diff j ≠ .error (.unresolved t)) ∧ ∀ t, (i.update j).2 ≠ some (.unresolved t) :=
  ⟨hi.declared, diff_ne_unresolved hj.declared, update_ne_unresolved hj.declared⟩

/-- The value of `a` is looked up as the action's parameter `out a`, which the protocol does not
declare. -/
theorem reconciling_resolves_homographs :
    let a : Parameter := ⟨"a", .output, false⟩
    let act : Action := ⟨"act", "S", "S", [⟨"out a", .nil, false⟩, ⟨"out a", .output, true⟩]⟩
    let i : Instance := .new ⟨"", [], [a, a], [act]⟩ ∅
    let j : Instance := { i with values := (∅ : Bindings String).insert "out a" "7" }
    Enacted Begun (fun _ => True) i ∧ Enacted Begun (fun _ => True) j ∧
      (i.update j).2 = some (.unknownParameter "" "out a") ∧
      (∀ k ∈ j.values.keys, ∃ q ∈ j.protocol.params, q.render = k) ∧
      (∀ t, i.diff j ≠ .error (.unresolved t)) ∧
      ∀ t, (i.update j).2 ≠ some (.unresolved t) := by
  intro a act i j
  have hi : Enacted Begun (fun _ => True) i := .start (.new _ ∅)
  have hset : i.setValue "a" "7" = (j, none) := by decide +kernel
  have hj : Enacted Begun (fun _ => True) j := hi.of_setValue hset
  exact ⟨hi, hj, by decide +kernel, (reconciling_resolves hj hi).1,
    (reconciling_resolves hi hj).2⟩

end InfoProtocol.Instance
