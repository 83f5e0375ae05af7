import InfoProtocol.Bindings
import Mathlib.Data.List.Dedup

/-!
# Bindings laid over one another

Putting the entries of one bindings into another, in their order, lets each name look up in the
first of the two that binds it. So bindings are what their own entries build up from nothing.

Values may also be filed under names of their own. Of several values with one such name the last
is what remains, and no value gets lost exactly if each has its name for itself.
-/

namespace InfoProtocol.Bindings

variable {α : Type}

def insertAll (b : Bindings α) (l : List (String × α)) : Bindings α :=
  l.foldl (fun b e => b.insert e.1 e.2) b

def overlay (b c : Bindings α) : Bindings α := b.insertAll c.entries

theorem lookup_eq_none {k : String} {l : List (String × α)} (h : k ∉ l.map (·.1)) :
    lookup k l = none := by
  induction l with
  | nil => rfl
  | cons a r ih =>
    rw [List.map_cons, List.mem_cons, not_or] at h
    rw [lookup, if_neg h.1, ih h.2]

theorem get?_insertAll {l : List (String × α)} (h : (l.map (·.1)).Nodup)
    (b : Bindings α) (k : String) : (b.insertAll l).get? k = (lookup k l).or (b.get? k) := by
  induction l generalizing b with
  | nil => rfl
  | cons a r ih =>
    obtain ⟨ha, hr⟩ := List.nodup_cons.1 h
    have hstep := ih hr (b.insert a.1 a.2)
    rw [get?_insert] at hstep
    change ((b.insert a.1 a.2).insertAll r).get? k = _
    rw [hstep, lookup]
    by_cases hk : k = a.1
    · rw [if_pos hk, if_pos hk, lookup_eq_none (hk ▸ ha)]
      rfl
    · rw [if_neg hk, if_neg hk]

@[simp] theorem get?_overlay (b c : Bindings α) (k : String) :
    (b.overlay c).get? k = (c.get? k).or (b.get? k) :=
  get?_insertAll c.keys_nodup b k

theorem get?_ofList {l : List (String × α)} (h : (l.map (·.1)).Nodup) {k : String} {v : α} :
    (ofList l).get? k = some v ↔ (k, v) ∈ l := by
  change ((∅ : Bindings α).insertAll l).get? k = some v ↔ _
  rw [get?_insertAll h, get?_empty, Option.or_none, lookup_eq_some h]

theorem mem_keys_insertAll {b : Bindings α} {l : List (String × α)} {k : String} :
    k ∈ (b.insertAll l).keys ↔ k ∈ l.map (·.1) ∨ k ∈ b.keys := by
  induction l generalizing b with
  | nil => simp [insertAll]
  | cons a r ih =>
    have hinsert : k ∈ (b.insert a.1 a.2).keys ↔ k = a.1 ∨ k ∈ b.keys := by
      simp only [mem_keys, get?_insert]
      by_cases hk : k = a.1 <;> simp [hk]
    change k ∈ ((b.insert a.1 a.2).insertAll r).keys ↔ _
    rw [ih, hinsert, List.map_cons, List.mem_cons, or_left_comm, or_assoc]

theorem keys_ofList_perm {l : List (String × α)} (h : (l.map (·.1)).Nodup) :
    (ofList l).keys.Perm (l.map (·.1)) := by
  rw [List.perm_ext_iff_of_nodup (keys_nodup _) h]
  intro k
  exact mem_keys_insertAll.trans (or_iff_left List.not_mem_nil)

theorem length_keys (b : Bindings α) : b.keys.length = b.size := List.length_map _

theorem insertAll_entries (b : Bindings α) : (∅ : Bindings α).insertAll b.entries = b := by
  apply ext
  intro k
  change ((∅ : Bindings α).overlay b).get? k = _
  rw [get?_overlay, get?_empty, Option.or_none]

theorem insert_comm {k j : String} (h : k ≠ j) (b : Bindings α) (v w : α) :
    (b.insert k v).insert j w = (b.insert j w).insert k v := by
  apply ext
  intro n
  simp only [get?_insert]
  by_cases hk : n = k
  · rw [if_pos hk, if_pos hk, if_neg (hk ▸ h)]
  · rw [if_neg hk, if_neg hk]

section Refiled

variable (f : α → String)

/-- The values, in the order of their names, put under the names that `f` gives them. -/
def refiled (b : Bindings α) : Bindings α :=
  (∅ : Bindings α).insertAll (b.entries.map fun e => (f e.2, e.2))

theorem get?_insertAll_refiled {l : List (String × α)} (h : l.Pairwise fun a b => a.1 < b.1)
    (b : Bindings α) (k : String) (v : α) :
    (b.insertAll (l.map fun e => (f e.2, e.2))).get? k = some v ↔
      (f v = k ∧ ∃ name, (name, v) ∈ l ∧ ∀ e ∈ l, name < e.1 → f e.2 ≠ k) ∨
        (∀ e ∈ l, f e.2 ≠ k) ∧ b.get? k = some v := by
  induction l generalizing b with
  | nil => simp [insertAll]
  | cons a r ih =>
    obtain ⟨ha, hr⟩ := List.pairwise_cons.1 h
    change ((b.insert (f a.2) a.2).insertAll _).get? k = _ ↔ _
    rw [ih hr, get?_insert]
    constructor
    · rintro (⟨hv, name, hmem, hlast⟩ | ⟨hnone, hget⟩)
      · refine .inl ⟨hv, name, List.mem_cons_of_mem _ hmem, List.forall_mem_cons.2 ⟨?_, hlast⟩⟩
        exact fun hlt => absurd (String.lt_trans hlt (ha _ hmem)) (String.lt_irrefl _)
      · split at hget
        · next hk =>
          obtain rfl : a.2 = v := Option.some.inj hget
          refine .inl ⟨hk.symm, a.1, List.mem_cons_self, List.forall_mem_cons.2 ⟨?_, ?_⟩⟩
          · exact fun hlt => absurd hlt (String.lt_irrefl _)
          · exact fun e he _ => hnone e he
        · next hk => exact .inr ⟨List.forall_mem_cons.2 ⟨Ne.symm hk, hnone⟩, hget⟩
    · rintro (⟨hv, name, hmem, hlast⟩ | ⟨hnone, hget⟩)
      · have hrest : ∀ e ∈ r, name < e.1 → f e.2 ≠ k := (List.forall_mem_cons.1 hlast).2
        rcases List.mem_cons.1 hmem with rfl | hmem
        · exact .inr ⟨fun e he => hrest e he (ha e he), if_pos hv.symm⟩
        · exact .inl ⟨hv, name, hmem, hrest⟩
      · obtain ⟨hk, hnone⟩ := List.forall_mem_cons.1 hnone
        exact .inr ⟨hnone, by rw [if_neg (Ne.symm hk), hget]⟩

theorem get?_refiled (b : Bindings α) (k : String) (v : α) :
    (b.refiled f).get? k = some v ↔ f v = k ∧ ∃ name, b.get? name = some v ∧
      ∀ later w, b.get? later = some w → name < later → f w ≠ k := by
  rw [refiled, get?_insertAll_refiled f b.ascending]
  simp only [get?_eq_some, get?_empty, Prod.forall, reduceCtorEq, and_false, or_false]

theorem refiled_keys_perm (b : Bindings α) :
    (b.refiled f).keys.Perm (b.entries.map fun e => f e.2).dedup := by
  rw [List.perm_ext_iff_of_nodup (keys_nodup _) (List.nodup_dedup _)]
  intro k
  rw [List.mem_dedup, refiled, mem_keys_insertAll, List.map_map]
  simp [keys, EmptyCollection.emptyCollection, empty, Function.comp_def]

theorem size_refiled (b : Bindings α) : (b.refiled f).size = b.size ↔
    ∀ name other v w, b.get? name = some v → b.get? other = some w → f v = f w → name = other := by
  have hkeys : (b.refiled f).size = (b.entries.map fun e => f e.2).dedup.length := by
    rw [← (refiled_keys_perm f b).length_eq, length_keys]
  have hentries : b.size = (b.entries.map fun e => f e.2).length := (List.length_map _).symm
  have hdedup : (b.refiled f).size = b.size ↔ (b.entries.map fun e => f e.2).Nodup := by
    rw [hkeys, hentries, ← List.dedup_eq_self]
    exact ⟨(List.dedup_sublist _).eq_of_length, congrArg List.length⟩
  rw [hdedup, List.nodup_map_iff_inj_on (.of_map _ b.keys_nodup)]
  simp only [Prod.forall, ← get?_eq_some, Prod.mk.injEq]
  constructor
  · exact fun h name other v w hv hw hf => (h name v hv other w hw hf).1
  · intro h name v hv other w hw hf
    obtain rfl := h name other v w hv hw hf
    exact ⟨rfl, Option.some.inj (hv.symm.trans hw)⟩

end Refiled

end InfoProtocol.Bindings
