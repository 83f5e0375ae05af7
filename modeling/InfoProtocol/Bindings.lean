/-!
# Bindings of names

A finite map from names to values, kept as a list of entries whose names ascend by code point.
Two bindings are equal as soon as they look up alike, and the entries come out in the order in
which they are written.
-/

namespace InfoProtocol

structure Bindings (α : Type) where
  entries : List (String × α)
  ascending : entries.Pairwise fun a b => a.1 < b.1

namespace Bindings

variable {α β : Type}

def insertEntry (k : String) (v : α) : List (String × α) → List (String × α)
  | [] => [(k, v)]
  | e :: r => if k < e.1 then (k, v) :: e :: r else if k = e.1 then (k, v) :: r
      else e :: insertEntry k v r

def lookup (k : String) : List (String × α) → Option α
  | [] => none
  | e :: r => if k = e.1 then some e.2 else lookup k r

theorem mem_insertEntry {k : String} {v : α} {l : List (String × α)} {e : String × α}
    (h : e ∈ insertEntry k v l) : e = (k, v) ∨ e ∈ l := by
  induction l with
  | nil => simpa [insertEntry] using h
  | cons a r ih =>
    simp only [insertEntry] at h
    split at h
    · simpa using h
    · split at h
      · rcases List.mem_cons.1 h with h | h
        · exact .inl h
        · exact .inr (List.mem_cons_of_mem _ h)
      · rcases List.mem_cons.1 h with h | h
        · exact .inr (h ▸ List.mem_cons_self)
        · exact (ih h).imp_right (List.mem_cons_of_mem _)

theorem insertEntry_ascending (k : String) (v : α) {l : List (String × α)}
    (h : l.Pairwise fun a b => a.1 < b.1) : (insertEntry k v l).Pairwise fun a b => a.1 < b.1 := by
  induction l with
  | nil => simp [insertEntry]
  | cons a r ih =>
    obtain ⟨ha, hr⟩ := List.pairwise_cons.1 h
    simp only [insertEntry]
    split
    · next hk =>
      refine List.pairwise_cons.2 ⟨fun e he => ?_, h⟩
      rcases List.mem_cons.1 he with rfl | he
      · exact hk
      · exact String.lt_trans hk (ha e he)
    · next hk =>
      split
      · next hk' =>
        subst hk'
        exact List.pairwise_cons.2 ⟨ha, hr⟩
      · next hk' =>
        refine List.pairwise_cons.2 ⟨fun e he => ?_, ih hr⟩
        rcases mem_insertEntry he with rfl | he
        · exact Decidable.byContradiction fun hn =>
            hk' (String.le_antisymm (String.not_lt.1 hn) (String.not_lt.1 hk))
        · exact ha e he

def empty : Bindings α := ⟨[], .nil⟩

def insert (b : Bindings α) (k : String) (v : α) : Bindings α :=
  ⟨insertEntry k v b.entries, insertEntry_ascending k v b.ascending⟩

def get? (b : Bindings α) (k : String) : Option α := lookup k b.entries

def contains (b : Bindings α) (k : String) : Bool := (b.get? k).isSome

def keys (b : Bindings α) : List String := b.entries.map (·.1)

def size (b : Bindings α) : Nat := b.entries.length

def ofList (l : List (String × α)) : Bindings α :=
  l.foldl (fun b e => b.insert e.1 e.2) empty

def map (f : α → β) (b : Bindings α) : Bindings β :=
  ⟨b.entries.map fun e => (e.1, f e.2), List.pairwise_map.2 b.ascending⟩

def filter (p : String → α → Bool) (b : Bindings α) : Bindings α :=
  ⟨b.entries.filter fun e => p e.1 e.2, b.ascending.sublist List.filter_sublist⟩

instance : EmptyCollection (Bindings α) := ⟨empty⟩

theorem eq_of_entries {a b : Bindings α} (h : a.entries = b.entries) : a = b := by
  cases a
  cases b
  cases h
  rfl

instance [DecidableEq α] : DecidableEq (Bindings α) := fun a b =>
  if h : a.entries = b.entries then .isTrue (eq_of_entries h)
  else .isFalse fun e => h (e ▸ rfl)

theorem lookup_insertEntry (k j : String) (v : α) (l : List (String × α)) :
    lookup j (insertEntry k v l) = if j = k then some v else lookup j l := by
  induction l with
  | nil => simp [insertEntry, lookup]
  | cons a r ih =>
    simp only [insertEntry]
    split
    · simp [lookup]
    · split
      · next hk => by_cases hj : j = k <;> simp [lookup, hj, hk ▸ hj]
      · next hk =>
        by_cases hj : j = a.1
        · have : j ≠ k := fun e => hk (e ▸ hj)
          simp [lookup, hj, hj ▸ this]
        · simp [lookup, hj, ih]

@[simp] theorem get?_empty (j : String) : (∅ : Bindings α).get? j = none := rfl

@[simp] theorem get?_insert (b : Bindings α) (k j : String) (v : α) :
    (b.insert k v).get? j = if j = k then some v else b.get? j :=
  lookup_insertEntry k j v b.entries

theorem keys_ascending (b : Bindings α) : b.keys.Pairwise (· < ·) :=
  List.pairwise_map.2 b.ascending

theorem keys_nodup (b : Bindings α) : b.keys.Nodup := by
  refine b.keys_ascending.imp fun {k j} h => ?_
  rintro rfl
  exact String.lt_irrefl _ h

theorem lookup_eq_some {k : String} {v : α} {l : List (String × α)}
    (h : (l.map (·.1)).Nodup) : lookup k l = some v ↔ (k, v) ∈ l := by
  induction l with
  | nil => simp [lookup]
  | cons a r ih =>
    obtain ⟨ha, hr⟩ := List.nodup_cons.1 h
    simp only [lookup, List.mem_cons]
    split
    · next hk =>
      constructor
      · intro hv
        exact .inl (by rw [hk, ← Option.some.inj hv])
      · intro h
        rcases h with hv | hv
        · rw [← hv]
        · exact absurd (List.mem_map_of_mem (f := (·.1)) hv) (hk ▸ ha)
    · next hk =>
      rw [ih hr]
      refine ⟨.inr, ?_⟩
      intro h
      rcases h with hv | hv
      · exact absurd (congrArg Prod.fst hv) hk
      · exact hv

theorem get?_eq_some {b : Bindings α} {k : String} {v : α} :
    b.get? k = some v ↔ (k, v) ∈ b.entries :=
  lookup_eq_some b.keys_nodup

theorem mem_keys {b : Bindings α} {k : String} : k ∈ b.keys ↔ ∃ v, b.get? k = some v := by
  simp only [keys, List.mem_map, Prod.exists, exists_and_right, exists_eq_right, get?_eq_some]

theorem contains_iff {b : Bindings α} {k : String} : b.contains k = true ↔ k ∈ b.keys := by
  rw [mem_keys, contains, Option.isSome_iff_exists]

theorem entries_eq_of_mem_iff {l m : List (String × α)}
    (hl : l.Pairwise fun a b => a.1 < b.1) (hm : m.Pairwise fun a b => a.1 < b.1)
    (h : ∀ e, e ∈ l ↔ e ∈ m) : l = m := by
  induction l generalizing m with
  | nil =>
    cases m with
    | nil => rfl
    | cons a r => exact absurd ((h a).2 List.mem_cons_self) List.not_mem_nil
  | cons a r ih =>
    cases m with
    | nil => exact absurd ((h a).1 List.mem_cons_self) List.not_mem_nil
    | cons b s =>
      obtain ⟨ha, hr⟩ := List.pairwise_cons.1 hl
      obtain ⟨hb, hs⟩ := List.pairwise_cons.1 hm
      have hab : a = b := by
        rcases List.mem_cons.1 ((h a).1 List.mem_cons_self) with e | e
        · exact e
        · rcases List.mem_cons.1 ((h b).2 List.mem_cons_self) with e' | e'
          · exact e'.symm
          · exact absurd (String.lt_trans (hb a e) (ha b e')) (String.lt_irrefl _)
      subst hab
      have irrefl {t : List (String × α)} (ht : ∀ e ∈ t, a.1 < e.1) : a ∉ t :=
        fun hm => String.lt_irrefl _ (ht a hm)
      have hrs : r = s := by
        refine ih hr hs fun e => ⟨fun he => ?_, fun he => ?_⟩
        · rcases List.mem_cons.1 ((h e).1 (List.mem_cons_of_mem _ he)) with rfl | h'
          · exact absurd he (irrefl ha)
          · exact h'
        · rcases List.mem_cons.1 ((h e).2 (List.mem_cons_of_mem _ he)) with rfl | h'
          · exact absurd he (irrefl hb)
          · exact h'
      rw [hrs]

theorem ext {a b : Bindings α} (h : ∀ k, a.get? k = b.get? k) : a = b := by
  apply eq_of_entries
  apply entries_eq_of_mem_iff a.ascending b.ascending
  intro h
  obtain ⟨k, v⟩ := h
  rw [← get?_eq_some, ← get?_eq_some, h]

@[simp] theorem get?_map (f : α → β) (b : Bindings α) (k : String) :
    (b.map f).get? k = (b.get? k).map f := by
  obtain ⟨l, h⟩ := b
  simp only [map, get?]
  induction l with
  | nil => rfl
  | cons a r ih =>
    simp only [List.map_cons, lookup]
    split
    · rfl
    · exact ih (List.pairwise_cons.1 h).2

theorem mem_filter {p : String → α → Bool} {b : Bindings α} {e : String × α} :
    e ∈ (b.filter p).entries ↔ e ∈ b.entries ∧ p e.1 e.2 = true :=
  List.mem_filter

theorem get?_filter {p : String → α → Bool} {b : Bindings α} {k : String} {v : α} :
    (b.filter p).get? k = some v ↔ b.get? k = some v ∧ p k v = true := by
  rw [get?_eq_some, get?_eq_some, mem_filter]

end Bindings

end InfoProtocol
