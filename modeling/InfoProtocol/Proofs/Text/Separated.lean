import Mathlib.Algebra.BigOperators.Group.List.Basic
import Mathlib.Algebra.GroupWithZero.Nat

/-!
# Texts joined by a separator

A text is cut at one and the same separator in one way only, if it is known how many separators
stand before the cut. So a joint text tells what was joined, if it is known how many separators
each piece holds. What is not known of one piece is what the others leave of all separators.
-/

namespace InfoProtocol.Text

def occurrences (c : Char) (s : String) : Nat := s.toList.count c

/-- A separator that begins with `c` and holds it once. -/
structure Separator (c : Char) (sep : String) : Prop where
  first : sep.toList.head? = some c
  once : occurrences c sep = 1

variable {c : Char} {sep : String} {l m : List String}

theorem separator_comma : Separator ',' "," := ⟨by decide, by decide⟩

theorem separator_comma_space : Separator ',' ", " := ⟨by decide, by decide⟩

theorem occurrences_append (s t : String) :
    occurrences c (s ++ t) = occurrences c s + occurrences c t := by
  rw [occurrences, String.toList_append, List.count_append]
  rfl

theorem append_cons_inj {α : Type} [DecidableEq α] {c : α} {u v s t : List α}
    (hc : u.count c = v.count c) (h : u ++ c :: s = v ++ c :: t) : u = v ∧ s = t := by
  -- what one front is longer by would begin with the separator
  have hnil : ∀ {w y z : List α}, c :: y = w ++ c :: z → w.count c = 0 → w = [] ∧ y = z := by
    intro w y z hw hzero
    cases w with
    | nil => exact ⟨rfl, (List.cons.inj hw).2⟩
    | cons d w =>
      obtain rfl : c = d := (List.cons.inj hw).1
      simp at hzero
  rcases List.append_eq_append_iff.1 h with ⟨w, rfl, hw⟩ | ⟨w, rfl, hw⟩
  · obtain ⟨rfl, hst⟩ := hnil hw (by rw [List.count_append] at hc; omega)
    exact ⟨(List.append_nil u).symm, hst⟩
  · obtain ⟨rfl, hts⟩ := hnil hw (by rw [List.count_append] at hc; omega)
    exact ⟨List.append_nil v, hts.symm⟩

theorem occurrences_intercalate (hsep : Separator c sep) (hl : l ≠ []) :
    occurrences c (sep.intercalate l) + 1 = (l.map (occurrences c)).sum + l.length := by
  induction l with
  | nil => exact absurd rfl hl
  | cons s l ih =>
    by_cases hnil : l = []
    · subst hnil
      simp
    · have hrest := ih hnil
      have honce := hsep.once
      rw [String.intercalate_cons_of_ne_nil hnil, occurrences_append, occurrences_append,
        List.map_cons, List.sum_cons, List.length_cons]
      omega

theorem intercalate_inj (hsep : Separator c sep)
    (hlm : l.map (occurrences c) = m.map (occurrences c))
    (h : sep.intercalate l = sep.intercalate m) : l = m := by
  induction l generalizing m with
  | nil => exact (List.map_eq_nil_iff.1 hlm.symm).symm
  | cons s l ih =>
    cases m with
    | nil => exact absurd hlm (by simp)
    | cons t m =>
      obtain ⟨hst, hrest⟩ := List.cons.inj hlm
      by_cases hl : l = []
      · obtain rfl : m = [] := by simpa [hl] using hrest.symm
        subst hl
        simpa using h
      · have hm : m ≠ [] := by
          rintro rfl
          exact hl (by simpa using hrest)
        obtain ⟨r, hr⟩ := List.head?_eq_some_iff.1 hsep.first
        rw [String.intercalate_cons_of_ne_nil hl, String.intercalate_cons_of_ne_nil hm,
          ← String.toList_inj] at h
        simp only [String.toList_append, hr, List.append_assoc, List.cons_append] at h
        obtain ⟨hs, ht⟩ := append_cons_inj hst h
        rw [String.toList_inj.1 hs,
          ih hrest (String.toList_inj.1 (List.append_cancel_left ht))]

theorem intercalate_ne_empty (hl : l ≠ []) (h : ∀ s ∈ l, s ≠ "") : sep.intercalate l ≠ "" := by
  obtain ⟨s, l, rfl⟩ := List.exists_cons_of_ne_nil hl
  have hs : s ≠ "" := h s List.mem_cons_self
  by_cases hnil : l = []
  · subst hnil
    simpa using hs
  · rw [String.intercalate_cons_of_ne_nil hnil]
    simp [hs]

theorem intercalate_inj_of_absent (hsep : Separator c sep)
    (hl : ∀ s ∈ l, s ≠ "" ∧ occurrences c s = 0) (hm : ∀ s ∈ m, s ≠ "" ∧ occurrences c s = 0)
    (h : sep.intercalate l = sep.intercalate m) : l = m := by
  have hzero : ∀ {k : List String}, (∀ s ∈ k, s ≠ "" ∧ occurrences c s = 0) →
      k.map (occurrences c) = List.replicate k.length 0 := by
    intro k hk
    rw [← List.map_const', List.map_inj_left]
    exact fun s hs => (hk s hs).2
  by_cases hlnil : l = []
  · subst hlnil
    by_contra hmnil
    exact intercalate_ne_empty (Ne.symm hmnil) (fun s hs => (hm s hs).1) h.symm
  · by_cases hmnil : m = []
    · subst hmnil
      exact absurd h (intercalate_ne_empty hlnil fun s hs => (hl s hs).1)
    · have hcount := occurrences_intercalate hsep hlnil
      rw [h, occurrences_intercalate hsep hmnil, hzero hl, hzero hm] at hcount
      have hlength : l.length = m.length := by simpa [eq_comm] using hcount
      exact intercalate_inj hsep (by rw [hzero hl, hzero hm, hlength]) h

section Named

variable {α : Type} [DecidableEq α] {ks : List α} {f g : α → String} {r : α}

/-- Of pieces that belong to the same things on both sides, one need not be counted: it holds what
the others leave of all separators. -/
theorem occurrences_eq_of_others (hsep : Separator c sep) (hks : ks.Nodup)
    (hfg : ∀ k ∈ ks, k ≠ r → occurrences c (f k) = occurrences c (g k))
    (h : sep.intercalate (ks.map f) = sep.intercalate (ks.map g)) :
    ∀ k ∈ ks, occurrences c (f k) = occurrences c (g k) := by
  intro k hk
  by_cases hkr : k = r
  · subst hkr
    have hne : ks ≠ [] := List.ne_nil_of_mem hk
    have hsum := occurrences_intercalate hsep (l := ks.map f) (by simpa using hne)
    rw [h, occurrences_intercalate hsep (by simpa using hne)] at hsum
    simp only [List.map_map, List.length_map] at hsum
    have hothers : (ks.erase k).map (occurrences c ∘ f) = (ks.erase k).map (occurrences c ∘ g) :=
      List.map_congr_left fun j hj =>
        hfg j (List.mem_of_mem_erase hj) fun e => (hks.not_mem_erase (e ▸ hj))
    have hf := List.sum_map_erase (occurrences c ∘ f) hk
    have hg := List.sum_map_erase (occurrences c ∘ g) hk
    rw [hothers] at hf
    simp only [Function.comp_apply] at hf hg
    omega
  · exact hfg k hk hkr

theorem intercalate_map_inj (hsep : Separator c sep) (hks : ks.Nodup)
    (hfg : ∀ k ∈ ks, k ≠ r → occurrences c (f k) = occurrences c (g k))
    (h : sep.intercalate (ks.map f) = sep.intercalate (ks.map g)) : ∀ k ∈ ks, f k = g k := by
  have hmap : ks.map f = ks.map g := by
    apply intercalate_inj hsep _ h
    rw [List.map_map, List.map_map]
    exact List.map_congr_left (occurrences_eq_of_others hsep hks hfg h)
  exact List.map_inj_left.1 hmap

end Named

end InfoProtocol.Text
