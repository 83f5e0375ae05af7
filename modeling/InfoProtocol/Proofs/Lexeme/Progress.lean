import InfoProtocol.Proofs.Lexeme.Pieces

/-!
# The splitting of a text moves forward

Each turn of the splitting takes a piece off at a position of the text. A piece can only be empty
where a comment opens at a line break, since a comment ends there. The marks for which this happens
are the empty one, those that begin with a line break and the lone carriage return, which is met in
front of a line feed. Under any other mark, whatever the word characters are, each turn ends behind
the position at which it began, so the turns come to an end and are no more than the characters of
the text. Under those marks there is a text on which they do not.
-/

namespace InfoProtocol

/-- The comment mark, if there is one, is not empty, does not begin with a line break and is no lone
carriage return. -/
def Lexicon.MarkAdvances (x : Lexicon) : Prop :=
  ∀ m ∈ x.commentMark, m ≠ "" ∧ Lexeme.breaksLine m.toList = false ∧ m ≠ "\r"

namespace Lexeme

def Turn (x : Lexicon) (s : List Char) (i j : Nat) : Prop :=
  i < s.length ∧ ∃ l, front? x (s.drop i) = some l ∧ j = i + l.spelling.length

/-- From position `i` of the text on, the splitting ends after `k` turns, with these pieces and this
halt. A turn that takes no piece off is the last one. Nothing here asks for progress: where turns
repeat for ever, no `k` will do. -/
inductive EndsAfter (x : Lexicon) (s : List Char) : Nat → Nat → Split → Prop
  | finished : EndsAfter x s s.length 0 ⟨[], .finished⟩
  | unexpected {i : Nat} {c : Char} (hc : s[i]? = some c) (h : front? x (s.drop i) = none) :
      EndsAfter x s i 1 ⟨[], .unexpected c⟩
  | turn {i k : Nat} {l : Lexeme} {r : Split} (hi : i < s.length)
      (hl : front? x (s.drop i) = some l) (h : EndsAfter x s (i + l.spelling.length) k r) :
      EndsAfter x s i (k + 1) (r.cons l)

variable {x : Lexicon} {s t m : List Char} {l : Lexeme} {i j k : Nat} {r : Split}

theorem meets_break_iff :
    (∃ s, m <+: s ∧ breaksLine s = true) ↔ m = [] ∨ breaksLine m = true ∨ m = ['\r'] := by
  constructor
  · rintro ⟨s, hm, hs⟩
    rcases breaksLine_iff.1 hs with hs | hs
    · rcases List.prefix_or_prefix_of_prefix hm hs with h | h
      · rcases List.prefix_cons_iff.1 h with rfl | ⟨u, rfl, -⟩
        · exact .inl rfl
        · exact .inr (.inl rfl)
      · exact .inr (.inl (breaksLine_iff.2 (.inl h)))
    · rcases List.prefix_or_prefix_of_prefix hm hs with h | h
      · rcases List.prefix_cons_iff.1 h with rfl | ⟨u, rfl, hu⟩
        · exact .inl rfl
        · rcases List.prefix_cons_iff.1 hu with rfl | ⟨v, rfl, -⟩
          · exact .inr (.inr rfl)
          · exact .inr (.inl rfl)
      · exact .inr (.inl (breaksLine_iff.2 (.inr h)))
  · rintro (rfl | hm | rfl)
    · exact ⟨['\n'], List.nil_prefix, rfl⟩
    · exact ⟨m, List.prefix_refl m, hm⟩
    · exact ⟨['\r', '\n'], ⟨['\n'], rfl⟩, rfl⟩

theorem markAdvances_iff :
    x.MarkAdvances ↔ ∀ s, opensComment x s = true → breaksLine s = false := by
  constructor
  · intro hx s ho
    obtain ⟨m, hmark, hpre⟩ := Lexicon.opensComment_eq_true.1 ho
    obtain ⟨hempty, hbreak, hreturn⟩ := hx m hmark
    rw [← Bool.not_eq_true]
    intro hs
    rcases meets_break_iff.1 ⟨s, hpre, hs⟩ with h | h | h
    · exact hempty (String.toList_eq_nil_iff.1 h)
    · rw [hbreak] at h
      cases h
    · exact hreturn (String.toList_inj.1 h)
  · intro h m hmark
    have hnot : ¬ ∃ s, m.toList <+: s ∧ breaksLine s = true := by
      rintro ⟨s, hpre, hs⟩
      rw [h s (Lexicon.opensComment_eq_true.2 ⟨m, hmark, hpre⟩)] at hs
      cases hs
    rw [meets_break_iff, not_or, not_or, Bool.not_eq_true] at hnot
    refine ⟨?_, hnot.2.1, ?_⟩
    · rintro rfl
      exact hnot.1 rfl
    · rintro rfl
      exact hnot.2.2 rfl

theorem front?_ne_nil (hx : x.MarkAdvances) (hs : s ≠ []) (h : front? x s = some l) :
    l.spelling ≠ [] := by
  cases front_of_front? h with
  | comment ho =>
    obtain ⟨c, s, rfl⟩ := List.exists_cons_of_ne_nil hs
    have hbreak : breaksLine (c :: s) = false := markAdvances_iff.1 hx _ ho
    simp [run, hbreak]
  | sign _ hsign => exact ne_nil_of_mem_signs l hsign
  | blank => exact List.cons_ne_nil _ _
  | word => exact List.cons_ne_nil _ _

theorem Turn.advances (hx : x.MarkAdvances) (h : Turn x s i j) : i < j ∧ j ≤ s.length := by
  obtain ⟨hi, l, hl, rfl⟩ := h
  have hne : s.drop i ≠ [] := fun hnil => absurd (List.drop_eq_nil_iff.1 hnil) (by omega)
  have hpos := List.length_pos_iff.2 (front?_ne_nil hx hne hl)
  have hle := (front?_isPrefix hl).length_le
  rw [List.length_drop] at hle
  omega

theorem endsAfter_split (hx : x.MarkAdvances) (hi : i ≤ s.length) (ht : s.drop i = t) :
    ∃ k, EndsAfter x s i k (split x t) := by
  fun_induction split x t generalizing i with
  | case1 =>
    have hlen := List.drop_eq_nil_iff.1 ht
    obtain rfl : i = s.length := by omega
    exact ⟨0, .finished⟩
  | case2 c t h =>
    have hc : s[i]? = some c := by rw [← List.head?_drop, ht, List.head?_cons]
    exact ⟨1, .unexpected hc (ht ▸ h)⟩
  | case3 c t l hl hnil => exact absurd hnil (front?_ne_nil hx (List.cons_ne_nil c t) hl)
  | case4 c t l hl _ _ ih =>
    have hlt : i < s.length := by
      by_contra hge
      rw [List.drop_eq_nil_of_le (by omega)] at ht
      cases ht
    have hl' : front? x (s.drop i) = some l := ht ▸ hl
    obtain ⟨-, hle⟩ := Turn.advances hx ⟨hlt, l, hl', rfl⟩
    obtain ⟨k, hk⟩ := ih hle (by rw [← ht, List.drop_drop])
    exact ⟨k + 1, .turn hlt hl' hk⟩

theorem EndsAfter.turns_le (hx : x.MarkAdvances) (h : EndsAfter x s i k r) :
    i + k ≤ s.length := by
  induction h with
  | finished => omega
  | @unexpected i c hc _ =>
    have hlt := (List.getElem?_eq_some_iff.1 hc).1
    omega
  | turn hi hl _ ih =>
    have hadvances := Turn.advances hx ⟨hi, _, hl, rfl⟩
    omega

theorem EndsAfter.halt_ne_endless (h : EndsAfter x s i k r) : r.halt ≠ .endless := by
  induction h with
  | finished => nofun
  | unexpected => nofun
  | turn _ _ _ ih => exact ih

theorem split_of_meets_break (ho : opensComment x s = true) (hs : breaksLine s = true) :
    split x s = ⟨[], .endless⟩ := by
  cases s with
  | nil => cases hs
  | cons c s =>
    have hfront : front? x (c :: s) = some ⟨none, []⟩ := by
      unfold front?
      rw [if_pos ho, run, hs]
      rfl
    rw [split]
    simp only [hfront, dif_pos]

theorem markAdvances_iff_ends : x.MarkAdvances ↔ ∀ s, (split x s).halt ≠ .endless := by
  constructor
  · intro hx s
    obtain ⟨k, hk⟩ := endsAfter_split (s := s) hx (Nat.zero_le _) rfl
    exact hk.halt_ne_endless
  · intro h
    refine markAdvances_iff.2 fun s ho => ?_
    rw [← Bool.not_eq_true]
    intro hs
    exact h s (by rw [split_of_meets_break ho hs])

end Lexeme

namespace Token

open Lexeme

variable {x : Lexicon}

/-- Each turn, be it over a comment or a token, ends behind its beginning and within the text, and
the scan ends after no more turns than the text has characters. -/
theorem scan_advances (hx : x.MarkAdvances) (source : String) :
    (∀ i j, Turn x source.toList i j → i < j ∧ j ≤ source.toList.length) ∧
      (∃ k, EndsAfter x source.toList 0 k (split x source.toList) ∧ k ≤ source.toList.length) ∧
      ∀ line, scan x source ≠ .error (.endless line) := by
  obtain ⟨k, hk⟩ := endsAfter_split (s := source.toList) hx (Nat.zero_le _) rfl
  refine ⟨fun i j => Turn.advances hx, ⟨k, hk, ?_⟩, fun line h => ?_⟩
  · have hle := hk.turns_le hx
    omega
  · have hhalt := hk.halt_ne_endless
    rw [scan] at h
    cases hs : (split x source.toList).halt with
    | finished => simp [hs] at h
    | unexpected c => simp [hs] at h
    | endless => exact hhalt hs

/-- A mark may begin with a carriage return, and blanks may be word characters. -/
theorem scan_advances_notes :
    let x : Lexicon := ⟨" \n", some "\r;"⟩
    let source := "\r\n\r;a\r\n-"
    x.MarkAdvances ∧ Turn x source.toList 2 5 ∧ (2 < 5 ∧ 5 ≤ source.toList.length) ∧
      (∃ k, EndsAfter x source.toList 0 k (split x source.toList) ∧ k ≤ source.toList.length) ∧
      scan x source ≠ .error (.endless 1) := by
  intro x source
  have hx : x.MarkAdvances := by
    intro m hm
    cases hm
    decide
  have hturn : Turn x source.toList 2 5 :=
    ⟨by decide, ⟨none, ['\r', ';', 'a']⟩, by decide, rfl⟩
  obtain ⟨hadvances, hends, hscan⟩ := scan_advances hx source
  exact ⟨hx, hturn, hadvances 2 5 hturn, hends, hscan 1⟩

end Token

end InfoProtocol
