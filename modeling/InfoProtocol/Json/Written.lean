import InfoProtocol.Json.Text

/-!
# Written strings read back

Reading takes a quoted string off the front of any text as the string that was quoted. The quoted
characters are followed one by one: an escaped letter, a control character in hexadecimal, an
ASCII character as it is, and the octets of any other character, all of them from 128 up.
-/

namespace InfoProtocol.Json

def Takes {α : Type} (rd : Reader α) (s : Octets) (a : α) (r : Octets) : Prop :=
  ∃ h, rd s = .ok ⟨a, r, h⟩

theorem content_close (r : Octets) : Takes content (0x22 :: r) [] r := by
  refine ⟨Nat.lt_succ_self _, ?_⟩
  rw [content]
  simp

theorem content_plain {c : UInt8} {s o r : Octets} (hq : c ≠ 0x22) (hb : c ≠ 0x5c)
    (hc : ¬ c < 0x20) (hs : Takes content s o r) : Takes content (c :: s) (c :: o) r := by
  obtain ⟨h, hs⟩ := hs
  refine ⟨Nat.lt_succ_of_lt h, ?_⟩
  rw [content]
  simp [hq, hb, hc, hs]

theorem content_escape {s e o t r : Octets} (he : Takes escape s e t) (ht : Takes content t o r) :
    Takes content (0x5c :: s) (e ++ o) r := by
  obtain ⟨h, he⟩ := he
  obtain ⟨h', ht⟩ := ht
  refine ⟨Nat.lt_succ_of_lt (Nat.lt_trans h' h), ?_⟩
  rw [content]
  simp [he, ht]

theorem escape_plain {c b : UInt8} (s : Octets) (h : plainEscape? c = some b) (hc : c ≠ 0x75) :
    Takes escape (c :: s) [b] s := by
  refine ⟨Nat.lt_succ_self _, ?_⟩
  simp [escape, h, hc]

theorem utf8EncodeChar_ascii {c : Char} (h : c.toNat < 128) :
    String.utf8EncodeChar c = [UInt8.ofNat c.toNat] := by
  have hv : c.val.toNat ≤ 127 := Nat.le_of_lt_succ h
  simp only [String.utf8EncodeChar, hv, if_true]
  rfl

theorem utf8EncodeChar_high {c : Char} (hc : 128 ≤ c.toNat) :
    ∀ b ∈ String.utf8EncodeChar c, (128 : UInt8) ≤ b := by
  intro b hb
  have hv : ¬ c.val.toNat ≤ 127 := Nat.not_le.2 hc
  have hle : ∀ n : Nat, 128 ≤ n → n < 256 → (128 : UInt8) ≤ UInt8.ofNat n := by
    intro n h1 h2
    rw [UInt8.le_iff_toNat_le, UInt8.toNat_ofNat', Nat.mod_eq_of_lt h2]
    exact h1
  simp only [String.utf8EncodeChar, hv, if_false] at hb
  split at hb
  · simp only [List.mem_cons, List.not_mem_nil, or_false] at hb
    rcases hb with rfl | rfl <;> apply hle <;> omega
  · split at hb
    · simp only [List.mem_cons, List.not_mem_nil, or_false] at hb
      rcases hb with rfl | rfl | rfl <;> apply hle <;> omega
    · simp only [List.mem_cons, List.not_mem_nil, or_false] at hb
      rcases hb with rfl | rfl | rfl | rfl <;> apply hle <;> omega

theorem content_high {w s o r : Octets} (hw : ∀ b ∈ w, (128 : UInt8) ≤ b)
    (hs : Takes content s o r) : Takes content (w ++ s) (w ++ o) r := by
  induction w with
  | nil => exact hs
  | cons b w ih =>
    have hb := hw b List.mem_cons_self
    rw [UInt8.le_iff_toNat_le] at hb
    refine content_plain ?_ ?_ ?_ (ih fun x hx => hw x (List.mem_cons_of_mem _ hx))
    · rintro rfl
      revert hb
      decide
    · rintro rfl
      revert hb
      decide
    · rw [UInt8.lt_iff_toNat_lt]
      exact Nat.not_lt.2 (Nat.le_trans (by decide) hb)

theorem control_octets : ∀ n : Fin 32,
    hexValue? (UInt8.ofNat (hexDigit (n.val / 16)).toNat) = some (n.val / 16) ∧
    hexValue? (UInt8.ofNat (hexDigit (n.val % 16)).toNat) = some (n.val % 16) ∧
    (hexDigit (n.val / 16)).toNat < 128 ∧ (hexDigit (n.val % 16)).toNat < 128 ∧
    String.utf8EncodeChar (Char.ofNat n.val) = [UInt8.ofNat n.val] := by
  decide

theorem escape_control {n : Nat} (hn : n < 32) (s : Octets) :
    Takes escape (0x75 :: 0x30 :: 0x30 :: UInt8.ofNat (hexDigit (n / 16)).toNat ::
      UInt8.ofNat (hexDigit (n % 16)).toNat :: s) [UInt8.ofNat n] s := by
  obtain ⟨hx, hy, -, -, hu⟩ := control_octets ⟨n, hn⟩
  simp only at hx hy hu
  have h0 : hexValue? 0x30 = some 0 := by decide
  have hv : ((0 * 16 + 0) * 16 + n / 16) * 16 + n % 16 = n := by omega
  have ht : isTrailing n = false := by
    simp only [isTrailing, Bool.and_eq_false_iff, decide_eq_false_iff_not]
    omega
  have hl : isLeading n = false := by
    simp only [isLeading, Bool.and_eq_false_iff, decide_eq_false_iff_not]
    omega
  refine ⟨by simp only [List.length_cons]; omega, ?_⟩
  simp only [escape, if_true, codePoint, hex4, h0, hx, hy, hv, ht, hl, Bool.false_eq_true,
    if_false, hu]

theorem escapeLetter?_plain {c l : Char} (h : escapeLetter? c = some l) :
    plainEscape? (UInt8.ofNat l.toNat) = some (UInt8.ofNat c.toNat) ∧
      UInt8.ofNat l.toNat ≠ 0x75 ∧ l.toNat < 128 ∧ c.toNat < 128 := by
  simp only [escapeLetter?] at h
  repeat' split at h
  all_goals
    cases h
    try subst_vars
    try decide

theorem content_quotedChar (c : Char) {s o r : Octets} (hs : Takes content s o r) :
    Takes content ((quotedChar c).flatMap String.utf8EncodeChar ++ s)
      (String.utf8EncodeChar c ++ o) r := by
  have hb : String.utf8EncodeChar '\\' = [0x5c] := by decide
  cases hl : escapeLetter? c with
  | some l =>
    obtain ⟨h1, h2, h3, h4⟩ := escapeLetter?_plain hl
    simp only [quotedChar, hl, List.flatMap_cons, List.flatMap_nil, hb, utf8EncodeChar_ascii h3,
      utf8EncodeChar_ascii h4]
    exact content_escape (escape_plain s h1 h2) hs
  | none =>
    by_cases hn : c.toNat < 0x20
    · obtain ⟨-, -, h1, h2, -⟩ := control_octets ⟨c.toNat, hn⟩
      have hu : String.utf8EncodeChar 'u' = [0x75] := by decide
      have h0 : String.utf8EncodeChar '0' = [0x30] := by decide
      simp only [quotedChar, hl, if_pos hn, List.flatMap_cons, List.flatMap_nil, hb, hu, h0,
        utf8EncodeChar_ascii h1, utf8EncodeChar_ascii h2,
        utf8EncodeChar_ascii (Nat.lt_trans hn (by decide))]
      exact content_escape (escape_control hn s) hs
    · simp only [quotedChar, hl, if_neg hn, List.flatMap_cons, List.flatMap_nil, List.append_nil]
      by_cases hc : 128 ≤ c.toNat
      · exact content_high (utf8EncodeChar_high hc) hs
      · have hto : (UInt8.ofNat c.toNat).toNat = c.toNat := by
          rw [UInt8.toNat_ofNat', Nat.mod_eq_of_lt (by omega)]
        rw [utf8EncodeChar_ascii (Nat.not_le.1 hc)]
        refine content_plain ?_ ?_ ?_ hs
        · intro e
          have he : c = '"' := Char.toNat_inj.1 (by rw [← hto, e]; rfl)
          simp [escapeLetter?, he] at hl
        · intro e
          have he : c = '\\' := Char.toNat_inj.1 (by rw [← hto, e]; rfl)
          simp [escapeLetter?, he] at hl
        · rw [UInt8.lt_iff_toNat_lt, hto]
          exact hn

theorem content_quoted (cs : List Char) (r : Octets) :
    Takes content ((cs.flatMap quotedChar).flatMap String.utf8EncodeChar ++ 0x22 :: r)
      (cs.flatMap String.utf8EncodeChar) r := by
  induction cs with
  | nil => exact content_close r
  | cons c cs ih =>
    simp only [List.flatMap_cons, List.flatMap_append, List.append_assoc]
    exact content_quotedChar c ih

theorem text_quote (s : String) (r : Octets) :
    ∃ t, Text.octets (quote s) ++ r = 0x22 :: t ∧ Takes text t s r := by
  have hq : Text.octets "\"" = [0x22] := by
    rw [Text.octets_eq]
    decide
  refine ⟨(s.toList.flatMap quotedChar).flatMap String.utf8EncodeChar ++ 0x22 :: r, ?_, ?_⟩
  · rw [quote, Text.octets_append, Text.octets_append, hq, Text.octets_ofList]
    simp
  · obtain ⟨h, e⟩ := content_quoted s.toList r
    refine ⟨h, ?_⟩
    rw [text, e]
    simp only [← Text.octets_eq, Text.ofOctets?_octets]

end InfoProtocol.Json
