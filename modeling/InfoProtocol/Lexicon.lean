import InfoProtocol.Text.Blank

/-!
# Lexicons

A lexicon says which characters besides the ASCII letters and digits belong to words, and which
mark, if any, opens a comment. An acceptable lexicon has no blank and no character of the
punctuation among the word characters, and no empty comment mark.
-/

namespace InfoProtocol

structure Lexicon where
  wordExtra : String
  commentMark : Option String
  deriving DecidableEq, Repr

inductive LexiconDefect
  | wordCharacter (c : Char)
  | emptyCommentMark
  deriving DecidableEq, Repr

def LexiconDefect.detail : LexiconDefect → String
  | wordCharacter c => "'" ++ c.toString ++ "' cannot be part of a word"
  | emptyCommentMark => "comment prefix cannot be empty"

namespace Lexicon

def default : Lexicon := ⟨"_", some "#"⟩

def punctuation : List Char := ['-', '>', ':', ',', '\x7b', '\x7d', '[', ']']

def isPunctuation (c : Char) : Bool := punctuation.contains c

def defect? (x : Lexicon) : Option LexiconDefect :=
  match x.wordExtra.toList.find? fun c => Text.isBlank c || isPunctuation c with
  | some c => some (.wordCharacter c)
  | none => if x.commentMark = some "" then some .emptyCommentMark else none

def Acceptable (x : Lexicon) : Prop := x.defect? = none

instance (x : Lexicon) : Decidable x.Acceptable := inferInstanceAs (Decidable (_ = _))

def isWordChar (x : Lexicon) (c : Char) : Bool := c.isAlphanum || x.wordExtra.toList.contains c

theorem acceptable_default : default.Acceptable := by decide

theorem acceptable_iff {x : Lexicon} :
    x.Acceptable ↔ (∀ c ∈ x.wordExtra.toList, Text.isBlank c = false ∧ isPunctuation c = false) ∧
      x.commentMark ≠ some "" := by
  simp only [Acceptable, defect?]
  split
  · next c h =>
    have hc := List.find?_some h
    have hm := List.mem_of_find?_eq_some h
    simp only [reduceCtorEq, false_iff, not_and]
    intro hall
    have := hall c hm
    simp [this.1, this.2] at hc
  · next h =>
    have hall : ∀ c ∈ x.wordExtra.toList,
        Text.isBlank c = false ∧ isPunctuation c = false := by simpa using h
    simp only [ite_eq_right_iff, reduceCtorEq, imp_false]
    exact ⟨fun hm => ⟨hall, hm⟩, fun hm => hm.2⟩

theorem isAlphanum_spec {c : Char} (h : c.isAlphanum = true) :
    Text.isBlank c = false ∧ isPunctuation c = false := by
  delta Char.isAlphanum Char.isAlpha Char.isUpper Char.isLower Char.isDigit at h
  simp only [Bool.or_eq_true, Bool.and_eq_true, decide_eq_true_eq] at h
  have hn : (48 ≤ c.toNat ∧ c.toNat ≤ 57) ∨ (65 ≤ c.toNat ∧ c.toNat ≤ 90) ∨
      (97 ≤ c.toNat ∧ c.toNat ≤ 122) := by
    simp only [UInt32.le_iff_toNat_le, ge_iff_le] at h
    rcases h with (h | h) | h
    · exact .inr (.inl h)
    · exact .inr (.inr h)
    · exact .inl h
  constructor
  · simp only [Text.isBlank, Bool.or_eq_false_iff, Bool.and_eq_false_iff, decide_eq_false_iff_not,
      beq_eq_false_iff_ne]
    omega
  · rw [Bool.eq_false_iff]
    intro hp
    simp only [isPunctuation, punctuation, List.contains_iff_mem, List.mem_cons,
      List.not_mem_nil, or_false] at hp
    rcases hp with rfl | rfl | rfl | rfl | rfl | rfl | rfl | rfl <;> revert hn <;> decide

theorem isWordChar_spec {x : Lexicon} (hx : x.Acceptable) {c : Char}
    (h : x.isWordChar c = true) : Text.isBlank c = false ∧ isPunctuation c = false := by
  rcases Bool.or_eq_true_iff.1 h with h | h
  · exact isAlphanum_spec h
  · exact (acceptable_iff.1 hx).1 c (List.contains_iff_mem.1 h)

end Lexicon

end InfoProtocol
