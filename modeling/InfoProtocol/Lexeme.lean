import InfoProtocol.Lexicon
import InfoProtocol.Token

/-!
# Splitting a text into lexemes

A lexeme is a piece of the text: the spelling of a token or a comment. The text is split from the
front, and at each place a comment is looked for before anything else. A comment runs to the end
of its line; a line break is a line feed, with or without a carriage return before it. Words and
blanks are runs as long as they can be, a run of blanks ending at a line break. The pieces follow
one another without gaps.
-/

namespace InfoProtocol

/-- A piece of text; the kind is missing where the piece is a comment. -/
structure Lexeme where
  kind : Option TokenKind
  spelling : List Char
  deriving DecidableEq, Repr

namespace Lexeme

def breaksLine : List Char → Bool
  | '\n' :: _ => true
  | '\r' :: '\n' :: _ => true
  | _ => false

/-- The longest run at the front of a text that ends before a line break and before the first
character outside of `p`. -/
def run (p : Char → Bool) : List Char → List Char
  | [] => []
  | c :: s => if breaksLine (c :: s) || !p c then [] else c :: run p s

theorem run_isPrefix (p : Char → Bool) (s : List Char) : run p s <+: s := by
  induction s with
  | nil => exact List.nil_prefix
  | cons c s ih =>
    simp only [run]
    split
    · exact List.nil_prefix
    · exact List.cons_prefix_cons.2 ⟨rfl, ih⟩

theorem run_all {p : Char → Bool} {s : List Char} : ∀ c ∈ run p s, p c = true := by
  induction s with
  | nil => simp [run]
  | cons c s ih =>
    simp only [run]
    split
    · simp
    · next h =>
      simp only [Bool.or_eq_true, Bool.not_eq_true', not_or, Bool.not_eq_false] at h
      exact List.forall_mem_cons.2 ⟨h.2, ih⟩

def opensComment (x : Lexicon) (s : List Char) : Bool :=
  match x.commentMark with
  | some mark => mark.toList.isPrefixOf s
  | none => false

def front? (x : Lexicon) (s : List Char) : Option Lexeme :=
  if opensComment x s then some ⟨none, run (fun _ => true) s⟩
  else
    match s with
    | [] => none
    | '\n' :: _ => some ⟨some .newline, ['\n']⟩
    | '\r' :: '\n' :: _ => some ⟨some .newline, ['\r', '\n']⟩
    | '\x7b' :: _ => some ⟨some .openBrace, ['\x7b']⟩
    | '\x7d' :: _ => some ⟨some .closeBrace, ['\x7d']⟩
    | '[' :: _ => some ⟨some .openBracket, ['[']⟩
    | ']' :: _ => some ⟨some .closeBracket, [']']⟩
    | ':' :: _ => some ⟨some .colon, [':']⟩
    | ',' :: _ => some ⟨some .comma, [',']⟩
    | '-' :: '>' :: _ => some ⟨some .arrow, ['-', '>']⟩
    | c :: s =>
      if Text.isBlank c then some ⟨some .blank, c :: run Text.isBlank s⟩
      else if x.isWordChar c then some ⟨some .word, c :: s.takeWhile x.isWordChar⟩
      else none

def signs : List Lexeme :=
  [⟨some .newline, ['\n']⟩, ⟨some .newline, ['\r', '\n']⟩, ⟨some .openBrace, ['\x7b']⟩,
    ⟨some .closeBrace, ['\x7d']⟩, ⟨some .openBracket, ['[']⟩, ⟨some .closeBracket, [']']⟩,
    ⟨some .colon, [':']⟩, ⟨some .comma, [',']⟩, ⟨some .arrow, ['-', '>']⟩]

theorem ne_nil_of_mem_signs : ∀ l ∈ signs, l.spelling ≠ [] := by decide

inductive Front (x : Lexicon) : List Char → Lexeme → Prop
  | comment {s : List Char} (ho : opensComment x s = true) : Front x s ⟨none, run (fun _ => true) s⟩
  | sign {s t : List Char} {l : Lexeme} (ho : opensComment x s = false) (hl : l ∈ signs)
      (hs : s = l.spelling ++ t) : Front x s l
  | blank {c : Char} {s : List Char} (ho : opensComment x (c :: s) = false)
      (hb : breaksLine (c :: s) = false) (hc : Text.isBlank c = true) :
      Front x (c :: s) ⟨some .blank, c :: run Text.isBlank s⟩
  | word {c : Char} {s : List Char} (ho : opensComment x (c :: s) = false)
      (hc : x.isWordChar c = true) : Front x (c :: s) ⟨some .word, c :: s.takeWhile x.isWordChar⟩

theorem front_of_front? {x : Lexicon} {s : List Char} {l : Lexeme} (h : front? x s = some l) :
    Front x s l := by
  unfold front? at h
  split at h
  · next ho =>
    cases h
    exact .comment ho
  · next ho =>
    rw [Bool.not_eq_true] at ho
    split at h
    case h_1 => cases h
    case h_11 c s hlf hcrlf _ _ _ _ _ _ _ =>
      split at h
      · next hc =>
        cases h
        refine .blank ho ?_ hc
        unfold breaksLine
        split
        · next hbreak => exact (hlf (List.cons.inj hbreak).1).elim
        · next hbreak => exact (hcrlf _ (List.cons.inj hbreak).1 (List.cons.inj hbreak).2).elim
        · rfl
      · split at h
        · next hc =>
          cases h
          exact .word ho hc
        · cases h
    all_goals
      cases h
      exact .sign ho (by decide) rfl

theorem front?_isPrefix {x : Lexicon} {s : List Char} {l : Lexeme} (h : front? x s = some l) :
    l.spelling <+: s := by
  cases front_of_front? h with
  | comment => exact run_isPrefix _ _
  | sign _ _ hs => exact hs ▸ List.prefix_append _ _
  | blank => exact List.cons_prefix_cons.2 ⟨rfl, run_isPrefix _ _⟩
  | word => exact List.cons_prefix_cons.2 ⟨rfl, List.takeWhile_prefix _⟩

/-- How the splitting of a text ends: at its end; before a character at which nothing can stand;
or before a line break at which a comment mark matches, so that no piece can be split off. -/
inductive Halt
  | finished
  | unexpected (c : Char)
  | endless
  deriving DecidableEq, Repr

structure Split where
  lexemes : List Lexeme
  halt : Halt
  deriving DecidableEq, Repr

def Split.cons (l : Lexeme) (s : Split) : Split := { s with lexemes := l :: s.lexemes }

def split (x : Lexicon) (s : List Char) : Split :=
  match s with
  | [] => ⟨[], .finished⟩
  | c :: s =>
    match front? x (c :: s) with
    | none => ⟨[], .unexpected c⟩
    | some l =>
      if h : l.spelling = [] then ⟨[], .endless⟩
      else
        have := List.length_pos_iff.2 h
        (split x ((c :: s).drop l.spelling.length)).cons l
termination_by s.length
decreasing_by
  simp only [List.length_drop, List.length_cons]
  omega

end Lexeme

end InfoProtocol
