import InfoProtocol.Proofs.Lexeme.Lines
import InfoProtocol.Proofs.Token.Placed

/-!
# Scanning line by line

A line feed cuts a text in two parts that are scanned on their own: first the tokens of the part in
front, then a newline where that part ends, then the tokens of the part behind it, moved down by as
many lines as there are in front of them. Columns stay, since a line begins behind the line feed.
-/

namespace InfoProtocol

namespace Token

def down (k : Nat) (t : Token) : Token := { t with line := t.line + k }

end Token

def ScanError.down (k : Nat) : ScanError → ScanError
  | unexpected c line column => unexpected c (line + k) column
  | endless line => endless (line + k)

namespace Lexeme

def Place.down (k : Nat) (p : Place) : Place := { p with line := p.line + k }

variable {x : Lexicon} {s : List Char} {l : Lexeme} {p : Place} {k : Nat}

theorem Place.after_down : (p.down k).after l = (p.after l).down k := by
  by_cases hl : l.kind = some .newline
  · simp only [after, down, if_pos hl, Nat.add_right_comm]
  · simp only [after, down, if_neg hl]

theorem tokenAt_down : l.tokenAt (p.down k) = (l.tokenAt p).map (Token.down k) := by
  rw [tokenAt, tokenAt, Option.map_map]
  rfl

theorem tokensFrom_down (k : Nat) (p : Place) (ls : List Lexeme) :
    tokensFrom (p.down k) ls = (tokensFrom p ls).map (Token.down k) := by
  induction ls generalizing p with
  | nil => rfl
  | cons l ls ih =>
    rw [tokensFrom, tokensFrom, tokenAt_down, Place.after_down, ih, List.map_append,
      Option.toList_map]

theorem endFrom_down (k : Nat) (p : Place) (ls : List Lexeme) :
    endFrom (p.down k) ls = (endFrom p ls).down k := by
  induction ls generalizing p with
  | nil => rfl
  | cons l ls ih =>
    simp only [endFrom, List.foldl_cons, Place.after_down]
    exact ih (p.after l)

def Split.tokens (p : Place) (r : Split) : Except ScanError (List Token) :=
  match r.halt with
  | .finished => .ok (tokensFrom p r.lexemes)
  | .unexpected c => .error (.unexpected c (endFrom p r.lexemes).line (endFrom p r.lexemes).column)
  | .endless => .error (.endless (endFrom p r.lexemes).line)

theorem Split.tokens_down (k : Nat) (p : Place) (r : Split) :
    r.tokens (p.down k) = ((r.tokens p).map (List.map (Token.down k))).mapError (ScanError.down k) := by
  obtain ⟨ls, halt⟩ := r
  cases halt with
  | finished => exact congrArg Except.ok (tokensFrom_down k p ls)
  | unexpected c =>
    simp only [tokens, endFrom_down]
    rfl
  | endless =>
    simp only [tokens, endFrom_down]
    rfl

theorem endFrom_append (p : Place) (ls ms : List Lexeme) :
    endFrom p (ls ++ ms) = endFrom (endFrom p ls) ms := by
  rw [endFrom, List.foldl_append]
  rfl

theorem Split.tokens_append (p : Place) (ls ms : List Lexeme) (halt : Halt) :
    (Split.mk (ls ++ ms) halt).tokens p =
      ((Split.mk ms halt).tokens (endFrom p ls)).map (tokensFrom p ls ++ ·) := by
  cases halt with
  | finished => exact congrArg Except.ok (tokensFrom_append p ls ms)
  | unexpected c =>
    simp only [tokens, endFrom_append]
    rfl
  | endless =>
    simp only [tokens, endFrom_append]
    rfl

theorem Split.tokens_andLine (p : Place) (r q : Split) :
    (r.andLine q).tokens p = do
      let ts ← r.tokens p
      let us ← q.tokens ((endFrom p r.lexemes).after lineFeed)
      return ts ++ (lineFeed.tokenAt (endFrom p r.lexemes)).toList ++ us := by
  obtain ⟨ls, halt⟩ := r
  cases halt with
  | finished =>
    have hend : endFrom p (ls ++ [lineFeed]) = (endFrom p ls).after lineFeed := endFrom_append _ _ _
    have htokens : tokensFrom p (ls ++ [lineFeed]) =
        tokensFrom p ls ++ (lineFeed.tokenAt (endFrom p ls)).toList := by
      rw [tokensFrom_append, tokensFrom, tokensFrom, List.append_nil]
    rw [andLine, List.append_cons, tokens_append, hend, htokens]
    change (q.tokens _).map _ = (q.tokens _).bind _
    cases q.tokens ((endFrom p ls).after lineFeed) <;> rfl
  | unexpected c => rfl
  | endless => rfl

theorem endFrom_split (hx : x.Acceptable) (hm : x.MarkInLine) (h : (split x s).halt = .finished) :
    endFrom .origin (split x s).lexemes = Place.behind s := by
  obtain ⟨mid, rest, hs, -, hend, hhalt⟩ := splits_of_split hx hm [] s (by simp [Cut])
  rw [h] at hhalt
  obtain rfl : rest = [] := hhalt
  rw [List.append_nil] at hs
  subst hs
  exact hend

theorem Place.behind_after_lineFeed (s : List Char) :
    (Place.behind s).after lineFeed = Place.origin.down (1 + s.count '\n') := by
  simp only [after, lineFeed, if_true, behind, origin, down, Nat.add_comm, Nat.add_left_comm]

end Lexeme

namespace Token

open Lexeme

variable {x : Lexicon} {s t : String}

theorem scan_eq_tokens (x : Lexicon) (s : String) :
    scan x s = (split x s.toList).tokens .origin := by
  cases h : (split x s.toList).halt <;> simp only [scan, Split.tokens, h]

/-- A text in front of a line feed is scanned first; then there is a newline where it ends, and the
tokens behind are those of the other text, as many lines further down. If one of the two cannot be
scanned, the error is that of the first such one, moved down if it is the second. -/
theorem scan_append_line (hx : x.Acceptable) (hm : x.MarkInLine)
    (hs : s.toList.getLast? ≠ some '\r') :
    scan x (s ++ "\n" ++ t) = do
      let ts ← scan x s
      let us ← (scan x t).mapError (ScanError.down (1 + s.toList.count '\n'))
      return ts ++ tokenBehind s.toList .newline ['\n'] ::
        us.map (down (1 + s.toList.count '\n')) := by
  have hst : (s ++ "\n" ++ t).toList = s.toList ++ '\n' :: t.toList := by simp
  rw [scan_eq_tokens, scan_eq_tokens, scan_eq_tokens, hst, split_lineFeed hx hm hs,
    Split.tokens_andLine]
  cases h : (split x s.toList).halt with
  | finished =>
    rw [endFrom_split hx hm h, Place.behind_after_lineFeed, Split.tokens_down]
    generalize (split x t.toList).tokens .origin = outcome
    rw [Split.tokens, h]
    cases outcome with
    | ok us => exact congrArg Except.ok (List.append_assoc _ _ _)
    | error e => rfl
  | unexpected c =>
    rw [Split.tokens, h]
    rfl
  | endless =>
    rw [Split.tokens, h]
    rfl

/-- The line break inside the first part counts, and a comment at its end stops at the line feed. -/
theorem scan_append_line_notes :
    let s := "a\r\n #x"
    let ts : List Token := [⟨.word, "a", 1, 0⟩, ⟨.newline, "\n", 1, 1⟩, ⟨.blank, " ", 2, 0⟩]
    Lexicon.default.Acceptable ∧ Lexicon.default.MarkInLine ∧ s.toList.getLast? ≠ some '\r' ∧
      scan .default s = .ok ts ∧ scan .default " b" = .ok [⟨.blank, " ", 1, 0⟩, ⟨.word, "b", 1, 1⟩] ∧
      scan .default (s ++ "\n" ++ " b") =
        .ok (ts ++ [⟨.newline, "\n", 2, 3⟩, ⟨.blank, " ", 3, 0⟩, ⟨.word, "b", 3, 1⟩]) ∧
      scan .default " -" = .error (.unexpected '-' 1 1) ∧
      scan .default (s ++ "\n" ++ " -") = .error (.unexpected '-' 3 1) := by
  intro s ts
  have hlast : s.toList.getLast? ≠ some '\r' := by decide
  have hs : scan .default s = .ok ts := by decide +kernel
  have hok : scan .default " b" = .ok [⟨.blank, " ", 1, 0⟩, ⟨.word, "b", 1, 1⟩] := by decide +kernel
  have herror : scan .default " -" = .error (.unexpected '-' 1 1) := by decide +kernel
  have hline := fun t : String =>
    scan_append_line (t := t) Lexicon.acceptable_default markInLine_default hlast
  refine ⟨Lexicon.acceptable_default, markInLine_default, hlast, hs, hok, ?_, herror, ?_⟩
  · rw [hline, hs, hok]
    decide +kernel
  · rw [hline, hs, herror]
    decide +kernel

end Token

end InfoProtocol
