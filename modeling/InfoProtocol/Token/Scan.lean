import InfoProtocol.Lexeme

/-!
# From lexemes to tokens

Lexemes follow one another without gaps, so the place of each is found by walking over the ones
before it. A comment leaves no token. The text of a newline is a line feed, however the line
break is spelled.
-/

namespace InfoProtocol

namespace Lexeme

/-- A line, counted from one, and a column, counted from zero. -/
structure Place where
  line : Nat
  column : Nat
  deriving DecidableEq, Repr

def Place.origin : Place := ⟨1, 0⟩

def Place.after (p : Place) (l : Lexeme) : Place :=
  if l.kind = some .newline then ⟨p.line + 1, 0⟩ else ⟨p.line, p.column + l.spelling.length⟩

def text (l : Lexeme) : String :=
  if l.kind = some .newline then "\n" else String.ofList l.spelling

def tokenAt (p : Place) (l : Lexeme) : Option Token :=
  l.kind.map fun k => ⟨k, l.text, p.line, p.column⟩

def tokensFrom (p : Place) : List Lexeme → List Token
  | [] => []
  | l :: ls => (l.tokenAt p).toList ++ tokensFrom (p.after l) ls

def endFrom (p : Place) (ls : List Lexeme) : Place := ls.foldl Place.after p

theorem tokensFrom_append (p : Place) (ls ms : List Lexeme) :
    tokensFrom p (ls ++ ms) = tokensFrom p ls ++ tokensFrom (endFrom p ls) ms := by
  induction ls generalizing p with
  | nil => rfl
  | cons l ls ih => simp [tokensFrom, endFrom, ih]

end Lexeme

inductive ScanError
  | unexpected (c : Char) (line column : Nat)
  | endless (line : Nat)
  deriving DecidableEq, Repr

def ScanError.message : ScanError → String
  | unexpected c line column =>
    "Unexpected character '" ++ c.toString ++ "' at line " ++ toString line ++ ", column " ++
      toString column
  | endless line => "Line " ++ toString line ++ ": the comment mark matches a line break"

def Token.scan (x : Lexicon) (s : String) : Except ScanError (List Token) :=
  let r := Lexeme.split x s.toList
  let p := Lexeme.endFrom .origin r.lexemes
  match r.halt with
  | .finished => .ok (Lexeme.tokensFrom .origin r.lexemes)
  | .unexpected c => .error (.unexpected c p.line p.column)
  | .endless => .error (.endless p.line)

end InfoProtocol
