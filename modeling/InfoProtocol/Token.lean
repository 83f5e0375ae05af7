/-!
# Tokens

A token is a kind, the text that stands for it, and where it stands: its line, counted from one,
and its first column, counted from zero in characters.
-/

namespace InfoProtocol

inductive TokenKind
  | word
  | arrow
  | colon
  | comma
  | openBrace
  | closeBrace
  | openBracket
  | closeBracket
  | newline
  | blank
  deriving DecidableEq, Repr

def TokenKind.label : TokenKind → String
  | word => "word"
  | arrow => "->"
  | colon => ":"
  | comma => ","
  | openBrace => "\x7b"
  | closeBrace => "\x7d"
  | openBracket => "["
  | closeBracket => "]"
  | newline => "newline"
  | blank => "whitespace"

structure Token where
  kind : TokenKind
  text : String
  line : Nat
  start : Nat
  deriving DecidableEq, Repr

def Token.stop (t : Token) : Nat := t.start + t.text.length

end InfoProtocol
