import InfoProtocol.Enactment
import InfoProtocol.Text.Quoted
import InfoProtocol.Token

/-!
# What can be wrong with a list of tokens

A fault names what was expected and what was found, or the group of words that makes no
parameter, or the word that may not be used. Reading stops at the first fault; the failure also
carries the texts of the tokens consumed before it.
-/

namespace InfoProtocol.Grammar

inductive Expected
  | kind (k : TokenKind)
  | keyword (w : String)
  | roleSeparator
  | declaredRole
  | parameter (closer : TokenKind)
  | actionOrClose
  | endOfInput
  deriving DecidableEq, Repr

def Expected.text : Expected → String
  | kind k => k.label
  | keyword w => "'" ++ w ++ "'"
  | roleSeparator => "',' or newline"
  | declaredRole => "a declared role"
  | parameter closer => "parameter, ',' or '" ++ closer.label ++ "'"
  | actionOrClose => "action or '\x7d'"
  | endOfInput => "end of input"

inductive GroupDefect
  | empty
  | tooLong
  | notKey (word : String)
  | notScope (word : String)
  | repeated (name : String)
  deriving DecidableEq, Repr

def GroupDefect.text : GroupDefect → String
  | empty => "empty parameter group"
  | tooLong => "a parameter takes at most a scope, a name and a key marker"
  | notKey w => "expected 'key' but found '" ++ w ++ "'"
  | notScope w => "'" ++ w ++ "' is not a scope (in, nil, out)"
  | repeated n => "parameter '" ++ n ++ "' is declared more than once"

inductive Fault
  | unexpected (expected : Expected) (found : String) (line : Nat)
  | inputEnds (expected : Expected)
  | group (words : List String) (defect : GroupDefect)
  | reserved (word : String) (line : Nat)
  | repeatedRole (role : Role) (line : Nat)
  | defect (d : Defect)
  deriving DecidableEq, Repr

def Fault.message : Fault → String
  | unexpected e found line =>
    "Line " ++ toString line ++ ": expected " ++ e.text ++ " but found '" ++ found ++ "'"
  | inputEnds e => "Unexpected end of input: expected " ++ e.text
  | group ws d => "Invalid parameter definition " ++ Text.quotedWords ws ++ ": " ++ d.text
  | reserved w line =>
    "Line " ++ toString line ++ ": '" ++ w ++ "' is a reserved word and cannot be used as a name"
  | repeatedRole r line =>
    "Line " ++ toString line ++ ": role '" ++ r ++ "' is declared more than once"
  | defect d => d.message

structure Failure where
  cause : Fault
  consumed : List String
  deriving DecidableEq, Repr

def Failure.message (f : Failure) : String :=
  f.cause.message ++ " (after " ++ Text.quotedWords f.consumed ++ ")"

end InfoProtocol.Grammar
