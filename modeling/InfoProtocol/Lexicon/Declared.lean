import InfoProtocol.Json.Shape
import InfoProtocol.Lexicon

/-!
# Lexicons declared in JSON

A lexicon is declared by a record of its word characters and its comment mark; a field left out
takes its value from the default lexicon. A declared lexicon is acceptable.
-/

namespace InfoProtocol

inductive LexiconError
  | json (f : Json.Fault)
  | defect (d : LexiconDefect)
  deriving DecidableEq, Repr

def LexiconDefect.message (d : LexiconDefect) : String := "Invalid lexer rules: " ++ d.detail

namespace Lexicon

structure Draft where
  wordExtra : Option String
  commentMark : Option (Option String)

def Draft.fields : List (Json.Field Draft) :=
  [.of "word_extra_chars" wordExtra (fun d s => { d with wordExtra := some s }) Json.string,
    .of "comment_prefix" commentMark (fun d m => { d with commentMark := some m }) Json.nullable]

def Draft.finish (d : Draft) : Lexicon :=
  ⟨d.wordExtra.getD default.wordExtra, d.commentMark.getD default.commentMark⟩

def reader : Json.Reader Lexicon :=
  Json.record Draft.fields ⟨none, none⟩ fun d => some d.finish

def ofJson (s : Octets) : Except LexiconError Lexicon :=
  match Json.document reader s with
  | .error f => .error (.json f)
  | .ok x =>
    match x.defect? with
    | some d => .error (.defect d)
    | none => .ok x

theorem acceptable_of_ofJson {s : Octets} {x : Lexicon} (h : ofJson s = .ok x) :
    x.Acceptable := by
  simp only [ofJson] at h
  split at h
  · cases h
  · split at h
    · cases h
    · next hd =>
      cases h
      exact hd

end Lexicon

end InfoProtocol
