import InfoProtocol.Text.NonPrinting

/-!
# Quoted words in diagnostics

A diagnostic shows a list of words between brackets, each word between double quotes. Inside the
quotes the double quote and the backslash are preceded by a backslash, four control characters
have a letter of their own, and any other character that does not print is given by its code
point in hexadecimal. The single quote stands as it is.
-/

namespace InfoProtocol.Text

def hexDigits (n : Nat) : String := String.ofList (Nat.toDigits 16 n)

def quotedChar (c : Char) : String :=
  match c with
  | '"' => "\\\""
  | '\\' => "\\\\"
  | '\x00' => "\\0"
  | '\t' => "\\t"
  | '\n' => "\\n"
  | '\r' => "\\r"
  | c => if isNonPrinting c then "\\u\x7b" ++ hexDigits c.toNat ++ "\x7d" else c.toString

def quotedWord (w : String) : String :=
  "\"" ++ String.join (w.toList.map quotedChar) ++ "\""

def quotedWords (ws : List String) : String :=
  "[" ++ ", ".intercalate (ws.map quotedWord) ++ "]"

end InfoProtocol.Text
