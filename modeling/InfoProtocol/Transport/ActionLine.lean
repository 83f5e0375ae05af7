import InfoProtocol.Text.Blank
import InfoProtocol.Transport.Error

/-!
# Actions as lines of text

An action travels as its written form. To read one back, the line is set into a protocol of one
key parameter whose roles are the words in the line's sender and receiver places; the first
action of that protocol is the answer.
-/

namespace InfoProtocol

namespace ActionLine

def wordOr (spare : Role) (t : Token) : Role := if t.kind = .word then t.text else spare

def senderOf : List Token → Role
  | t :: _ => wordOr "A" t
  | [] => "A"

def receiverOf : List Token → Role
  | _ :: arrow :: t :: _ => if arrow.kind = .arrow then wordOr "B" t else "B"
  | _ => "B"

/-- The roles of the shell; they are spare names where the line shows none. -/
def shellRoles (x : Lexicon) (line : String) : List Role :=
  match Token.scan x line with
  | .error _ => ["A", "B"]
  | .ok ts =>
    let ts := Token.withoutLayout ts
    if senderOf ts = receiverOf ts then [senderOf ts] else [senderOf ts, receiverOf ts]

def shell (x : Lexicon) (line : String) : String :=
  "X \x7b\n  role " ++ ", ".intercalate (shellRoles x line) ++
    "\n  parameter out C key\n\n  " ++ line ++ "\n\x7d\n"

end ActionLine

def Action.read (x : Lexicon) (text : String) : Except TransportError Action :=
  match Protocol.read x (ActionLine.shell x (Text.trim text)) with
  | .error e => .error (.source e)
  | .ok p =>
    match p.actions with
    | [] => .error (.missingAction text)
    | a :: _ => .ok a

end InfoProtocol
