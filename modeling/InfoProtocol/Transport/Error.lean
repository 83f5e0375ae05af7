import InfoProtocol.Json.Scan
import InfoProtocol.Source

/-!
# Why a text that was sent cannot be read

The JSON around it may be at fault, or the text of a protocol or an action in it, or the text may
hold no action, or a value may belong to no parameter.
-/

namespace InfoProtocol

inductive TransportError
  | json (f : Json.Fault)
  | source (e : SourceError)
  | missingAction (text : String)
  | undeclaredValue (key : String)
  deriving DecidableEq, Repr

def TransportError.message : TransportError → String
  | json .truncated => "Envelope error: the text ends too early"
  | json .malformed => "Envelope error: the text is no JSON"
  | json .mismatched => "Envelope error: the value has another shape"
  | source e => e.message
  | missingAction t => "No action could be read from '" ++ t ++ "'"
  | undeclaredValue k => "Value key '" ++ k ++ "' does not name a declared parameter"

end InfoProtocol
