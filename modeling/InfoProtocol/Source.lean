import InfoProtocol.Grammar
import InfoProtocol.Token.Scan

/-!
# Protocols from source text

Reading a source splits it into tokens under a lexicon and reads a protocol from them. Compiling
also asks that the protocol can be enacted.
-/

namespace InfoProtocol

inductive SourceError
  | scan (e : ScanError)
  | grammar (f : Grammar.Failure)
  | defect (d : Defect)
  deriving DecidableEq, Repr

def SourceError.message : SourceError → String
  | scan e => e.message
  | grammar f => f.message
  | defect d => d.message

namespace Protocol

def read (x : Lexicon) (source : String) : Except SourceError Protocol :=
  match Token.scan x source with
  | .error e => .error (.scan e)
  | .ok ts =>
    match ofTokens ts with
    | .error f => .error (.grammar f)
    | .ok p => .ok p

def compile (x : Lexicon) (source : String) : Except SourceError Protocol :=
  match read x source with
  | .error e => .error e
  | .ok p =>
    match p.validate with
    | .error d => .error (.defect d)
    | .ok _ => .ok p

theorem read_eq_ok {x : Lexicon} {source : String} {p : Protocol} :
    read x source = .ok p ↔ ∃ ts, Token.scan x source = .ok ts ∧ ofTokens ts = .ok p := by
  unfold read
  split
  · next h => simp [h]
  · next ts h =>
    split
    · next h' => simp [h, h']
    · next h' => simp [h, h']

theorem compile_eq_ok {x : Lexicon} {source : String} {p : Protocol} :
    compile x source = .ok p ↔ read x source = .ok p ∧ p.validate = .ok () := by
  unfold compile
  split
  · next h => simp [h]
  · next q h =>
    split
    · next d h' =>
      simp only [reduceCtorEq, h, Except.ok.injEq, false_iff, not_and]
      rintro rfl
      simp [h']
    · next h' =>
      simp only [h, Except.ok.injEq]
      exact ⟨fun e => ⟨e, e ▸ h'⟩, fun e => e.1⟩

end Protocol

end InfoProtocol
