import InfoProtocol.Bindings
import InfoProtocol.Json.Magnitude
import InfoProtocol.Json.Skip

/-!
# JSON values of a given shape

A record is an object with the record's fields, in any order and among others that do not count,
or an array of the fields in their order. A field may come once; a map may repeat a name, and the
last value stays. Where the value has another shape, the fault tells text that ends or is no JSON
from JSON that does not fit.
-/

namespace InfoProtocol.Json

variable {α σ : Type}

def misfit : Octets → Fault
  | [] => .truncated
  | c :: s =>
    if c = 0x5b || c = 0x7b then .mismatched
    else if c = 0x22 then
      match text s with
      | .error e => e
      | .ok _ => .mismatched
    else
      match literalTail? c with
      | some w =>
        match literal w s with
        | .error e => e
        | .ok _ => .mismatched
      | none =>
        if opensNumber c then
          match number .truncated c s with
          | .error e => e
          | .ok r =>
            let spelling := c :: s.take (s.length - r.length)
            if (Decimal.ofOctets spelling).isTooLarge then .malformed else .mismatched
        else .malformed

def string : Reader String := fun s =>
  match hs : skipSpace s with
  | [] => .error .truncated
  | c :: r =>
    if c = 0x22 then
      match text r with
      | .error e => .error e
      | .ok x => .ok (x.within (Nat.le_of_lt (skipSpace_cons hs)))
    else .error (misfit (c :: r))

def nullable : Reader (Option String) := fun s =>
  match hs : skipSpace s with
  | [] => .error .truncated
  | c :: r =>
    if c = 0x6e then
      match hw : literal [0x75, 0x6c, 0x6c] r with
      | .error e => .error e
      | .ok t => .ok ⟨none, t, Nat.lt_of_le_of_lt (literal_length hw) (skipSpace_cons hs)⟩
    else Reader.map some string s

/-- Reads the members of an object behind its opening brace or a comma, up to and with the closing
brace. For a name and the state so far, `member` gives the reader of the value. -/
def membersFrom (member : String → σ → Except Fault (Reader σ)) (state : σ) (s : Octets) :
    Except Fault (Read σ s) :=
  match hs : skipSpace s with
  | [] => .error .truncated
  | c :: r =>
    have hr : r.length < s.length := skipSpace_cons hs
    if c ≠ 0x22 then .error .malformed
    else
      match text r with
      | .error e => .error e
      | .ok k =>
        have hk := k.shorter
        match member k.value state with
        | .error e => .error e
        | .ok rd =>
          match hc : skipSpace k.rest with
          | [] => .error .truncated
          | c :: v =>
            have hv : v.length < k.rest.length := skipSpace_cons hc
            if c ≠ 0x3a then .error .malformed
            else
              match rd v with
              | .error e => .error e
              | .ok x =>
                have hx := x.shorter
                match hs : skipSpace x.rest with
                | [] => .error .truncated
                | c :: t =>
                  have ht : t.length < x.rest.length := skipSpace_cons hs
                  if c = 0x7d then .ok ⟨x.value, t, by omega⟩
                  else if c = 0x2c then
                    match membersFrom member x.value t with
                    | .error e => .error e
                    | .ok y => .ok (y.within (by omega))
                  else .error .malformed
termination_by s.length

def objectTail (member : String → σ → Except Fault (Reader σ)) (state : σ) : Reader σ := fun s =>
  match hs : skipSpace s with
  | [] => .error .truncated
  | c :: r =>
    if c = 0x7d then .ok ⟨state, r, skipSpace_cons hs⟩
    else membersFrom member state s

def map (rd : Reader α) : Reader (Bindings α) := fun s =>
  match hs : skipSpace s with
  | [] => .error .truncated
  | c :: r =>
    if c = 0x7b then
      match objectTail (fun k b => .ok (rd.map (b.insert k))) ∅ r with
      | .error e => .error e
      | .ok x => .ok (x.within (Nat.le_of_lt (skipSpace_cons hs)))
    else .error (misfit (c :: r))

structure Field (σ : Type) where
  name : String
  isSet : σ → Bool
  read : σ → Reader σ

def Field.of {α : Type} (name : String) (get : σ → Option α) (set : σ → α → σ)
    (rd : Reader α) : Field σ :=
  ⟨name, fun d => (get d).isSome, fun d => rd.map (set d)⟩

def fieldMember (fields : List (Field σ)) (k : String) (d : σ) : Except Fault (Reader σ) :=
  match fields.find? fun f => f.name = k with
  | none => .ok (Reader.map (fun _ => d) skipValue)
  | some f => if f.isSet d then .error .mismatched else .ok (f.read d)

/-- Reads the elements of an array for the fields in turn, behind the opening bracket or, if not
`first`, behind an element. The array may end early. -/
def elementsFrom : List (Field σ) → Bool → σ → Reader σ
  | [], _, d => fun s =>
    match hs : skipSpace s with
    | [] => .error .truncated
    | c :: r => if c = 0x5d then .ok ⟨d, r, skipSpace_cons hs⟩ else .error .malformed
  | f :: fs, first, d => fun s =>
    match hs : skipSpace s with
    | [] => .error .truncated
    | c :: r =>
      have hr : r.length < s.length := skipSpace_cons hs
      if c = 0x5d then .ok ⟨d, r, hr⟩
      else if first then
        match f.read d s with
        | .error e => .error e
        | .ok x =>
          match elementsFrom fs false x.value x.rest with
          | .error e => .error e
          | .ok y => .ok (y.within (Nat.le_of_lt x.shorter))
      else if c = 0x2c then
        match skipSpace r with
        | [] => .error .truncated
        | e :: _ =>
          if e = 0x5d then .error .malformed
          else
            match f.read d r with
            | .error e => .error e
            | .ok x =>
              have hx := x.shorter
              match elementsFrom fs false x.value x.rest with
              | .error e => .error e
              | .ok y => .ok (y.within (by omega))
      else .error .malformed

def record (fields : List (Field σ)) (empty : σ) (finish : σ → Option α) : Reader α := fun s =>
  match hs : skipSpace s with
  | [] => .error .truncated
  | c :: r =>
    have hr : r.length < s.length := skipSpace_cons hs
    if c = 0x7b then
      match objectTail (fieldMember fields) empty r with
      | .error e => .error e
      | .ok x =>
        match finish x.value with
        | some a => .ok ⟨a, x.rest, Nat.lt_trans x.shorter hr⟩
        | none => .error .mismatched
    else if c = 0x5b then
      match elementsFrom fields true empty r with
      | .error e => .error e
      | .ok x =>
        match finish x.value with
        | some a => .ok ⟨a, x.rest, Nat.lt_trans x.shorter hr⟩
        | none => .error .mismatched
    else .error (misfit (c :: r))

def document (rd : Reader α) (s : Octets) : Except Fault α :=
  match rd s with
  | .error e => .error e
  | .ok x => if skipSpace x.rest = [] then .ok x.value else .error .malformed

end InfoProtocol.Json
