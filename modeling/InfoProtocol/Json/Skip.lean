import InfoProtocol.Json.Text

/-!
# Passing over a JSON value

A value whose content does not matter is passed over by its grammar alone, nested arrays and
objects included.
-/

namespace InfoProtocol.Json

mutual

def skipValue (s : Octets) : Except Fault (Read Unit s) :=
  match hs : skipSpace s with
  | [] => .error .truncated
  | c :: r =>
    have hr : r.length < s.length := skipSpace_cons hs
    if c = 0x22 then
      match skipText r with
      | .error e => .error e
      | .ok x => .ok (x.within (Nat.le_of_lt hr))
    else if c = 0x5b then
      match hr' : skipSpace r with
      | [] => .error .truncated
      | d :: t =>
        if d = 0x5d then .ok ⟨(), t, Nat.lt_trans (skipSpace_cons hr') hr⟩
        else
          match skipElements r with
          | .error e => .error e
          | .ok x => .ok (x.within (Nat.le_of_lt hr))
    else if c = 0x7b then
      match hr' : skipSpace r with
      | [] => .error .truncated
      | d :: t =>
        if d = 0x7d then .ok ⟨(), t, Nat.lt_trans (skipSpace_cons hr') hr⟩
        else
          match skipMembers r with
          | .error e => .error e
          | .ok x => .ok (x.within (Nat.le_of_lt hr))
    else
      match literalTail? c with
      | some w =>
        match hw : literal w r with
        | .error e => .error e
        | .ok t => .ok ⟨(), t, Nat.lt_of_le_of_lt (literal_length hw) hr⟩
      | none =>
        if opensNumber c then
          match hn : number .malformed c r with
          | .error e => .error e
          | .ok t => .ok ⟨(), t, Nat.lt_of_le_of_lt (number_length hn) hr⟩
        else .error .malformed
termination_by (s.length, 0)

def skipElements (s : Octets) : Except Fault (Read Unit s) :=
  match skipValue s with
  | .error e => .error e
  | .ok x =>
    have hx := x.shorter
    match hs : skipSpace x.rest with
    | [] => .error .truncated
    | c :: r =>
      have hr : r.length < x.rest.length := skipSpace_cons hs
      if c = 0x5d then .ok ⟨(), r, Nat.lt_trans hr hx⟩
      else if c = 0x2c then
        match skipElements r with
        | .error e => .error e
        | .ok y => .ok (y.within (Nat.le_of_lt (Nat.lt_trans hr hx)))
      else .error .malformed
termination_by (s.length, 1)

def skipMembers (s : Octets) : Except Fault (Read Unit s) :=
  match hs : skipSpace s with
  | [] => .error .truncated
  | c :: r =>
    have hr : r.length < s.length := skipSpace_cons hs
    if c ≠ 0x22 then .error .malformed
    else
      match skipText r with
      | .error e => .error e
      | .ok k =>
        have hk := k.shorter
        match hc : skipSpace k.rest with
        | [] => .error .truncated
        | c :: v =>
          have hv : v.length < k.rest.length := skipSpace_cons hc
          if c ≠ 0x3a then .error .malformed
          else
            match skipValue v with
            | .error e => .error e
            | .ok x =>
              have hx := x.shorter
              match hs : skipSpace x.rest with
              | [] => .error .truncated
              | c :: t =>
                have ht : t.length < x.rest.length := skipSpace_cons hs
                if c = 0x7d then .ok ⟨(), t, by omega⟩
                else if c = 0x2c then
                  match skipMembers t with
                  | .error e => .error e
                  | .ok y => .ok (y.within (by omega))
                else .error .malformed
termination_by (s.length, 1)

end

end InfoProtocol.Json
