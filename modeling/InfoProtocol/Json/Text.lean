import InfoProtocol.Json.Number

/-!
# JSON strings

Writing a string escapes the double quote, the backslash and the control characters below the
space, and leaves all else as it is. Reading one takes the octets between the quotes, with the
escapes replaced, and asks at the closing quote that they are UTF-8. A surrogate escape counts
only with its partner. Passing over a string looks at its escapes but not at what they spell.
-/

namespace InfoProtocol.Json

def hexDigit (n : Nat) : Char := Nat.digitChar n

def escapeLetter? (c : Char) : Option Char :=
  if c = '"' then some '"'
  else if c = '\\' then some '\\'
  else if c = '\x08' then some 'b'
  else if c = '\x09' then some 't'
  else if c = '\x0a' then some 'n'
  else if c = '\x0c' then some 'f'
  else if c = '\x0d' then some 'r'
  else none

def quotedChar (c : Char) : List Char :=
  match escapeLetter? c with
  | some l => ['\\', l]
  | none =>
    if c.toNat < 0x20 then ['\\', 'u', '0', '0', hexDigit (c.toNat / 16), hexDigit (c.toNat % 16)]
    else [c]

def quote (s : String) : String :=
  "\"" ++ String.ofList (s.toList.flatMap quotedChar) ++ "\""

def writeObject (members : List (String × String)) : String :=
  "\x7b" ++ ",".intercalate (members.map fun m => quote m.1 ++ ":" ++ m.2) ++ "\x7d"

def hexValue? (c : UInt8) : Option Nat :=
  if isDigit c then some (c.toNat - 0x30)
  else if 0x61 ≤ c && c ≤ 0x66 then some (c.toNat - 0x61 + 10)
  else if 0x41 ≤ c && c ≤ 0x46 then some (c.toNat - 0x41 + 10)
  else none

def hex4 : Reader Nat
  | a :: b :: c :: d :: s =>
    match hexValue? a, hexValue? b, hexValue? c, hexValue? d with
    | some a, some b, some c, some d =>
      .ok ⟨((a * 16 + b) * 16 + c) * 16 + d, s, by simp only [List.length_cons]; omega⟩
    | _, _, _, _ => .error .malformed
  | _ => .error .truncated

def isLeading (n : Nat) : Bool := 0xd800 ≤ n && n ≤ 0xdbff

def isTrailing (n : Nat) : Bool := 0xdc00 ≤ n && n ≤ 0xdfff

def trailing : Reader Nat
  | [] => .error .truncated
  | c :: s =>
    if c ≠ 0x5c then .error .malformed
    else
      match s with
      | [] => .error .truncated
      | d :: s =>
        if d ≠ 0x75 then .error .malformed
        else
          match hex4 s with
          | .error e => .error e
          | .ok n =>
            if isTrailing n.value then
              .ok (n.within (by simp only [List.length_cons]; omega))
            else .error .malformed

def codePoint : Reader Nat := fun s =>
  match hex4 s with
  | .error e => .error e
  | .ok n =>
    if isTrailing n.value then .error .malformed
    else if isLeading n.value then
      match trailing n.rest with
      | .error e => .error e
      | .ok m =>
        .ok ⟨0x10000 + (n.value - 0xd800) * 0x400 + (m.value - 0xdc00), m.rest,
          Nat.lt_trans m.shorter n.shorter⟩
    else .ok n

def plainEscape? (c : UInt8) : Option UInt8 :=
  if c = 0x22 || c = 0x5c || c = 0x2f then some c
  else if c = 0x62 then some 0x08
  else if c = 0x66 then some 0x0c
  else if c = 0x6e then some 0x0a
  else if c = 0x72 then some 0x0d
  else if c = 0x74 then some 0x09
  else none

def escape : Reader Octets
  | [] => .error .truncated
  | c :: s =>
    if c = 0x75 then
      match codePoint s with
      | .error e => .error e
      | .ok n =>
        .ok ⟨String.utf8EncodeChar (Char.ofNat n.value), n.rest, Nat.lt_succ_of_lt n.shorter⟩
    else
      match plainEscape? c with
      | some b => .ok ⟨[b], s, Nat.lt_succ_self _⟩
      | none => .error .malformed

def content (s : Octets) : Except Fault (Read Octets s) :=
  match s with
  | [] => .error .truncated
  | c :: s =>
    if c = 0x22 then .ok ⟨[], s, Nat.lt_succ_self _⟩
    else if c = 0x5c then
      match escape s with
      | .error e => .error e
      | .ok x =>
        have := x.shorter
        match content x.rest with
        | .error e => .error e
        | .ok t =>
          .ok ⟨x.value ++ t.value, t.rest,
            Nat.lt_succ_of_lt (Nat.lt_trans t.shorter x.shorter)⟩
    else if c < 0x20 then .error .malformed
    else
      match content s with
      | .error e => .error e
      | .ok t => .ok ⟨c :: t.value, t.rest, Nat.lt_succ_of_lt t.shorter⟩
termination_by s.length

def text : Reader String := fun s =>
  match content s with
  | .error e => .error e
  | .ok x =>
    match Text.ofOctets? x.value with
    | some t => .ok ⟨t, x.rest, x.shorter⟩
    | none => .error .malformed

def skipEscape : Reader Unit
  | [] => .error .truncated
  | c :: s =>
    if c = 0x75 then
      match hex4 s with
      | .error e => .error e
      | .ok n => .ok ⟨(), n.rest, Nat.lt_succ_of_lt n.shorter⟩
    else if (plainEscape? c).isSome then .ok ⟨(), s, Nat.lt_succ_self _⟩
    else .error .malformed

def skipText (s : Octets) : Except Fault (Read Unit s) :=
  match s with
  | [] => .error .truncated
  | c :: s =>
    if c = 0x22 then .ok ⟨(), s, Nat.lt_succ_self _⟩
    else if c = 0x5c then
      match skipEscape s with
      | .error e => .error e
      | .ok x =>
        have := x.shorter
        match skipText x.rest with
        | .error e => .error e
        | .ok t => .ok ⟨(), t.rest, Nat.lt_succ_of_lt (Nat.lt_trans t.shorter x.shorter)⟩
    else if c < 0x20 then .error .malformed
    else
      match skipText s with
      | .error e => .error e
      | .ok t => .ok ⟨(), t.rest, Nat.lt_succ_of_lt t.shorter⟩
termination_by s.length

end InfoProtocol.Json
