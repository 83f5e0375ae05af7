import InfoProtocol.Grammar.Reading
import InfoProtocol.Token.Layout

/-!
# Reading a protocol from its tokens

The grammar is read from left to right in four sections: the name, the roles, the parameters, and
the actions up to the closing brace. A group of words is judged at the comma or closing token
behind it. A failure counts as consumed the tokens before the one at which it arose.
-/

namespace InfoProtocol.Grammar

def rolesAfter (done : List Role) : Reading (List Role)
  | [] => .error (.inputEnds (.kind .word)) []
  | t :: ts =>
    if t.kind ≠ .word then .error (.unexpected (.kind .word) t.text t.line) (t :: ts)
    else if isReserved t.text then .error (.reserved t.text t.line) (t :: ts)
    else if done.contains t.text then .error (.repeatedRole t.text t.line) (t :: ts)
    else
      match ts with
      | [] => .error (.inputEnds .roleSeparator) []
      | u :: ts =>
        if u.kind = .comma then rolesAfter (done ++ [t.text]) ts
        else if u.kind = .newline then .ok (done ++ [t.text]) ts
        else .error (.unexpected .roleSeparator u.text u.line) (u :: ts)

def roles : Reading (List Role) := do
  keyword "role"
  rolesAfter []

def words (group : List Token) : List String := group.map (·.text)

def scopeOf (t : Token) (group : List Token) : Except Fault Scope :=
  match Scope.ofWord? t.text with
  | some s => .ok s
  | none => .error (.group (words group) (.notScope t.text))

/-- A group of words is read by position: a name, a name and the key mark, a scope and a name, or
a scope, a name and the key mark. -/
def parameterOf (group : List Token) : Except Fault Parameter :=
  match group with
  | [] => .error (.group [] .empty)
  | [n] => do
    let n ← nameOf n
    return ⟨n, .nil, false⟩
  | [a, b] =>
    if b.text = "key" then do
      let n ← nameOf a
      return ⟨n, .nil, true⟩
    else do
      let n ← nameOf b
      let s ← scopeOf a group
      return ⟨n, s, false⟩
  | [a, b, c] =>
    if c.text = "key" then do
      let n ← nameOf b
      let s ← scopeOf a group
      return ⟨n, s, true⟩
    else .error (.group (words group) (.notKey c.text))
  | _ => .error (.group (words group) .tooLong)

def declare (done : List Parameter) (group : List Token) : Except Fault (List Parameter) := do
  let p ← parameterOf group
  if done.any fun q => q.name = p.name then
    throw (.group (words group) (.repeated p.name))
  else return done ++ [p]

/-- Reads groups between commas up to a token of kind `closer`, after the parameters `done` and
the first words `group` of the group at hand. -/
def paramsAfter (closer : TokenKind) (done : List Parameter) (group : List Token) :
    Reading (List Parameter)
  | [] => .error (.inputEnds (.parameter closer)) []
  | t :: ts =>
    if t.kind = .word then paramsAfter closer done (group ++ [t]) ts
    else if t.kind = .comma then
      match declare done group with
      | .ok done => paramsAfter closer done [] ts
      | .error e => .error e (t :: ts)
    else if t.kind = closer then
      match declare done group with
      | .ok done => .ok done ts
      | .error e => .error e (t :: ts)
    else .error (.unexpected (.parameter closer) t.text t.line) (t :: ts)

def paramsUntil (closer : TokenKind) : Reading (List Parameter) := paramsAfter closer [] []

def parameters (protocol : String) : Reading (List Parameter) := do
  keyword "parameter"
  let ps ← paramsUntil .newline
  if ps.any (·.isKey) then return ps
  else throw (.defect (.noKeyParameters protocol))

def action (roles : List Role) : Reading Action := do
  let sender ← declaredRole roles
  take .arrow
  let receiver ← declaredRole roles
  take .colon
  let n ← name
  take .openBracket
  let ps ← paramsUntil .closeBracket
  take .newline
  return ⟨n, sender, receiver, ps⟩

theorem keeps_paramsAfter (closer : TokenKind) (done : List Parameter) (group : List Token) :
    Keeps (paramsAfter closer done group) := by
  intro ts
  induction ts generalizing done group with
  | nil => intro a us h; cases h
  | cons t ts ih =>
    intro a us h
    simp only [paramsAfter] at h
    split at h
    · exact Nat.le_succ_of_le (ih _ _ a us h)
    · split at h
      · split at h
        · exact Nat.le_succ_of_le (ih _ _ a us h)
        · cases h
      · split at h
        · split at h
          · cases h; exact Nat.le_succ _
          · cases h
        · cases h

theorem shrinks_action (roles : List Role) : Shrinks (action roles) :=
  (shrinks_declaredRole roles).bind fun _ =>
    (shrinks_takeAs _ _).keeps.bind fun _ =>
      (shrinks_declaredRole roles).keeps.bind fun _ =>
        (shrinks_takeAs _ _).keeps.bind fun _ =>
          shrinks_name.keeps.bind fun _ =>
            (shrinks_takeAs _ _).keeps.bind fun _ =>
              (keeps_paramsAfter _ _ _).bind fun _ =>
                (shrinks_takeAs _ _).keeps.bind fun _ => keeps_pure _

def actionsUntilClose (roles : List Role) (ts : List Token) :
    EStateM.Result Fault (List Token) (List Action) :=
  match ts with
  | [] => .error (.inputEnds .actionOrClose) []
  | t :: ts =>
    if t.kind = .closeBrace then .ok [] ts
    else
      match h : action roles (t :: ts) with
      | .error e us => .error e us
      | .ok a us =>
        have := shrinks_action roles _ _ _ h
        match actionsUntilClose roles us with
        | .error e vs => .error e vs
        | .ok as vs => .ok (a :: as) vs
termination_by ts.length
decreasing_by exact this

def finish : Reading Unit := do
  skipNewlines
  fun ts => match ts with
    | [] => .ok () []
    | t :: ts => .error (.unexpected .endOfInput t.text t.line) (t :: ts)

def declaration : Reading Protocol := do
  let n ← name
  take .openBrace
  optional .newline
  let rs ← roles
  let ps ← parameters n
  let as ← actionsUntilClose rs
  return ⟨n, rs, ps, as⟩

def protocol : Reading Protocol := do
  skipNewlines
  let p ← declaration
  finish
  return p

end InfoProtocol.Grammar

namespace InfoProtocol

def Protocol.ofTokens (table : List Token) : Except Grammar.Failure Protocol :=
  let ts := Token.withoutLayout table
  match Grammar.protocol ts with
  | .ok p _ => .ok p
  | .error cause us => .error ⟨cause, Grammar.words (ts.take (ts.length - us.length))⟩

end InfoProtocol
