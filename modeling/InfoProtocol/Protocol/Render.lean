import InfoProtocol.Protocol

/-!
# Protocols as text

The written form of parameters, actions and whole protocols. A parameter is its scope word, its
name and the mark of a key; the scope word is left out when the scope is nil. The written form of
a protocol has one line for the roles, one for the parameters and, after an empty line, one for
each action.
-/

namespace InfoProtocol

def Parameter.render (p : Parameter) : String :=
  (match p.scope with
    | .nil => ""
    | s => s.word ++ " ") ++ p.name ++ (if p.isKey then " key" else "")

def Parameters.render (ps : List Parameter) : String :=
  ", ".intercalate (ps.map Parameter.render)

def Action.render (a : Action) : String :=
  a.sender ++ " -> " ++ a.receiver ++ ": " ++ a.name ++ "[" ++ Parameters.render a.params ++ "]"

def Protocol.render (p : Protocol) : String :=
  p.name ++ " \x7b\n  role " ++ ", ".intercalate p.roles ++
    "\n  parameter " ++ Parameters.render p.params ++ "\n\n" ++
    String.join (p.actions.map fun a => "  " ++ a.render ++ "\n") ++ "\x7d\n"

/-- The declared parameter whose written form is `text`: those of the actions come first, then
the protocol's own. -/
def Protocol.resolve (p : Protocol) (text : String) : Option Parameter :=
  (p.actions.flatMap (·.params) ++ p.params).find? fun q => q.render = text

theorem Protocol.resolve_render {p : Protocol} {text : String} {q : Parameter}
    (h : p.resolve text = some q) : q.render = text := by
  simpa using List.find?_some h

theorem Protocol.resolve_isSome {p : Protocol} {q : Parameter} (hq : q ∈ p.params) :
    (p.resolve q.render).isSome = true := by
  rw [resolve, List.find?_isSome]
  exact ⟨q, List.mem_append_right _ hq, by simp⟩

end InfoProtocol
