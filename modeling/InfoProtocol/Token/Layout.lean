import InfoProtocol.Token

/-!
# Tokens without layout

The grammar ends its statements by newlines and is otherwise blind to layout. Taking the layout
off a list of tokens drops the blanks and, of newlines that only blanks separate, keeps the
first. All other tokens stay as they are, in their order.
-/

namespace InfoProtocol.Token

/-- Drops layout; `afterNewline` says whether the last token kept is a newline. -/
def dropLayout (afterNewline : Bool) : List Token → List Token
  | [] => []
  | t :: ts =>
    if t.kind = .blank then dropLayout afterNewline ts
    else if t.kind = .newline then
      if afterNewline then dropLayout true ts else t :: dropLayout true ts
    else t :: dropLayout false ts

def withoutLayout (ts : List Token) : List Token := dropLayout false ts

theorem dropLayout_sublist (b : Bool) (ts : List Token) : (dropLayout b ts).Sublist ts := by
  induction ts generalizing b with
  | nil => exact .slnil
  | cons t ts ih =>
    simp only [dropLayout]
    split
    · exact (ih b).cons t
    · split
      · split
        · exact (ih true).cons t
        · exact (ih true).cons_cons t
      · exact (ih false).cons_cons t

theorem dropLayout_no_blank (b : Bool) (ts : List Token) :
    ∀ t ∈ dropLayout b ts, t.kind ≠ .blank := by
  induction ts generalizing b with
  | nil => simp [dropLayout]
  | cons t ts ih =>
    simp only [dropLayout]
    split
    · exact ih b
    · next hb =>
      split
      · split
        · exact ih true
        · exact List.forall_mem_cons.2 ⟨hb, ih true⟩
      · exact List.forall_mem_cons.2 ⟨hb, ih false⟩

theorem withoutLayout_sublist (ts : List Token) : (withoutLayout ts).Sublist ts :=
  dropLayout_sublist false ts

end InfoProtocol.Token
