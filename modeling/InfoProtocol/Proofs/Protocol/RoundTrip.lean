import InfoProtocol.Proofs.Grammar.Acceptance
import InfoProtocol.Proofs.Grammar.Written
import InfoProtocol.Proofs.Protocol.Legible
import InfoProtocol.Source

/-!
# Reading back what was written

The written form of a legible protocol spells it. Whatever is read from a source under a lexicon
that keeps its comment mark apart from delimiters is legible and well formed, and stays so in
canonical order; so its written form, and that of its canonical order, are read back as they were.
-/

namespace InfoProtocol

open Grammar Lexeme Lexicon

variable {x : Lexicon}

theorem Parameter.render_of_scope {n : String} {s : Scope} {k : Bool} (hs : s ≠ .nil) :
    Parameter.render ⟨n, s, k⟩ = s.word ++ " " ++ Parameter.render ⟨n, .nil, k⟩ := by
  cases s with
  | nil => exact absurd rfl hs
  | input => simp [Parameter.render, String.append_assoc]
  | output => simp [Parameter.render, String.append_assoc]

theorem Parameter.Legible.writes (hx : x.Orderly) {q : Parameter} (h : q.Legible x) :
    ∃ gs, Group gs q ∧ Writes x q.render gs := by
  obtain ⟨n, s, k⟩ := q
  have hname : Writes x n [.word n] := writes_word hx h.name
  have hscope : s ≠ .nil → Writes x s.word [.word s.word] :=
    fun hs => writes_word hx (h.scope hs)
  cases k with
  | false =>
    have hbare : Writes x (Parameter.render ⟨n, .nil, false⟩) [.word n] := by
      simpa [Parameter.render] using hname
    by_cases hs : s = .nil
    · subst hs
      exact ⟨_, .bare n, hbare⟩
    · rw [Parameter.render_of_scope hs]
      exact ⟨_, .inScope s n, (hscope hs).space hx hbare⟩
  | true =>
    have hkey : Writes x (Parameter.render ⟨n, .nil, true⟩) [.word n, .word "key"] := by
      have hmark := hname.space hx (writes_word hx (h.key rfl))
      simpa [Parameter.render, String.append_assoc] using hmark
    by_cases hs : s = .nil
    · subst hs
      exact ⟨_, .key n, hkey⟩
    · rw [Parameter.render_of_scope hs]
      exact ⟨_, .inScopeKey s n, (hscope hs).space hx hkey⟩

theorem Parameters.Legible.writes (hx : x.Orderly) {ps : List Parameter}
    (h : Parameters.Legible x ps) :
    ∃ gs, Commas Group gs ps ∧ Writes x (Parameters.render ps) gs :=
  writes_commas hx h.nonempty fun q hq => (h.each q hq).writes hx

theorem Action.Legible.writes (hx : x.Orderly) {a : Action} (h : a.Legible x) :
    ∃ gs, Commas Group gs a.params ∧ Writes x a.render ([.word a.sender, .mark .arrow,
      .word a.receiver, .mark .colon, .word a.name, .mark .openBracket] ++ gs ++
        [.mark .closeBracket]) := by
  obtain ⟨gs, hgs, hps⟩ := h.params.writes hx
  refine ⟨gs, hgs, fun b s hs _ hnext => ?_⟩
  have htext : a.render.toList ++ s =
      a.sender.toList ++ ' ' :: (TokenKind.arrow.label.toList ++
        ' ' :: (a.receiver.toList ++ (TokenKind.colon.label.toList ++ ' ' :: (a.name.toList ++
        (TokenKind.openBracket.label.toList ++ ((Parameters.render a.params).toList ++
        (TokenKind.closeBracket.label.toList ++ s))))))) := by
    simp [Action.render, TokenKind.label]
  rw [htext]
  simp only [List.append_assoc, List.cons_append, List.nil_append]
  have hspace : ∀ r, Delimited (' ' :: r) := fun _ => delimited_cons.2 (by decide)
  apply Shows.word hx h.sender (hspace _)
  apply Shows.space hx
  apply Shows.mark hx (by decide)
  apply Shows.space hx
  apply Shows.word hx h.receiver (delimited_mark (by decide))
  apply Shows.mark hx (by decide)
  apply Shows.space hx
  apply Shows.word hx h.name (delimited_mark (by decide))
  apply Shows.mark hx (by decide)
  apply hps false _ _ (delimited_mark (by decide))
  exact hnext.mark hx (by decide)

theorem Action.Legible.shows (hx : x.Orderly) {a : Action} (h : a.Legible x) :
    ∃ gs, Line gs a ∧ ∀ b s hs, Shows x true s hs →
      Shows x b (("  " ++ a.render ++ "\n").toList ++ s) (gs ++ hs) := by
  obtain ⟨gs, hgs, ha⟩ := h.writes hx
  refine ⟨_, .intro a.sender a.receiver a.name hgs, fun b s hs hnext => ?_⟩
  have htext : ("  " ++ a.render ++ "\n").toList ++ s =
      ' ' :: ' ' :: (a.render.toList ++ '\n' :: s) := by
    simp
  have hline := ((ha b _ _ (delimited_cons.2 (by decide)) (hnext.newline hx)).space hx).space hx
  rw [htext]
  simpa using hline

theorem Actions.Legible.shows (hx : x.Orderly) {as : List Action} (h : ∀ a ∈ as, a.Legible x)
    {s : List Char} {hs : List Sign} (hnext : Shows x true s hs) :
    ∃ gs, Lines gs as ∧
      Shows x true ((String.join (as.map fun a => "  " ++ a.render ++ "\n")).toList ++ s)
        (gs ++ hs) := by
  induction as with
  | nil => exact ⟨[], .nil, by simpa using hnext⟩
  | cons a as ih =>
    obtain ⟨ha, has⟩ := List.forall_mem_cons.1 h
    obtain ⟨gs, hgs, hline⟩ := ha.shows hx
    obtain ⟨ks, hks, hrest⟩ := ih has
    refine ⟨gs ++ ks, .cons hgs hks, ?_⟩
    rw [List.map_cons, String.join_cons, String.toList_append, List.append_assoc,
      List.append_assoc]
    exact hline true _ _ hrest

namespace Protocol

variable {p : Protocol}

def heading (p : Protocol) : String :=
  p.name ++ " \x7b\n  role " ++ ", ".intercalate p.roles ++
    "\n  parameter " ++ Parameters.render p.params ++ "\n"

theorem Legible.shows_heading (hx : x.Orderly) (h : p.Legible x) :
    ∃ gs, Heading gs p ∧ ∀ s hs, Shows x true s hs →
      Shows x false (p.heading.toList ++ s) (gs ++ hs) := by
  have hrole : ∀ r ∈ p.roles, ∃ gs, RoleName gs r ∧ Writes x (id r) gs :=
    fun r hr => ⟨_, .intro r, writes_word hx (h.roles r hr)⟩
  obtain ⟨rs, hrs, hroles⟩ := writes_commas hx h.roles_nonempty hrole
  obtain ⟨gs, hgs, hparams⟩ := h.params.writes hx
  refine ⟨_, .intro .one hrs hgs, fun s hs hnext => ?_⟩
  have htext : p.heading.toList ++ s = p.name.toList ++ ' ' ::
      (TokenKind.openBrace.label.toList ++ '\n' :: ' ' :: ' ' :: ("role".toList ++
      ' ' :: ((", ".intercalate (p.roles.map id)).toList ++ '\n' :: ' ' :: ' ' ::
      ("parameter".toList ++ ' ' :: ((Parameters.render p.params).toList ++ '\n' :: s))))) := by
    simp [heading, TokenKind.label]
  rw [htext]
  simp only [List.append_assoc, List.cons_append, List.nil_append]
  have hspace : ∀ r, Delimited (' ' :: r) := fun _ => delimited_cons.2 (by decide)
  have hnewline : ∀ r, Delimited ('\n' :: r) := fun _ => delimited_cons.2 (by decide)
  apply Shows.word hx h.name (hspace _)
  apply Shows.space hx
  apply Shows.mark hx (by decide)
  apply Shows.newline hx
  apply Shows.space hx
  apply Shows.space hx
  apply Shows.word hx h.role_word (hspace _)
  apply Shows.space hx
  apply hroles false _ _ (hnewline _)
  apply Shows.newline hx
  apply Shows.space hx
  apply Shows.space hx
  apply Shows.word hx h.parameter_word (hspace _)
  apply Shows.space hx
  apply hparams false _ _ (hnewline _)
  exact hnext.newline hx

theorem shows_closing (hx : x.Orderly) {b : Bool} :
    Shows x b ['\x7d', '\n'] [.mark .closeBrace, .mark .newline] :=
  Shows.mark hx (k := .closeBrace) (by decide) (shows_nil.newline hx)

theorem Legible.shows (hx : x.Orderly) (h : p.Legible x) :
    ∃ gs, Spelling gs p ∧ Shows x false p.render.toList gs := by
  obtain ⟨gs, hgs, hheading⟩ := h.shows_heading hx
  obtain ⟨ls, hls, hactions⟩ := Actions.Legible.shows hx h.actions (shows_closing hx)
  refine ⟨gs ++ (ls ++ [.mark .closeBrace, .mark .newline]), ?_, ?_⟩
  · simpa using Spelling.intro .none (hgs.declaration hls) .one
  · have htext : p.render.toList = p.heading.toList ++ '\n' ::
        ((String.join (p.actions.map fun a => "  " ++ a.render ++ "\n")).toList ++
        ['\x7d', '\n']) := by
      simp [Protocol.render, heading]
    rw [htext]
    exact hheading _ _ (hactions.newline_again hx)

theorem read_iff_shows {source : String} : read x source = .ok p ↔
    ∃ gs, Shows x false source.toList gs ∧ Spelling gs p ∧ p.WellFormed := by
  simp only [read_eq_ok, shows_iff_scan]
  constructor
  · intro h
    obtain ⟨ts, hts, hp⟩ := h
    exact ⟨_, ⟨ts, hts, rfl⟩, spelling_of_ofTokens hp⟩
  · intro h
    obtain ⟨_, ⟨ts, hts, rfl⟩, hs, hp⟩ := h
    exact ⟨ts, hts, ofTokens_of_spelling hs hp⟩

theorem Legible.read_render (hx : x.Orderly) (h : p.Legible x) (hp : p.WellFormed) :
    read x p.render = .ok p := by
  obtain ⟨gs, hgs, hshows⟩ := h.shows hx
  exact read_iff_shows.2 ⟨gs, hshows, hgs, hp⟩

theorem legible_of_occurs {y : Lexicon} (hy : ∀ w, x.Occurs w → y.IsWord w) {source : String}
    (h : read x source = .ok p) : p.Legible y ∧ p.WellFormed := by
  obtain ⟨ts, hts, hp⟩ := read_eq_ok.1 h
  obtain ⟨hs, hwf⟩ := spelling_of_ofTokens hp
  refine ⟨hs.legible fun w hw => hy w ?_, hwf⟩
  obtain ⟨t, ht, hsign⟩ := List.mem_map.1 hw
  obtain ⟨hk, rfl⟩ := Token.sign_eq_word.1 hsign
  exact Token.scan_occurs hts t ((Token.withoutLayout_sublist ts).subset ht) hk

theorem legible_of_read (hm : x.MarkApart) {source : String} (h : read x source = .ok p) :
    p.Legible x ∧ p.WellFormed :=
  legible_of_occurs (fun _ => hm.isWord) h

/-- Reading undoes writing, for what was read and for its canonical order. -/
theorem read_render_of_read (hx : x.Acceptable) (hm : x.MarkApart) {source : String}
    (h : read x source = .ok p) :
    read x p.render = .ok p ∧ read x p.canonical.render = .ok p.canonical := by
  have ho := hm.orderly hx
  obtain ⟨hl, hwf⟩ := legible_of_read hm h
  exact ⟨hl.read_render ho hwf, hl.canonical.read_render ho hwf.canonical⟩

theorem read_render_of_offer :
    let source :=
      "Offer\x7brole S,B\nparameter nil item,out id key\nS->B:quote[item,out id key]# sold\n\x7d"
    let id : Parameter := ⟨"id", .output, true⟩
    let item : Parameter := ⟨"item", .nil, false⟩
    let p : Protocol := ⟨"Offer", ["S", "B"], [item, id], [⟨"quote", "S", "B", [item, id]⟩]⟩
    read .default source = .ok p ∧ read .default p.render = .ok p ∧
      read .default p.canonical.render = .ok p.canonical := by
  intro source id item p
  have hmark : MarkApart .default := by
    intro m hm c hc
    cases hm
    obtain rfl : c = '#' := by simpa using hc
    decide
  have hread : read .default source = .ok p := by decide +kernel
  exact ⟨hread, read_render_of_read acceptable_default hmark hread⟩

end Protocol

end InfoProtocol
