import InfoProtocol.Proofs.Grammar.Passage
import InfoProtocol.Proofs.Protocol.Layout
import InfoProtocol.Proofs.Transport.ActionLine

/-!
# What can be set into the shell

Any text at all may be set between the lines of the shell. Since lines are split on their own, the
text shows there what it shows alone, between the heading of the shell and its closing brace. So it
is read if it is a passage of actions between the shell's roles, and the first of them is the
answer. A text that shows a brace would have to close the shell, and is never read.
-/

namespace InfoProtocol

open Grammar Lexicon

variable {x : Lexicon}

instance decidableExistsOk {ε α : Type} {P : α → Prop} [DecidablePred P] (e : Except ε α) :
    Decidable (∃ a, e = .ok a ∧ P a) :=
  match e with
  | .error _ => isFalse nofun
  | .ok a => decidable_of_iff (P a) (by simp)

theorem Text.getLast?_trim (s : String) : (Text.trim s).toList.getLast? ≠ some '\r' := by
  intro h
  rw [Text.trim, String.toList_ofList] at h
  obtain ⟨t, ht⟩ := List.getLast?_eq_some_iff.1 h
  have hblank := Text.trimEnd_last ht
  exact absurd hblank (by decide)

theorem Text.head?_trim (s : String) : ∀ c ∈ (Text.trim s).toList.head?, Text.isBlank c = false := by
  intro c hc
  rw [Text.trim, String.toList_ofList] at hc
  obtain ⟨t, ht⟩ := List.head?_eq_some_iff.1 hc
  have hpre : Text.trimEnd (Text.trimStart s.toList) <+: Text.trimStart s.toList := by
    rw [Text.trimEnd, ← List.reverse_suffix, List.reverse_reverse]
    exact List.dropWhile_suffix _
  obtain ⟨u, hu⟩ := ht ▸ hpre
  exact Text.trimStart_head hu.symm

namespace ActionLine

def shownSender : List Sign → Role
  | .word w :: _ => w
  | _ => "A"

def shownReceiver : List Sign → Role
  | _ :: .mark .arrow :: .word w :: _ => w
  | _ => "B"

def shownRoles (gs : List Sign) : List Role := [shownSender gs, shownReceiver gs]

/-- The signs are a passage of actions whose roles are those shown at its front. -/
structure Holds (gs : List Sign) (as : List Action) : Prop where
  passage : Passage gs as
  free : ∀ r ∈ shownRoles gs, Free r
  declared : ∀ a ∈ as, ActionDeclared (shownRoles gs) a

variable {line : String} {ts : List Token} {r : Role}

theorem senderOf_eq (ts : List Token) : senderOf ts = shownSender (ts.map Token.sign) := by
  cases ts with
  | nil => rfl
  | cons t ts =>
    rw [senderOf, wordOr, List.map_cons]
    by_cases ht : t.kind = .word
    · rw [if_pos ht, Token.sign_eq_word.2 ⟨ht, rfl⟩, shownSender]
    · rw [if_neg ht, (Token.sign_eq_mark ht).2 rfl, shownSender]
      simp

theorem receiverOf_eq (ts : List Token) : receiverOf ts = shownReceiver (ts.map Token.sign) := by
  unfold shownReceiver
  split
  · next h =>
    simp only [List.map_eq_cons_iff] at h
    obtain ⟨t, us, rfl, -, u, vs, rfl, hu, v, ws, rfl, hv, -⟩ := h
    obtain ⟨hkind, htext⟩ := Token.sign_eq_word.1 hv
    simp [receiverOf, wordOr, (Token.sign_eq_mark (by decide)).1 hu, hkind, htext]
  · next hnone =>
    unfold receiverOf
    split
    · next t u v vs =>
      split
      · next hu =>
        rw [wordOr, if_neg]
        intro hv
        refine hnone t.sign v.text (vs.map Token.sign) ?_
        simp only [List.map_cons, (Token.sign_eq_mark (by decide)).2 hu,
          Token.sign_eq_word.2 ⟨hv, rfl⟩]
      · rfl
    · rfl

theorem mem_shellRoles (h : Token.scan x line = .ok ts) :
    r ∈ shellRoles x line ↔ r ∈ shownRoles ((Token.withoutLayout ts).map Token.sign) := by
  simp only [shellRoles, h, shownRoles, ← senderOf_eq, ← receiverOf_eq]
  split
  · next he => simp [← he]
  · rfl

theorem shellRoles_nodup : (shellRoles x line).Nodup := by
  unfold shellRoles
  split
  · decide
  · dsimp only
    split
    · simp
    · next h => simpa using h

theorem shellRoles_ne_nil : shellRoles x line ≠ [] := by
  unfold shellRoles
  split
  · simp
  · dsimp only
    split <;> simp

theorem shownRoles_cases {gs : List Sign} (hr : r ∈ shownRoles gs) :
    r = "A" ∨ r = "B" ∨ .word r ∈ gs := by
  simp only [shownRoles, List.mem_cons, List.not_mem_nil, or_false] at hr
  rcases hr with rfl | rfl
  · unfold shownSender
    split <;> simp
  · unfold shownReceiver
    split <;> simp

theorem isWord_shellRoles (hx : x.Acceptable) (hm : x.MarkStandsOut) (line : String) :
    ∀ r ∈ shellRoles x line, x.IsWord r := by
  intro r hr
  have hA : x.IsWord "A" := hm.isWord_alphanum hx (by decide) (by decide)
  have hB : x.IsWord "B" := hm.isWord_alphanum hx (by decide) (by decide)
  cases hscan : Token.scan x line with
  | error e =>
    simp only [shellRoles, hscan, List.mem_cons, List.not_mem_nil, or_false] at hr
    rcases hr with rfl | rfl
    · exact hA
    · exact hB
  | ok ts =>
    rcases shownRoles_cases ((mem_shellRoles hscan).1 hr) with rfl | rfl | hword
    · exact hA
    · exact hB
    · obtain ⟨t, ht, hsign⟩ := List.mem_map.1 hword
      obtain ⟨hk, rfl⟩ := Token.sign_eq_word.1 hsign
      have hocc := Token.scan_occurs hscan t ((Token.withoutLayout_sublist ts).subset ht) hk
      exact hm.isWord hx hocc.nonempty hocc.chars

theorem Holds.not_brace {as : List Action}
    (h : Holds ((Token.withoutLayout ts).map Token.sign) as) {t : Token} (ht : t ∈ ts) :
    ¬ (t.kind = .openBrace ∨ t.kind = .closeBrace) := by
  intro hkind
  have hsign : IsBrace t.sign := by
    rcases hkind with hk | hk
    · exact .inl ((Token.sign_eq_mark (by decide)).2 hk)
    · exact .inr ((Token.sign_eq_mark (by decide)).2 hk)
  have hlayout : ¬ t.IsLayout := by rcases hkind with hk | hk <;> simp [Token.IsLayout, hk]
  exact h.passage.brace_notMem hsign (List.mem_map_of_mem (Token.mem_withoutLayout ht hlayout))

def shellHead (x : Lexicon) (line : String) : Protocol := shellOf (shellRoles x line) []

theorem shellHead_legible (hx : x.Acceptable) (hm : x.MarkStandsOut) (line : String) :
    (shellHead x line).Legible x :=
  shellOf_legible hx hm shellRoles_ne_nil (isWord_shellRoles hx hm line) nofun

theorem toList_shell : (shell x line).toList =
    (shellHead x line).heading.toList ++ '\n' :: ' ' :: ' ' :: (line.toList ++
      '\n' :: ['\x7d', '\n']) := by
  simp [shell, shellHead, shellOf, Protocol.heading, Parameters.render, Parameter.render,
    Scope.word]

theorem getLast?_heading (p : Protocol) : p.heading.toList.getLast? ≠ some '\r' := by
  have hlast : "\n".toList = ['\n'] := by decide
  rw [Protocol.heading, String.toList_append, hlast, List.getLast?_concat]
  decide

theorem shows_shell (hx : x.Acceptable) (hm : x.MarkStandsOut) (hin : x.MarkInLine)
    (hline : line.toList.getLast? ≠ some '\r') :
    ∃ hs, Heading hs (shellHead x line) ∧ ∀ ks, Shows x false (shell x line).toList ks ↔
      ∃ gs, Shows x true line.toList gs ∧
        ks = hs ++ endLine true gs ++ .mark .closeBrace :: [.mark .newline] := by
  have ho := hm.orderly hx
  obtain ⟨hs, hhead, hheading⟩ := (shellHead_legible hx hm line).shows_heading ho
  have hshown : Shows x false (shellHead x line).heading.toList hs := by
    simpa using hheading [] [] shows_nil
  have hended : endLine false hs = hs := by
    obtain ⟨hb, hr, hp⟩ := hhead
    rw [endLine, List.getLast?_concat, if_pos (.inl rfl)]
  refine ⟨hs, hhead, fun ks => ?_⟩
  rw [toList_shell, shows_lineFeed hx hin (getLast?_heading _)]
  simp only [shows_space ho, shows_lineFeed hx hin hline]
  constructor
  · intro h
    obtain ⟨hs', _, hhs', ⟨gs, us, hgs, hus, rfl⟩, rfl⟩ := h
    obtain rfl := hshown.unique hhs'
    obtain rfl := (Protocol.shows_closing ho).unique hus
    exact ⟨gs, hgs, by rw [hended, List.append_assoc]⟩
  · intro h
    obtain ⟨gs, hgs, rfl⟩ := h
    exact ⟨hs, _, hshown, ⟨gs, _, hgs, Protocol.shows_closing ho, rfl⟩,
      by rw [hended, List.append_assoc]⟩

theorem lines_iff_passage {as : List Action} (has : as ≠ []) :
    Lines (endLine true ((Token.dropLayout true ts).map Token.sign)) as ↔
      Passage ((Token.withoutLayout ts).map Token.sign) as := by
  obtain ⟨bs, hbs, hb⟩ := Token.exists_break ts
  rw [Token.withoutLayout, hbs, List.map_append]
  exact lines_endLine hb (Token.unbroken_dropLayout ts) has true

theorem read_shell (hx : x.Acceptable) (hm : x.MarkStandsOut) (hin : x.MarkInLine)
    (hline : line.toList.getLast? ≠ some '\r') {p : Protocol} :
    Protocol.read x (shell x line) = .ok p ↔
      ∃ gs, Shows x true line.toList gs ∧ Lines (endLine true gs) p.actions ∧
        p = shellOf (shellRoles x line) p.actions ∧ p.WellFormed := by
  obtain ⟨hs, hhead, hshell⟩ := shows_shell hx hm hin hline
  have hfree : FreeNames ["C"] := by decide
  rw [Protocol.read_iff_shows]
  constructor
  · intro h
    obtain ⟨ks, hks, hspell, hwf⟩ := h
    obtain ⟨gs, hgs, rfl⟩ := (hshell ks).1 hks
    obtain ⟨hp, hlines⟩ := (spelling_iff_lines hhead .one).1 hspell
    exact ⟨gs, hgs, hlines, (hhead.heading_iff hfree hwf.params).1 hp, hwf⟩
  · intro h
    obtain ⟨gs, hgs, hlines, hp, hwf⟩ := h
    have hheading := (hhead.heading_iff hfree hwf.params).2 hp
    have hspell := (spelling_iff_lines hhead .one).2 ⟨hheading, hlines⟩
    exact ⟨_, (hshell _).2 ⟨gs, hgs, rfl⟩, hspell, hwf⟩

theorem wellFormed_shell (h : Token.scan x line = .ok ts) {as : List Action} :
    (shellOf (shellRoles x line) as).WellFormed ↔
      (∀ r ∈ shownRoles ((Token.withoutLayout ts).map Token.sign), Free r) ∧
        ∀ a ∈ as, ActionDeclared (shownRoles ((Token.withoutLayout ts).map Token.sign)) a := by
  rw [shellOf_wellFormed]
  constructor
  · intro hwf
    obtain ⟨hroles, hactions⟩ := hwf
    refine ⟨fun r hr => hroles.free r ((mem_shellRoles h).2 hr), fun a ha => ?_⟩
    exact (hactions a ha).mono fun r => (mem_shellRoles h).1
  · intro hroles
    obtain ⟨hfree, hactions⟩ := hroles
    refine ⟨⟨fun r hr => hfree r ((mem_shellRoles h).1 hr), shellRoles_nodup⟩, fun a ha => ?_⟩
    exact (hactions a ha).mono fun r => (mem_shellRoles h).2

end ActionLine

namespace Action

open ActionLine

variable {text : String} {a : Action}

theorem read_eq_ok : read x text = .ok a ↔
    ∃ p as, Protocol.read x (shell x (Text.trim text)) = .ok p ∧ p.actions = a :: as := by
  unfold read
  split
  · next e he => simp [he]
  · next p hp =>
    split
    · next hnil => simp [hp, hnil]
    · next hcons => simp [hp, hcons]

theorem read_iff_holds (hx : x.Acceptable) (hm : x.MarkStandsOut) (hin : x.MarkInLine) :
    read x text = .ok a ↔ ∃ ts as, Token.scan x (Text.trim text) = .ok ts ∧
      Holds ((Token.withoutLayout ts).map Token.sign) (a :: as) := by
  rw [read_eq_ok]
  simp only [read_shell hx hm hin (Text.getLast?_trim text), shows_iff_scan]
  constructor
  · intro h
    obtain ⟨p, as, ⟨_, ⟨ts, hts, rfl⟩, hlines, hp, hwf⟩, hactions⟩ := h
    rw [hactions] at hlines hp
    rw [hp] at hwf
    obtain ⟨hfree, hdecl⟩ := (wellFormed_shell hts).1 hwf
    exact ⟨ts, as, hts, (lines_iff_passage (List.cons_ne_nil a as)).1 hlines, hfree, hdecl⟩
  · intro h
    obtain ⟨ts, as, hts, hholds⟩ := h
    have hlines := (lines_iff_passage (List.cons_ne_nil a as)).2 hholds.passage
    have hwf := (wellFormed_shell hts).2 ⟨hholds.free, hholds.declared⟩
    exact ⟨_, as, ⟨_, ⟨ts, hts, rfl⟩, hlines, rfl, hwf⟩, rfl⟩

/-- No text breaks out of the shell: what is read is the first of the actions that are all there is
to the text, and a text that shows a brace is refused. -/
theorem read_stays_in_shell (hx : x.Acceptable) (hm : x.MarkStandsOut)
    (hmark : ∀ m ∈ x.commentMark, '\n' ∉ m.toList) (text : String) :
    (∀ a, read x text = .ok a ↔ ∃ ts as, Token.scan x (Text.trim text) = .ok ts ∧
      Holds ((Token.withoutLayout ts).map Token.sign) (a :: as)) ∧
    ∀ ts, Token.scan x (Text.trim text) = .ok ts →
      (∃ t ∈ ts, t.kind = .openBrace ∨ t.kind = .closeBrace) → ∀ a, read x text ≠ .ok a := by
  have hread : ∀ a, read x text = .ok a ↔ ∃ ts as, Token.scan x (Text.trim text) = .ok ts ∧
      Holds ((Token.withoutLayout ts).map Token.sign) (a :: as) :=
    fun a => read_iff_holds hx hm (hm.markInLine hmark)
  refine ⟨hread, fun ts hts hbrace a ha => ?_⟩
  obtain ⟨t, ht, hkind⟩ := hbrace
  obtain ⟨us, as, hus, hholds⟩ := (hread a).1 ha
  obtain rfl : ts = us := Except.ok.inj (hts.symm.trans hus)
  exact hholds.not_brace ht hkind

/-- Two actions behind a comment, and a text that closes the shell and opens another. -/
theorem read_stays_in_shell_notes :
    let text := " #\nA->B:ask[id key]\n\nB->A:tell[id,out sum]#\n"
    let torn := "A->B:ask[id]\n\x7dX\x7b"
    let ask : Action := ⟨"ask", "A", "B", [⟨"id", .nil, true⟩]⟩
    let tell : Action := ⟨"tell", "B", "A", [⟨"id", .nil, false⟩, ⟨"sum", .output, false⟩]⟩
    Lexicon.default.Acceptable ∧ Lexicon.default.MarkStandsOut ∧
      (∀ m ∈ Lexicon.default.commentMark, '\n' ∉ m.toList) ∧
      (∃ ts, Token.scan .default (Text.trim text) = .ok ts ∧
        Holds ((Token.withoutLayout ts).map Token.sign) [ask, tell]) ∧
      read .default text = .ok ask ∧ ∀ a, read .default torn ≠ .ok a := by
  intro text torn ask tell
  have hmark : ∀ m ∈ Lexicon.default.commentMark, '\n' ∉ m.toList := by decide
  have hstays := read_stays_in_shell acceptable_default markStandsOut_default hmark
  obtain ⟨ts, hts, hsigns⟩ : ∃ ts, Token.scan .default (Text.trim text) = .ok ts ∧
      (Token.withoutLayout ts).map Token.sign = [.mark .newline,
        .word "A", .mark .arrow, .word "B", .mark .colon, .word "ask", .mark .openBracket,
        .word "id", .word "key", .mark .closeBracket, .mark .newline,
        .word "B", .mark .arrow, .word "A", .mark .colon, .word "tell", .mark .openBracket,
        .word "id", .mark .comma, .word "out", .word "sum", .mark .closeBracket] := by
    decide +kernel
  have hask : Entry _ ask := .intro "A" "B" "ask" (.one (.key "id"))
  have htell : Entry _ tell :=
    .intro "B" "A" "tell" (.more (.bare "id") (.one (.inScope .output "sum")))
  have hholds : Holds ((Token.withoutLayout ts).map Token.sign) [ask, tell] := by
    have hpassage : Passage _ [ask, tell] := .intro .one (.more hask (.one htell)) .none
    rw [hsigns]
    exact ⟨hpassage, by decide, by decide⟩
  obtain ⟨us, hus, hbrace⟩ : ∃ us, Token.scan .default (Text.trim torn) = .ok us ∧
      ∃ t ∈ us, t.kind = .openBrace ∨ t.kind = .closeBrace := by
    decide +kernel
  exact ⟨acceptable_default, markStandsOut_default, hmark, ⟨ts, hts, hholds⟩,
    ((hstays text).1 ask).2 ⟨ts, [tell], hts, hholds⟩, (hstays torn).2 us hus hbrace⟩

end Action

end InfoProtocol
