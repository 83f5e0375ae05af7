import InfoProtocol.Proofs.Grammar.Acceptance

/-!
# Where a newline may be left out

In the signs of a protocol a newline may stand or be left out in three places: before the name,
behind the opening brace and behind the closing brace. Neither brace stands anywhere else in a
protocol. So a brace that is found among the signs of a protocol is the one that opens or closes
it, and what stands behind it can be told apart into the newline, if any, and the rest.
-/

namespace InfoProtocol.Grammar

variable {α : Type} {bs cs gs hs fore aft : List Sign} {p : Protocol}

def Unbroken (gs : List Sign) : Prop := ∀ g ∈ gs.head?, g ≠ .mark .newline

theorem unbroken_of_word {w : String} (h : gs.head? = some (.word w)) : Unbroken gs := by
  intro g hg
  rw [h, Option.mem_some_iff] at hg
  rw [← hg]
  exact nofun

theorem not_unbroken_newline : ¬ Unbroken (.mark .newline :: gs) := fun h => h _ rfl rfl

theorem Break.append_inj (hb : Break bs) (hc : Break cs) (hg : Unbroken gs) (hh : Unbroken hs)
    (h : bs ++ gs = cs ++ hs) : bs = cs ∧ gs = hs := by
  cases hb with
  | none =>
    cases hc with
    | none => exact ⟨rfl, h⟩
    | one =>
      rw [List.nil_append] at h
      exact absurd (h ▸ hg) not_unbroken_newline
  | one =>
    cases hc with
    | none =>
      rw [List.nil_append] at h
      exact absurd (h ▸ hh) not_unbroken_newline
    | one => exact ⟨rfl, List.append_cancel_left h⟩

theorem Commas.notMem {R : Phrase α} {g : Sign} (hcomma : g ≠ .mark .comma)
    (hR : ∀ gs a, R gs a → g ∉ gs) {as : List α} (h : Commas R gs as) : g ∉ gs := by
  induction h with
  | one ha => exact hR _ _ ha
  | more ha _ ih => simp [hR _ _ ha, hcomma, ih]

def IsBrace (g : Sign) : Prop := g = .mark .openBrace ∨ g = .mark .closeBrace

theorem brace_notMem_break {g : Sign} (hg : IsBrace g) (h : Break bs) : g ∉ bs := by
  rcases hg with rfl | rfl <;> cases h <;> simp

theorem brace_notMem_roles {g : Sign} (hg : IsBrace g) {rs : List Role}
    (h : Commas RoleName gs rs) : g ∉ gs := by
  refine h.notMem ?_ fun hs r hr => ?_
  · rcases hg with rfl | rfl <;> decide
  · cases hr
    rcases hg with rfl | rfl <;> simp

theorem brace_notMem_groups {g : Sign} (hg : IsBrace g) {ps : List Parameter}
    (h : Commas Group gs ps) : g ∉ gs := by
  refine h.notMem ?_ fun hs q hq hmem => ?_
  · rcases hg with rfl | rfl <;> decide
  · obtain ⟨w, rfl⟩ := hq.words _ hmem
    rcases hg with h | h <;> cases h

theorem brace_notMem_lines {g : Sign} (hg : IsBrace g) {as : List Action} (h : Lines gs as) :
    g ∉ gs := by
  induction h with
  | nil => simp
  | cons ha _ ih =>
    obtain ⟨s, r, n, hps⟩ := ha
    have hgroups := brace_notMem_groups hg hps
    rcases hg with rfl | rfl <;> simp [hgroups, ih]

theorem Declaration.opened (h : Declaration gs p) : ∃ bs hs,
    gs = .word p.name :: .mark .openBrace :: (bs ++ hs) ∧ Break bs ∧
      (∀ es, Unbroken (hs ++ es)) ∧ .mark .openBrace ∉ hs ∧
      ∀ cs, Break cs → Declaration (.word p.name :: .mark .openBrace :: (cs ++ hs)) p := by
  have hbrace : IsBrace (.mark .openBrace) := .inl rfl
  obtain ⟨n, hb, hr, hp, ha⟩ := h
  refine ⟨_, _, by simp only [List.append_assoc]; rfl, hb,
    fun _ => unbroken_of_word rfl, ?_, fun cs hc => ?_⟩
  · simp [brace_notMem_roles hbrace hr, brace_notMem_groups hbrace hp, brace_notMem_lines hbrace ha]
  · simpa using Declaration.intro n hc hr hp ha

theorem Declaration.closed (h : Declaration gs p) : ∃ hs,
    gs = hs ++ [.mark .closeBrace] ∧ .mark .closeBrace ∉ hs := by
  have hbrace : IsBrace (.mark .closeBrace) := .inr rfl
  obtain ⟨n, hb, hr, hp, ha⟩ := h
  refine ⟨_, rfl, ?_⟩
  simp [brace_notMem_break hbrace hb, brace_notMem_roles hbrace hr, brace_notMem_groups hbrace hp,
    brace_notMem_lines hbrace ha]

theorem Declaration.unbroken_append (h : Declaration gs p) (hs : List Sign) :
    Unbroken (gs ++ hs) := by
  have hhead := h.head
  cases gs with
  | nil => cases hhead
  | cons g gs => exact unbroken_of_word hhead

theorem Spelling.start (h : Spelling (bs ++ gs) p) (hb : Break bs) (hg : Unbroken gs)
    (hc : Break cs) : Spelling (cs ++ gs) p := by
  generalize hws : bs ++ gs = ws at h
  obtain ⟨ha, hd, he⟩ := h
  rw [List.append_assoc] at hws
  obtain ⟨-, rfl⟩ := hb.append_inj ha hg (hd.unbroken_append _) hws
  rw [← List.append_assoc]
  exact .intro hc hd he

theorem Spelling.behind_opening (h : Spelling (fore ++ .mark .openBrace :: (bs ++ gs)) p)
    (hb : Break bs) (hg : Unbroken gs) (hc : Break cs) :
    Spelling (fore ++ .mark .openBrace :: (cs ++ gs)) p := by
  have hbrace : IsBrace (.mark .openBrace) := .inl rfl
  generalize hws : fore ++ .mark .openBrace :: (bs ++ gs) = ws at h
  obtain @⟨as, ds, es, _, ha, hd, he⟩ := h
  obtain ⟨bs', hs, rfl, hb', hhs, hopen, hre⟩ := hd.opened
  have hsame : (as ++ [.word p.name]) ++ .mark .openBrace :: (bs' ++ (hs ++ es)) =
      fore ++ .mark .openBrace :: (bs ++ gs) := by
    simpa using hws.symm
  -- no other sign is an opening brace, so the two sides agree before and behind it
  obtain ⟨rfl, -, hbehind⟩ := (List.append_cons_inj_of_notMem
    (by simp [brace_notMem_break hbrace ha])
    (by simp [brace_notMem_break hbrace hb', hopen, brace_notMem_break hbrace he])).1 hsame
  obtain ⟨-, rfl⟩ := hb'.append_inj hb (hhs es) hg hbehind
  simpa using Spelling.intro ha (hre cs hc) he

theorem Spelling.behind_closing (h : Spelling (fore ++ .mark .closeBrace :: aft) p) :
    Break aft ∧ ∀ cs, Break cs → Spelling (fore ++ .mark .closeBrace :: cs) p := by
  have hbrace : IsBrace (.mark .closeBrace) := .inr rfl
  generalize hws : fore ++ .mark .closeBrace :: aft = ws at h
  obtain @⟨as, ds, es, _, ha, hd, he⟩ := h
  obtain ⟨hs, rfl, hclose⟩ := hd.closed
  have hsame : (as ++ hs) ++ .mark .closeBrace :: es = fore ++ .mark .closeBrace :: aft := by
    simpa using hws.symm
  obtain ⟨rfl, -, rfl⟩ := (List.append_cons_inj_of_notMem
    (by simp [brace_notMem_break hbrace ha, hclose]) (brace_notMem_break hbrace he)).1 hsame
  refine ⟨he, fun cs hc => ?_⟩
  simpa using Spelling.intro ha hd hc

end InfoProtocol.Grammar
