import InfoProtocol.Proofs.Grammar.Breaks
import InfoProtocol.Proofs.Grammar.Shown
import InfoProtocol.Proofs.Protocol.Unambiguous
import InfoProtocol.Proofs.Text.Separated

/-!
# Actions without their protocol

A passage is one action or several, separated by newlines, with a newline or none on either side.
Set behind the heading of a protocol and in front of a closing brace, its lines are the actions of
the protocol; and nothing else can be set there, since a heading ends where it does and the brace
is the only one behind it.
-/

namespace InfoProtocol.Grammar

variable {α : Type}

/-- An action without the end of its line. -/
inductive Entry : Phrase Action
  | intro {gs : List Sign} {ps : List Parameter} (s r : Role) (n : String)
      (hps : Commas Group gs ps) :
      Entry ([.word s, .mark .arrow, .word r, .mark .colon, .word n, .mark .openBracket] ++ gs ++
        [.mark .closeBracket]) ⟨n, s, r, ps⟩

inductive Entries : Phrase (List Action)
  | one {gs : List Sign} {a : Action} (ha : Entry gs a) : Entries gs [a]
  | more {gs hs : List Sign} {a : Action} {as : List Action} (ha : Entry gs a)
      (has : Entries hs as) : Entries (gs ++ .mark .newline :: hs) (a :: as)

inductive Passage : Phrase (List Action)
  | intro {bs gs cs : List Sign} {as : List Action} (hb : Break bs) (h : Entries gs as)
      (hc : Break cs) : Passage (bs ++ gs ++ cs) as

variable {bs cs gs hs ls ms : List Sign} {as : List Action} {a : Action} {p q : Protocol}

theorem line_iff_entry : Line gs a ↔ ∃ hs, gs = hs ++ [.mark .newline] ∧ Entry hs a := by
  constructor
  · intro h
    obtain ⟨s, r, n, hps⟩ := h
    exact ⟨_, by simp, .intro s r n hps⟩
  · intro h
    obtain ⟨_, rfl, s, r, n, hps⟩ := h
    simpa using Line.intro s r n hps

theorem Entries.lines (h : Entries gs as) : Lines (gs ++ [.mark .newline]) as := by
  induction h with
  | one ha =>
    have hline := line_iff_entry.2 ⟨_, rfl, ha⟩
    simpa using Lines.cons hline .nil
  | more ha _ ih =>
    have hline := line_iff_entry.2 ⟨_, rfl, ha⟩
    simpa using Lines.cons hline ih

theorem Lines.entries (h : Lines gs as) (has : as ≠ []) :
    ∃ hs, gs = hs ++ [.mark .newline] ∧ Entries hs as := by
  induction h with
  | nil => exact absurd rfl has
  | @cons gs hs a as ha hl ih =>
    obtain ⟨gs, rfl, hentry⟩ := line_iff_entry.1 ha
    cases as with
    | nil =>
      cases hl
      exact ⟨gs, by simp, .one hentry⟩
    | cons b bs =>
      obtain ⟨hs, rfl, hrest⟩ := ih (List.cons_ne_nil b bs)
      exact ⟨_, by simp, .more hentry hrest⟩

theorem Entries.head (h : Entries gs as) : ∃ w, gs.head? = some (.word w) := by
  cases h with
  | one ha =>
    obtain ⟨s, r, n, -⟩ := ha
    exact ⟨s, rfl⟩
  | more ha =>
    obtain ⟨s, r, n, -⟩ := ha
    exact ⟨s, rfl⟩

theorem Entries.getLast? (h : Entries gs as) : gs.getLast? = some (.mark .closeBracket) := by
  induction h with
  | one ha =>
    obtain ⟨s, r, n, -⟩ := ha
    exact List.getLast?_concat
  | @more _ hs _ _ _ _ ih => rw [List.getLast?_append, List.getLast?_cons, ih]; rfl

theorem passage_iff (hb : Break bs) (hg : Unbroken gs) :
    Passage (bs ++ gs) as ↔ ∃ hs cs, gs = hs ++ cs ∧ Entries hs as ∧ Break cs := by
  constructor
  · intro h
    generalize hws : bs ++ gs = ws at h
    obtain @⟨bs', hs, cs, _, hb', he, hc⟩ := h
    obtain ⟨w, hw⟩ := he.head
    have hunbroken : Unbroken (hs ++ cs) := by
      apply unbroken_of_word (w := w)
      rw [List.head?_append, hw]
      rfl
    rw [List.append_assoc] at hws
    obtain ⟨-, rfl⟩ := hb.append_inj hb' hg hunbroken hws
    exact ⟨hs, cs, rfl, he, hc⟩
  · intro h
    obtain ⟨hs, cs, rfl, he, hc⟩ := h
    rw [← List.append_assoc]
    exact .intro hb he hc

theorem endLine_cases (b : Bool) (gs : List Sign) :
    endLine b gs = gs ∨ endLine b gs = gs ++ [.mark .newline] := by
  rw [endLine]
  split
  · exact .inl rfl
  · exact .inr rfl

theorem Entries.endLine_eq (h : Entries hs as) (hc : Break cs) (b : Bool) :
    endLine b (hs ++ cs) = hs ++ [.mark .newline] := by
  have hlast := h.getLast?
  have hne : hs ≠ [] := by
    rintro rfl
    cases hlast
  cases hc with
  | none => simp [endLine, hlast, hne]
  | one => simp [endLine]

theorem lines_endLine (hb : Break bs) (hg : Unbroken gs) (has : as ≠ []) (b : Bool) :
    Lines (endLine b gs) as ↔ Passage (bs ++ gs) as := by
  rw [passage_iff hb hg]
  constructor
  · intro h
    obtain ⟨hs, he, hentries⟩ := h.entries has
    rcases endLine_cases b gs with hgs | hgs
    · rw [hgs] at he
      exact ⟨hs, _, he, hentries, .one⟩
    · rw [hgs] at he
      exact ⟨hs, [], by simpa using he, hentries, .none⟩
  · intro h
    obtain ⟨hs, cs, rfl, he, hc⟩ := h
    rw [he.endLine_eq hc]
    exact he.lines

theorem Passage.brace_notMem {g : Sign} (hg : IsBrace g) (h : Passage gs as) : g ∉ gs := by
  obtain ⟨hb, he, hc⟩ := h
  have hlines := brace_notMem_lines hg he.lines
  simp only [List.mem_append, not_or] at hlines ⊢
  exact ⟨⟨brace_notMem_break hg hb, hlines.1⟩, brace_notMem_break hg hc⟩

theorem append_cons_inj {g : Sign} (hg : g ∉ gs) (hh : g ∉ hs)
    (h : gs ++ g :: ls = hs ++ g :: ms) : gs = hs ∧ ls = ms := by
  apply Text.append_cons_inj ?_ h
  rw [List.count_eq_zero.2 hg, List.count_eq_zero.2 hh]

theorem Commas.unique {R : Phrase α} {P : α → Prop}
    (hR : ∀ gs a b, R gs a → R gs b → P a → P b → a = b)
    (hcomma : ∀ gs a, R gs a → .mark .comma ∉ gs) {as bs : List α} (ha : Commas R gs as)
    (hb : Commas R gs bs) (hPa : ∀ a ∈ as, P a) (hPb : ∀ b ∈ bs, P b) : as = bs := by
  induction ha generalizing bs with
  | @one gs a ha =>
    cases hb with
    | one hb => rw [hR _ _ _ ha hb (hPa a (by simp)) (hPb _ (by simp))]
    | more hb _ => exact absurd (by simp) (hcomma _ _ ha)
  | @more gs hs a as ha has ih =>
    generalize hws : gs ++ .mark .comma :: hs = ws at hb
    cases hb with
    | one hb =>
      subst hws
      exact absurd (by simp) (hcomma _ _ hb)
    | more hb hbs =>
      obtain ⟨rfl, rfl⟩ := append_cons_inj (hcomma _ _ ha) (hcomma _ _ hb) hws
      obtain ⟨hPa, hPas⟩ := List.forall_mem_cons.1 hPa
      obtain ⟨hPb, hPbs⟩ := List.forall_mem_cons.1 hPb
      rw [hR _ _ _ ha hb hPa hPb, ih hbs hPas hPbs]

theorem RoleName.mark_notMem {r : Role} (h : RoleName gs r) (k : TokenKind) : .mark k ∉ gs := by
  cases h
  simp

theorem Group.mark_notMem {r : Parameter} (h : Group gs r) (k : TokenKind) : .mark k ∉ gs := by
  intro hk
  obtain ⟨w, hw⟩ := h.words _ hk
  cases hw

theorem roles_unique {rs ss : List Role} (hr : Commas RoleName gs rs)
    (hs : Commas RoleName gs ss) : rs = ss := by
  refine hr.unique (P := fun _ => True) (fun gs a b ha hb _ _ => ?_)
    (fun _ _ h => h.mark_notMem .comma) hs (fun _ _ => trivial) fun _ _ => trivial
  cases ha
  cases hb
  rfl

theorem params_unique {ps qs : List Parameter} (hp : Commas Group gs ps) (hq : Commas Group gs qs)
    (hpf : FreeNames (ps.map (·.name))) (hqf : FreeNames (qs.map (·.name))) : ps = qs :=
  hp.unique (P := fun q => Free q.name) (fun _ _ _ => Group.unique)
    (fun _ _ h => h.mark_notMem .comma) hq
    (fun _ hr => hpf.free _ (List.mem_map_of_mem hr))
    fun _ hr => hqf.free _ (List.mem_map_of_mem hr)

theorem Heading.parts (hp : Heading gs p) (hq : Heading hs q) (h : gs ++ ls = hs ++ ms) :
    gs = hs ∧ ls = ms ∧ p.name = q.name ∧ ∃ rs ps, Commas RoleName rs p.roles ∧
      Commas RoleName rs q.roles ∧ Commas Group ps p.params ∧ Commas Group ps q.params := by
  obtain @⟨bs, rs, ps, _, hb, hr, hps⟩ := hp
  obtain @⟨bs', rs', ps', _, hb', hr', hps'⟩ := hq
  have hroles : ∀ {gs rs}, Commas RoleName gs rs → .mark .newline ∉ gs :=
    fun h => h.notMem (by decide) fun _ _ hr => hr.mark_notMem .newline
  have hparams : ∀ {gs ps}, Commas Group gs ps → .mark .newline ∉ gs :=
    fun h => h.notMem (by decide) fun _ _ hq => hq.mark_notMem .newline
  simp only [List.append_assoc, List.cons_append, List.nil_append, List.cons.injEq,
    Sign.word.injEq, true_and] at h
  obtain ⟨hname, hbreak⟩ := h
  obtain ⟨rfl, hfirst⟩ :=
    hb.append_inj hb' (unbroken_of_word rfl) (unbroken_of_word rfl) hbreak
  obtain ⟨rfl, hsecond⟩ := append_cons_inj (hroles hr) (hroles hr') (List.cons.inj hfirst).2
  obtain ⟨rfl, rfl⟩ := append_cons_inj (hparams hps) (hparams hps') (List.cons.inj hsecond).2
  exact ⟨by rw [hname], rfl, hname, rs, ps, hr, hr', hps, hps'⟩

theorem Heading.heading_iff (hp : Heading gs p) (hpf : FreeNames (p.params.map (·.name)))
    (hqf : FreeNames (q.params.map (·.name))) :
    Heading gs q ↔ q = { p with actions := q.actions } := by
  constructor
  · intro hq
    have hsame : gs ++ [] = gs ++ [] := rfl
    obtain ⟨-, -, hname, rs, ps, hr, hr', hps, hps'⟩ := hp.parts hq hsame
    rw [hname, roles_unique hr hr', params_unique hps hps' hpf hqf]
  · intro hq
    rw [hq]
    obtain ⟨hb, hr, hps⟩ := hp
    exact .intro (p := { p with actions := q.actions }) hb hr hps

theorem spelling_iff_lines (hp : Heading hs p) (hc : Break cs) :
    Spelling (hs ++ gs ++ .mark .closeBrace :: cs) q ↔ Heading hs q ∧ Lines gs q.actions := by
  have hbrace : IsBrace (.mark .closeBrace) := .inr rfl
  constructor
  · intro h
    generalize hws : hs ++ gs ++ .mark .closeBrace :: cs = ws at h
    obtain @⟨bs, ds, cs', _, hb, hd, hc'⟩ := h
    obtain ⟨hs', ls, rfl, hq, hl⟩ := hd.exists_heading
    -- nothing stands in front of the heading, since it begins with a word
    have hfront : [] ++ (hs ++ (gs ++ .mark .closeBrace :: cs)) =
        bs ++ (hs' ++ (ls ++ .mark .closeBrace :: cs')) := by simpa using hws
    have hunbroken : ∀ {us vs : List Sign} {r : Protocol}, Heading us r → Unbroken (us ++ vs) := by
      intro us vs r hr
      apply unbroken_of_word (w := r.name)
      rw [List.head?_append, hr.head]
      rfl
    obtain ⟨rfl, hrest⟩ := Break.none.append_inj hb (hunbroken hp) (hunbroken hq) hfront
    obtain ⟨rfl, hbehind, -⟩ := hp.parts hq hrest
    obtain ⟨rfl, -, -⟩ := (List.append_cons_inj_of_notMem (brace_notMem_lines hbrace hl)
      (brace_notMem_break hbrace hc')).1 hbehind.symm
    exact ⟨hq, hl⟩
  · intro h
    obtain ⟨hq, hl⟩ := h
    simpa using Spelling.intro .none (hq.declaration hl) hc

end InfoProtocol.Grammar
