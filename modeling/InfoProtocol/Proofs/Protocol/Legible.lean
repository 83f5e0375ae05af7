import InfoProtocol.Proofs.Grammar.Spelling
import InfoProtocol.Proofs.Lexeme.Words
import InfoProtocol.Protocol.Order

/-!
# Protocols whose written form can be read

Only the words of the written form count: a scope word is not written if the scope is nil, nor the
mark of a key where there is none. A protocol spelled by words of the lexicon is legible, and no
list between commas is empty in it. Being legible and well formed does not depend on the order of
declarations.
-/

namespace InfoProtocol

open Grammar

variable {x : Lexicon}

structure Parameter.Legible (x : Lexicon) (q : Parameter) : Prop where
  name : x.IsWord q.name
  scope : q.scope ≠ .nil → x.IsWord q.scope.word
  key : q.isKey = true → x.IsWord "key"

structure Parameters.Legible (x : Lexicon) (ps : List Parameter) : Prop where
  nonempty : ps ≠ []
  each : ∀ q ∈ ps, q.Legible x

structure Action.Legible (x : Lexicon) (a : Action) : Prop where
  name : x.IsWord a.name
  sender : x.IsWord a.sender
  receiver : x.IsWord a.receiver
  params : Parameters.Legible x a.params

structure Protocol.Legible (x : Lexicon) (p : Protocol) : Prop where
  name : x.IsWord p.name
  role_word : x.IsWord "role"
  parameter_word : x.IsWord "parameter"
  roles_nonempty : p.roles ≠ []
  roles : ∀ r ∈ p.roles, x.IsWord r
  params : Parameters.Legible x p.params
  actions : ∀ a ∈ p.actions, a.Legible x

namespace Grammar

def InWords (x : Lexicon) (gs : List Sign) : Prop := ∀ w, .word w ∈ gs → x.IsWord w

theorem inWords_nil : InWords x [] ↔ True := by simp [InWords]

theorem inWords_append {gs hs : List Sign} :
    InWords x (gs ++ hs) ↔ InWords x gs ∧ InWords x hs := by
  simp only [InWords, List.mem_append, or_imp, forall_and]

theorem inWords_cons_mark {k : TokenKind} {gs : List Sign} :
    InWords x (.mark k :: gs) ↔ InWords x gs := by
  simp [InWords]

theorem inWords_cons_word {w : String} {gs : List Sign} :
    InWords x (.word w :: gs) ↔ x.IsWord w ∧ InWords x gs := by
  simp [InWords]

theorem RoleName.isWord {gs : List Sign} {r : Role} (h : RoleName gs r) (hgs : InWords x gs) :
    x.IsWord r := by
  obtain ⟨r⟩ := h
  exact hgs r List.mem_cons_self

theorem Group.legible {gs : List Sign} {q : Parameter} (h : Group gs q) (hgs : InWords x gs) :
    q.Legible x := by
  cases h with
  | bare n => exact ⟨hgs n (by simp), fun h => absurd rfl h, fun h => by cases h⟩
  | key n => exact ⟨hgs n (by simp), fun h => absurd rfl h, fun _ => hgs "key" (by simp)⟩
  | inScope s n => exact ⟨hgs n (by simp), fun _ => hgs s.word (by simp), fun h => by cases h⟩
  | inScopeKey s n =>
    exact ⟨hgs n (by simp), fun _ => hgs s.word (by simp), fun _ => hgs "key" (by simp)⟩

theorem Commas.forall_of_inWords {α : Type} {R : Phrase α} {P : α → Prop} {gs : List Sign}
    {as : List α} (h : Commas R gs as) (hR : ∀ hs a, R hs a → InWords x hs → P a)
    (hgs : InWords x gs) : ∀ a ∈ as, P a := by
  induction h with
  | one ha =>
    intro a hmem
    rw [List.mem_singleton.1 hmem]
    exact hR _ _ ha hgs
  | more ha _ ih =>
    rw [inWords_append, inWords_cons_mark] at hgs
    exact List.forall_mem_cons.2 ⟨hR _ _ ha hgs.1, ih hgs.2⟩

theorem Commas.legible {gs : List Sign} {ps : List Parameter} (h : Commas Group gs ps)
    (hgs : InWords x gs) : Parameters.Legible x ps :=
  ⟨h.ne_nil, h.forall_of_inWords (fun _ _ hg => hg.legible) hgs⟩

theorem Line.legible {gs : List Sign} {a : Action} (h : Line gs a) (hgs : InWords x gs) :
    a.Legible x := by
  obtain ⟨s, r, n, hps⟩ := h
  simp only [inWords_append, inWords_cons_word, inWords_cons_mark, inWords_nil, and_true] at hgs
  obtain ⟨⟨hs, hr, hn⟩, hps'⟩ := hgs
  exact ⟨hn, hs, hr, hps.legible hps'⟩

theorem Lines.legible {gs : List Sign} {as : List Action} (h : Lines gs as)
    (hgs : InWords x gs) : ∀ a ∈ as, a.Legible x := by
  induction h with
  | nil => simp
  | cons ha _ ih =>
    rw [inWords_append] at hgs
    exact List.forall_mem_cons.2 ⟨ha.legible hgs.1, ih hgs.2⟩

theorem Spelling.legible {gs : List Sign} {p : Protocol} (h : Spelling gs p)
    (hgs : InWords x gs) : p.Legible x := by
  obtain ⟨-, hd, -⟩ := h
  obtain ⟨n, -, hr, hp, ha⟩ := hd
  simp only [inWords_append, inWords_cons_word, inWords_cons_mark, inWords_nil, and_true] at hgs
  obtain ⟨⟨-, ⟨⟨⟨⟨⟨hn, -⟩, hrole⟩, hrs⟩, hparam⟩, hps⟩, hls⟩, -⟩ := hgs
  exact ⟨hn, hrole, hparam, hr.ne_nil, hr.forall_of_inWords (fun _ _ hg => hg.isWord) hrs,
    hp.legible hps, ha.legible hls⟩

end Grammar

namespace Grammar

theorem FreeNames.perm {vs ws : List String} (h : FreeNames vs) (hp : ws.Perm vs) :
    FreeNames ws :=
  ⟨fun w hw => h.free w (hp.mem_iff.1 hw), hp.nodup_iff.2 h.nodup⟩

end Grammar

theorem Parameters.Legible.sort {ps : List Parameter} (h : Parameters.Legible x ps) :
    Parameters.Legible x (Parameters.sort ps) where
  nonempty he := h.nonempty (List.perm_nil.1 (he ▸ (Parameters.sort_perm ps).symm))
  each q hq := h.each q (Parameters.mem_sort.1 hq)

theorem Action.Legible.sortParams {a : Action} (h : a.Legible x) : a.sortParams.Legible x :=
  ⟨h.name, h.sender, h.receiver, h.params.sort⟩

namespace Protocol

variable {p : Protocol}

theorem mem_canonical_actions {a : Action} :
    a ∈ p.canonical.actions ↔ ∃ b ∈ p.actions, b.sortParams = a := by
  rw [canonical, (Actions.sort_perm _).mem_iff, List.mem_map]

theorem Legible.canonical (h : p.Legible x) : p.canonical.Legible x where
  name := h.name
  role_word := h.role_word
  parameter_word := h.parameter_word
  roles_nonempty he := h.roles_nonempty (List.perm_nil.1 (he ▸ (Roles.sort_perm p.roles).symm))
  roles r hr := h.roles r ((Roles.sort_perm p.roles).mem_iff.1 hr)
  params := h.params.sort
  actions a ha := by
    obtain ⟨b, hb, rfl⟩ := mem_canonical_actions.1 ha
    exact (h.actions b hb).sortParams

theorem WellFormed.canonical (h : p.WellFormed) : p.canonical.WellFormed where
  free := h.free
  roles := h.roles.perm (Roles.sort_perm p.roles)
  params := h.params.perm ((Parameters.sort_perm p.params).map _)
  hasKey := by
    obtain ⟨q, hq, hk⟩ := h.hasKey
    exact ⟨q, Parameters.mem_sort.2 hq, hk⟩
  actions a ha := by
    obtain ⟨b, hb, rfl⟩ := mem_canonical_actions.1 ha
    have hdecl := h.actions b hb
    have hroles : ∀ r, r ∈ p.canonical.roles ↔ r ∈ p.roles :=
      fun r => (Roles.sort_perm p.roles).mem_iff
    refine ⟨hdecl.free, ⟨(hroles _).2 hdecl.known.1, (hroles _).2 hdecl.known.2⟩, ?_⟩
    exact hdecl.params.perm ((Parameters.sort_perm b.params).map _)

end Protocol

end InfoProtocol
