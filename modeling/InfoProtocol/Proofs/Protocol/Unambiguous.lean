import InfoProtocol.Proofs.Protocol.RoundTrip

/-!
# Parameters told apart by their written forms

A text shows one list of signs, and a list of signs spells at most one parameter whose name is
free. So two legible parameters with the same written form are the same parameter. In a protocol
that was read, a written form leads to the parameter that was written, and its name leads back to
it.
-/

namespace InfoProtocol

open Grammar Lexicon

variable {x : Lexicon}

namespace Grammar

theorem Shows.unique {b : Bool} {s : List Char} {gs hs : List Sign} (hg : Shows x b s gs)
    (hh : Shows x b s hs) : gs = hs := by
  obtain ⟨ls, hls, hgs⟩ := hg
  obtain ⟨ms, hms, hhs⟩ := hh
  rw [hls, Lexeme.Split.mk.injEq] at hms
  obtain ⟨rfl, -⟩ := hms
  rw [← hgs .origin, hhs]

theorem scope_word_injective {s t : Scope} (h : s.word = t.word) : s = t := by
  have hs := Scope.ofWord?_word s
  rw [h, Scope.ofWord?_word] at hs
  exact (Option.some.inj hs).symm

theorem Group.unique {gs : List Sign} {q r : Parameter} (hq : Group gs q) (hr : Group gs r)
    (hqf : Free q.name) (hrf : Free r.name) : q = r := by
  have hscope : ∀ s t : Scope, s.word = t.word → s = t := fun _ _ => scope_word_injective
  have hkey : ∀ n, Free n → n ≠ "key" := fun n hn he => not_free_key (he ▸ hn)
  rw [group_iff] at hq hr
  grind

end Grammar

theorem Parameter.Legible.eq_of_render_eq (hx : x.Orderly) {q r : Parameter} (hq : q.Legible x)
    (hr : r.Legible x) (hqf : Free q.name) (hrf : Free r.name) (h : q.render = r.render) :
    q = r := by
  obtain ⟨gs, hgs, hqw⟩ := hq.writes hx
  obtain ⟨hs, hhs, hrw⟩ := hr.writes hx
  have hend : Delimited [] := by simp [Delimited]
  have hqs := hqw false [] [] hend shows_nil
  have hrs := hrw false [] [] hend shows_nil
  rw [← h] at hrs
  have hsame : gs = hs := by simpa using hqs.unique hrs
  exact hgs.unique (hsame ▸ hhs) hqf hrf

namespace Protocol

def allParams (p : Protocol) : List Parameter := p.actions.flatMap (·.params) ++ p.params

/-- The names and the written forms of its parameters tell them apart. -/
structure Unambiguous (p : Protocol) : Prop where
  wellFormed : p.WellFormed
  written : ∀ q ∈ p.allParams, ∀ r ∈ p.allParams, q.render = r.render → q = r

variable {p : Protocol}

theorem Legible.unambiguous (hx : x.Orderly) (h : p.Legible x) (hp : p.WellFormed) :
    p.Unambiguous where
  wellFormed := hp
  written := by
    have hall : ∀ q ∈ p.allParams, q.Legible x ∧ Free q.name := by
      intro q hq
      rcases List.mem_append.1 hq with hq | hq
      · obtain ⟨a, ha, hq⟩ := List.mem_flatMap.1 hq
        exact ⟨(h.actions a ha).params.each q hq,
          (hp.actions a ha).params.free _ (List.mem_map_of_mem hq)⟩
      · exact ⟨h.params.each q hq, hp.params.free _ (List.mem_map_of_mem hq)⟩
    intro q hq r hr
    obtain ⟨hql, hqf⟩ := hall q hq
    obtain ⟨hrl, hrf⟩ := hall r hr
    exact hql.eq_of_render_eq hx hrl hqf hrf

theorem legible_withoutMark_of_read (hx : x.Acceptable) {source : String}
    (h : read x source = .ok p) : p.Legible x.withoutMark ∧ p.WellFormed :=
  legible_of_occurs (fun _ hw => hw.isWord_withoutMark hx) h

theorem unambiguous_of_read (hx : x.Acceptable) {source : String} (h : read x source = .ok p) :
    p.Unambiguous := by
  obtain ⟨hl, hwf⟩ := legible_withoutMark_of_read hx h
  exact hl.unambiguous (withoutMark_standsOut.orderly (acceptable_withoutMark hx)) hwf

theorem Unambiguous.find?_name (h : p.Unambiguous) {q : Parameter} (hq : q ∈ p.params) :
    Parameters.find? q.name p.params = some q :=
  Parameters.find?_of_nodup h.wellFormed.params.nodup hq

theorem Unambiguous.eq_of_name_eq (h : p.Unambiguous) {q r : Parameter} (hq : q ∈ p.params)
    (hr : r ∈ p.params) (he : q.name = r.name) : q = r := by
  have hfound := h.find?_name hq
  rw [he, h.find?_name hr] at hfound
  exact (Option.some.inj hfound).symm

theorem Unambiguous.eq_of_render_eq (h : p.Unambiguous) {q r : Parameter} (hq : q ∈ p.params)
    (hr : r ∈ p.params) (he : q.render = r.render) : q = r :=
  h.written q (List.mem_append_right _ hq) r (List.mem_append_right _ hr) he

theorem Unambiguous.resolve_render (h : p.Unambiguous) {q : Parameter} (hq : q ∈ p.params) :
    p.resolve q.render = some q := by
  obtain ⟨r, hr⟩ := Option.isSome_iff_exists.1 (resolve_isSome hq)
  have hmem : r ∈ p.allParams := List.mem_of_find?_eq_some hr
  rw [hr, h.written r hmem q (List.mem_append_right _ hq) (Protocol.resolve_render hr)]

end Protocol

end InfoProtocol
