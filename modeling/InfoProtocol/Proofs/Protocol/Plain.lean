import InfoProtocol.Proofs.Text.Separated
import InfoProtocol.Proofs.Transport.ActionLine

/-!
# Plain names

A name is plain if it is not empty and holds neither blanks nor punctuation, which is what makes it
a word of some lexicon. Written forms tell parameters and actions with plain names apart, also
actions without parameters, which no source can declare.
-/

namespace InfoProtocol

open Grammar Lexicon

structure PlainName (w : String) : Prop where
  nonempty : w.toList ≠ []
  chars : ∀ c ∈ w.toList, isDelimiter c = false

structure Parameter.Plain (q : Parameter) : Prop where
  name : PlainName q.name
  free : Free q.name

structure Action.Plain (a : Action) : Prop where
  name : PlainName a.name
  sender : PlainName a.sender
  receiver : PlainName a.receiver
  params : ∀ q ∈ a.params, q.Plain

structure Protocol.Plain (p : Protocol) : Prop where
  name : PlainName p.name
  roles : ∀ r ∈ p.roles, PlainName r
  params : ∀ q ∈ p.params, q.Plain
  actions : ∀ a ∈ p.actions, a.Plain

instance (w : String) : Decidable (PlainName w) :=
  decidable_of_iff (w.toList ≠ [] ∧ (w.toList.all fun c => !isDelimiter c) = true)
    ⟨fun h => ⟨h.1, by simpa using h.2⟩, fun h => ⟨h.nonempty, by simpa using h.chars⟩⟩

instance (q : Parameter) : Decidable q.Plain :=
  decidable_of_iff (PlainName q.name ∧ isReserved q.name = false)
    ⟨fun h => ⟨h.1, h.2⟩, fun h => ⟨h.name, h.free⟩⟩

instance (a : Action) : Decidable a.Plain :=
  decidable_of_iff ((PlainName a.name ∧ PlainName a.sender ∧ PlainName a.receiver) ∧
      ∀ q ∈ a.params, q.Plain)
    ⟨fun h => ⟨h.1.1, h.1.2.1, h.1.2.2, h.2⟩, fun h => ⟨⟨h.name, h.sender, h.receiver⟩, h.params⟩⟩

instance (p : Protocol) : Decidable p.Plain :=
  decidable_of_iff ((PlainName p.name ∧ ∀ r ∈ p.roles, PlainName r) ∧
      (∀ q ∈ p.params, q.Plain) ∧ ∀ a ∈ p.actions, a.Plain)
    ⟨fun h => ⟨h.1.1, h.1.2, h.2.1, h.2.2⟩, fun h => ⟨⟨h.name, h.roles⟩, h.params, h.actions⟩⟩

theorem PlainName.occurrences_eq_zero {w : String} (h : PlainName w) {c : Char}
    (hc : isDelimiter c = true) : Text.occurrences c w = 0 := by
  apply List.count_eq_zero.2
  intro hmem
  rw [h.chars c hmem] at hc
  cases hc

theorem Lexicon.IsName.plainName {x : Lexicon} (hx : x.Acceptable) {w : String} (h : x.IsName w) :
    PlainName w :=
  ⟨h.nonempty, fun c hc => isDelimiter_of_isWordChar hx (h.chars c hc)⟩

def Lexicon.spanning (v w : String) : Lexicon := ⟨v ++ w, none⟩

section Spanning

variable {v w : String}

theorem acceptable_spanning (hv : PlainName v) (hw : PlainName w) : (spanning v w).Acceptable := by
  refine acceptable_iff.2 ⟨fun c hc => ?_, by simp [spanning]⟩
  have hdelim : isDelimiter c = false := by
    rcases List.mem_append.1 (String.toList_append ▸ hc) with hc | hc
    · exact hv.chars c hc
    · exact hw.chars c hc
  exact Bool.or_eq_false_iff.1 hdelim

theorem spanning_standsOut : (spanning v w).MarkStandsOut := by
  intro m hm
  cases hm

theorem isWord_spanning_left (hv : PlainName v) (hw : PlainName w) : (spanning v w).IsWord v :=
  spanning_standsOut.isWord (acceptable_spanning hv hw) hv.nonempty fun c hc => by
    simp [isWordChar, spanning, hc]

theorem isWord_spanning_right (hv : PlainName v) (hw : PlainName w) : (spanning v w).IsWord w :=
  spanning_standsOut.isWord (acceptable_spanning hv hw) hw.nonempty fun c hc => by
    simp [isWordChar, spanning, hc]

end Spanning

namespace Parameter

variable {q r : Parameter}

theorem Plain.eq_of_render_eq (hq : q.Plain) (hr : r.Plain) (h : q.render = r.render) : q = r := by
  have hx := acceptable_spanning hq.name hr.name
  have hm : (spanning q.name r.name).MarkStandsOut := spanning_standsOut
  have hql := legible_of_isWord hx hm (isWord_spanning_left hq.name hr.name)
  have hrl := legible_of_isWord hx hm (isWord_spanning_right hq.name hr.name)
  exact hql.eq_of_render_eq (hm.orderly hx) hrl hq.free hr.free h

theorem Plain.render_ne_empty (h : q.Plain) : q.render ≠ "" := by
  intro he
  have hlist := congrArg String.toList he
  simp only [render, String.toList_append, String.toList_empty, List.append_eq_nil_iff] at hlist
  exact h.name.nonempty hlist.1.2

theorem Plain.commas_render (h : q.Plain) : Text.occurrences ',' q.render = 0 := by
  rw [render, Text.occurrences_append, Text.occurrences_append,
    h.name.occurrences_eq_zero (by decide)]
  generalize q.scope = s
  generalize q.isKey = k
  cases s <;> cases k <;> decide

end Parameter

namespace Parameters

variable {ps qs : List Parameter}

theorem eq_of_map_render_eq (hps : ∀ q ∈ ps, q.Plain) (hqs : ∀ q ∈ qs, q.Plain)
    (h : ps.map Parameter.render = qs.map Parameter.render) : ps = qs := by
  induction ps generalizing qs with
  | nil => exact (List.map_eq_nil_iff.1 h.symm).symm
  | cons q ps ih =>
    obtain ⟨r, rs, rfl, hr, hrs⟩ := List.map_eq_cons_iff.1 h.symm
    obtain ⟨hq, hps⟩ := List.forall_mem_cons.1 hps
    obtain ⟨hrp, hrsp⟩ := List.forall_mem_cons.1 hqs
    rw [hq.eq_of_render_eq hrp hr.symm, ih hps hrsp hrs.symm]

theorem eq_of_render_eq (hps : ∀ q ∈ ps, q.Plain) (hqs : ∀ q ∈ qs, q.Plain)
    (h : render ps = render qs) : ps = qs := by
  have hpieces : ∀ {rs : List Parameter}, (∀ q ∈ rs, q.Plain) →
      ∀ s ∈ rs.map Parameter.render, s ≠ "" ∧ Text.occurrences ',' s = 0 := by
    intro rs hrs s hs
    obtain ⟨q, hq, rfl⟩ := List.mem_map.1 hs
    exact ⟨(hrs q hq).render_ne_empty, (hrs q hq).commas_render⟩
  exact eq_of_map_render_eq hps hqs
    (Text.intercalate_inj_of_absent Text.separator_comma_space (hpieces hps) (hpieces hqs) h)

end Parameters

namespace Action

variable {a b : Action}

theorem toList_render (a : Action) : a.render.toList = a.sender.toList ++ ' ' :: '-' :: '>' ::
    ' ' :: (a.receiver.toList ++ ':' :: ' ' :: (a.name.toList ++ '[' ::
      ((Parameters.render a.params).toList ++ [']']))) := by
  simp [render]

theorem Plain.eq_of_render_eq (ha : a.Plain) (hb : b.Plain) (h : a.render = b.render) : a = b := by
  have hcount : ∀ {c : Char} {v w : String}, isDelimiter c = true → PlainName v → PlainName w →
      v.toList.count c = w.toList.count c := fun hc hv hw =>
    (hv.occurrences_eq_zero hc).trans (hw.occurrences_eq_zero hc).symm
  have hlist := congrArg String.toList h
  rw [toList_render, toList_render] at hlist
  obtain ⟨hsender, hlist⟩ := Text.append_cons_inj (hcount (by decide) ha.sender hb.sender) hlist
  simp only [List.cons.injEq, true_and] at hlist
  obtain ⟨hreceiver, hlist⟩ :=
    Text.append_cons_inj (hcount (by decide) ha.receiver hb.receiver) hlist
  simp only [List.cons.injEq, true_and] at hlist
  obtain ⟨hname, hlist⟩ := Text.append_cons_inj (hcount (by decide) ha.name hb.name) hlist
  have hparams := Parameters.eq_of_render_eq ha.params hb.params
    (String.toList_inj.1 (List.append_cancel_right hlist))
  cases a
  cases b
  simp only [mk.injEq]
  exact ⟨String.toList_inj.1 hname, String.toList_inj.1 hsender, String.toList_inj.1 hreceiver,
    hparams⟩

theorem Admissible.plain {x : Lexicon} (hx : x.Acceptable) (h : a.Admissible x) : a.Plain where
  name := h.name.plainName hx
  sender := h.sender.plainName hx
  receiver := h.receiver.plainName hx
  params q hq := ⟨(h.params q hq).plainName hx, (h.params q hq).free⟩

end Action

end InfoProtocol
