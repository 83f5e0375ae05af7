import InfoProtocol.Proofs.Instance.Enacted
import InfoProtocol.Proofs.Json.Objects
import InfoProtocol.Proofs.Transport.ActionLine

/-!
# Instances that survive the wire

Envelopes are read back from what was written of them. An instance can be delivered when its
protocol is compiled again from its written form, its values belong to parameters, and each of its
messages is recorded under the line of an admissible action. Where the comment mark stands out this
holds of every instance at its origin, and whatever is done with an instance keeps it.
-/

namespace InfoProtocol

open Lexicon

variable {x : Lexicon}

theorem Protocol.compile_render_of_compile (hx : x.Acceptable) (hm : x.MarkStandsOut)
    {source : String} {p : Protocol} (h : compile x source = .ok p) :
    compile x p.render = .ok p := by
  obtain ⟨hread, hvalid⟩ := compile_eq_ok.1 h
  obtain ⟨hl, hwf⟩ := legible_of_occurs (fun w hw => hm.isWord hx hw.nonempty hw.chars) hread
  exact compile_eq_ok.2 ⟨hl.read_render (hm.orderly hx) hwf, hvalid⟩

theorem MessageEnvelope.readsBack_write (e : MessageEnvelope) :
    Json.ReadsBack reader e.write e := by
  refine Json.readsBack_record (d := ⟨some e.instanceKey, some e.action, some e.values⟩) ?_ rfl
  apply Json.Gathers.field rfl rfl (Json.readsBack_quote _)
  apply Json.Gathers.field rfl rfl (Json.readsBack_quote _)
  apply Json.Gathers.field rfl rfl (Json.readsBack_map fun _ _ => Json.readsBack_quote _)
  exact .nil _

theorem InstanceEnvelope.readsBack_write (e : InstanceEnvelope) :
    Json.ReadsBack reader e.write e := by
  refine Json.readsBack_record
    (d := ⟨some e.protocol, some e.roles, some e.values, some e.messages⟩) ?_ rfl
  apply Json.Gathers.field rfl rfl (Json.readsBack_quote _)
  apply Json.Gathers.field rfl rfl (Json.readsBack_map fun _ _ => Json.readsBack_quote _)
  apply Json.Gathers.field rfl rfl (Json.readsBack_map fun _ _ => Json.readsBack_quote _)
  apply Json.Gathers.field rfl rfl (Json.readsBack_map fun m _ => m.2.readsBack_write)
  exact .nil _

namespace Message

variable {m : Message}

theorem ofEnvelope_envelope (hx : x.Acceptable) (hm : x.MarkStandsOut)
    (h : m.action.Admissible x) : ofEnvelope x m.envelope = .ok m := by
  have hread : Action.read x m.envelope.action = .ok m.action := h.read_render hx hm
  rw [ofEnvelope, hread]
  rfl

theorem decode_encode (hx : x.Acceptable) (hm : x.MarkStandsOut) (h : m.action.Admissible x) :
    decode x (Text.octets m.encode) = .ok m := by
  rw [decode, encode, m.envelope.readsBack_write.document]
  exact ofEnvelope_envelope hx hm h

theorem admissible_of_ofEnvelope (hx : x.Acceptable) {e : MessageEnvelope}
    (h : ofEnvelope x e = .ok m) : m.action.Admissible x := by
  unfold ofEnvelope at h
  split at h
  · cases h
  · next a ha =>
    cases h
    exact Action.admissible_of_read hx ha

/-- The actions that can be read from some line are the admissible ones. Each is read back from its
own line, and a message that carries it arrives as it was sent. -/
theorem admissible_reads_back (hx : x.Acceptable) (hm : x.MarkStandsOut) :
    (∀ a : Action, a.Admissible x → Action.read x a.render = .ok a) ∧
      (∀ (text : String) (a : Action), Action.read x text = .ok a → a.Admissible x) ∧
      ∀ m : Message, m.action.Admissible x → decode x (Text.octets m.encode) = .ok m :=
  ⟨fun _ ha => ha.read_render hx hm, fun _ _ => Action.admissible_of_read hx,
    fun _ ha => decode_encode hx hm ha⟩

/-- Sender and receiver are one role, and all names are those of the shell around the line. -/
theorem admissible_reads_back_shell_names :
    let x : Lexicon := ⟨".é", some "//"⟩
    let a : Action := ⟨"X", "A", "A", [⟨"C", .nil, true⟩, ⟨"prix.é", .input, false⟩]⟩
    let line := " A->A:X[C key,in prix.é] // again\n"
    let m : Message := ⟨"Offer:\"7\"", a, (∅ : Bindings String).insert "C key" "a, b"⟩
    x.Acceptable ∧ x.MarkStandsOut ∧ a.Admissible x ∧ Action.read x line = .ok a ∧
      Action.read x a.render = .ok a ∧ decode x (Text.octets m.encode) = .ok m := by
  intro x a line m
  have hx : x.Acceptable := by decide +kernel
  have hm : x.MarkStandsOut := by
    intro mark hmark c hc
    cases hmark
    obtain rfl : '/' = c := by simpa using hc
    decide +kernel
  have hline : Action.read x line = .ok a := by decide +kernel
  obtain ⟨hread, hadm, hdecode⟩ := admissible_reads_back hx hm
  have ha : a.Admissible x := hadm line a hline
  exact ⟨hx, hm, ha, hline, hread a ha, hdecode m ha⟩

end Message

namespace Instance

/-- Each message is recorded under the line of its action, and this action is admissible. -/
def Filed (x : Lexicon) (ms : Bindings Message) : Prop :=
  ∀ k m, ms.get? k = some m → k = m.action.render ∧ m.action.Admissible x

theorem filed_empty : Filed x ∅ := by
  intro k m h
  cases h

theorem Filed.insert {ms : Bindings Message} {m : Message} (h : Filed x ms)
    (hm : m.action.Admissible x) : Filed x (ms.insert m.action.render m) := by
  intro k n hn
  rw [Bindings.get?_insert] at hn
  split at hn
  · next hk =>
    cases hn
    exact ⟨hk, hm⟩
  · exact h k n hn

theorem filed_of_openMessages (hx : x.Acceptable) {es : List MessageEnvelope}
    {b ms : Bindings Message} (hb : Filed x b) (h : openMessages x es b = .ok ms) :
    Filed x ms := by
  induction es generalizing b with
  | nil =>
    cases h
    exact hb
  | cons e es ih =>
    simp only [openMessages] at h
    split at h
    · cases h
    · next m hm => exact ih (hb.insert (Message.admissible_of_ofEnvelope hx hm)) h

theorem openMessages_envelopes (hx : x.Acceptable) (hm : x.MarkStandsOut)
    {l : List (String × Message)}
    (hl : ∀ e ∈ l, e.1 = e.2.action.render ∧ e.2.action.Admissible x) (b : Bindings Message) :
    openMessages x (l.map fun e => e.2.envelope) b = .ok (b.insertAll l) := by
  induction l generalizing b with
  | nil => rfl
  | cons e l ih =>
    obtain ⟨⟨hkey, hadm⟩, hrest⟩ := List.forall_mem_cons.1 hl
    simp only [List.map_cons, openMessages, Message.ofEnvelope_envelope hx hm hadm]
    rw [← hkey]
    exact ih hrest _

theorem Filed.openMessages (hx : x.Acceptable) (hm : x.MarkStandsOut) {ms : Bindings Message}
    (h : Filed x ms) :
    openMessages x ((ms.map Message.envelope).entries.map (·.2)) ∅ = .ok ms := by
  have hl : ∀ e ∈ ms.entries, e.1 = e.2.action.render ∧ e.2.action.Admissible x :=
    fun e he => h e.1 e.2 (Bindings.get?_eq_some.2 he)
  have hopen := openMessages_envelopes hx hm hl ∅
  rw [Bindings.insertAll_entries] at hopen
  rw [Bindings.map, List.map_map]
  exact hopen

/-- What opening the instance's own envelope asks for. -/
structure Deliverable (x : Lexicon) (i : Instance) : Prop extends i.Traceable where
  compiles : Protocol.compile x i.protocol.render = .ok i.protocol
  messages : Filed x i.messages

variable {i j : Instance}

theorem Deliverable.decode_encode (hx : x.Acceptable) (hm : x.MarkStandsOut)
    (h : i.Deliverable x) : decode x (Text.octets i.encode) = .ok i := by
  rw [decode_eq_ok]
  refine ⟨i.envelope, i.envelope.readsBack_write.document, ofEnvelope_eq_ok.2 ?_⟩
  exact ⟨i.protocol, i.messages, h.compiles, undeclaredKey?_eq_none.2 h.declared,
    h.messages.openMessages hx hm, rfl⟩

theorem Opened.deliverable (hx : x.Acceptable) (hm : x.MarkStandsOut) (h : Opened x i) :
    i.Deliverable x := by
  have ht := h.traceable hx
  cases h with
  | new hp => exact ⟨ht, Protocol.compile_render_of_compile hx hm hp, filed_empty⟩
  | decode hi =>
    obtain ⟨e, -, he⟩ := decode_eq_ok.1 hi
    obtain ⟨p, ms, hp, -, hms, rfl⟩ := ofEnvelope_eq_ok.1 he
    exact ⟨ht, Protocol.compile_render_of_compile hx hm hp,
      filed_of_openMessages hx filed_empty hms⟩

theorem Deliverable.setValue (hi : i.Deliverable x) (name value : String) :
    (i.setValue name value).1.Deliverable x :=
  setValue_induction (P := Deliverable x)
    (fun _ hq v => ⟨hi.toTraceable.insert hq v, hi.compiles, hi.messages⟩) hi name value

theorem Deliverable.addMessage {m : Message} (hi : i.Deliverable x)
    (hm : m.action.Admissible x) : (i.addMessage m).1.Deliverable x :=
  addMessage_induction (P := Deliverable x)
    (fun _ => ⟨⟨hi.protocol, hi.declared⟩, hi.compiles, hi.messages.insert hm⟩) hi

theorem Enacted.deliverable (hx : x.Acceptable) (hm : x.MarkStandsOut)
    (h : Enacted (Opened x) (fun m => m.action.Admissible x) i) : i.Deliverable x := by
  -- an update that stops midway has set values like any other
  induction h with
  | start h => exact h.deliverable hx hm
  | setValue _ name value ih => exact ih.setValue name value
  | update _ j ih => exact update_induction (P := Deliverable x) (fun _ n v h => h.setValue n v) ih j
  | addMessage _ hadm ih => exact ih.addMessage hadm

/-- Whatever was done with an instance, its receiver opens the instance that was sent. -/
theorem decode_encode_of_enacted (hx : x.Acceptable) (hm : x.MarkStandsOut)
    (h : Enacted (Opened x) (fun m => m.action.Admissible x) i) :
    decode x (Text.octets i.encode) = .ok i :=
  (h.deliverable hx hm).decode_encode hx hm

theorem decode_encode_of_enacted_offer :
    let source := "Offer\x7brole S,B\nparameter out id key\nS->B:quote[out id key]\n\x7d"
    let id : Parameter := ⟨"id", .output, true⟩
    let quote : Action := ⟨"quote", "S", "B", [id]⟩
    let p : Protocol := ⟨"Offer", ["S", "B"], [id], [quote]⟩
    let roles : Bindings String := (∅ : Bindings String).insert "B" "\"bob\""
    let values : Bindings String := (∅ : Bindings String).insert "out id key" "7"
    let m : Message := ⟨"Offer,id:7", quote, values⟩
    let i : Instance := ⟨p, roles, values, (∅ : Bindings Message).insert quote.render m⟩
    default.Acceptable ∧ default.MarkStandsOut ∧ Protocol.compile .default source = .ok p ∧
      Enacted (Opened .default) (fun m => m.action.Admissible .default) i ∧
      decode .default (Text.octets i.encode) = .ok i := by
  intro source id quote p roles values m i
  have hp : Protocol.compile .default source = .ok p :=
    Protocol.compile_eq_ok.2 ⟨by decide +kernel, Protocol.validate_eq_ok.2
      ⟨by decide, by decide, by decide, _, Protocol.schedule_finRange (by decide)⟩⟩
  have hset : (Instance.new p roles).setValue "id" "7" = (⟨p, roles, values, ∅⟩, none) := by
    decide +kernel
  have hadd : addMessage ⟨p, roles, values, ∅⟩ m = (i, none) := by decide +kernel
  have hi : Enacted (Opened .default) (fun m => m.action.Admissible .default) i :=
    ((Enacted.start (.new hp roles)).of_setValue hset).of_addMessage (by decide +kernel) hadd
  exact ⟨acceptable_default, markStandsOut_default, hp, hi,
    decode_encode_of_enacted acceptable_default markStandsOut_default hi⟩

end Instance

end InfoProtocol
