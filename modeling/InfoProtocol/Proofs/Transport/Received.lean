import InfoProtocol.Proofs.Bindings
import InfoProtocol.Proofs.Protocol.Plain
import InfoProtocol.Proofs.Transport.Delivery

/-!
# Messages that arrive in an envelope

The entries of an envelope stand under names of their own, but the messages in them are recorded
under the actions that are read, and texts that differ in layout may be read as one action. So of
all entries for an action the last one is recorded, and each entry is recorded exactly if no two of
them are for one action. Nothing refuses the others, though recording their messages one by one
would.
-/

namespace InfoProtocol

variable {x : Lexicon}

theorem Message.ofEnvelope_eq_ok {w : MessageEnvelope} {m : Message} :
    ofEnvelope x w = .ok m ↔ Action.read x w.action = .ok m.action ∧
      m.instanceKey = w.instanceKey ∧ m.values = w.values := by
  unfold ofEnvelope
  split
  · next h => simp [h]
  · next a h =>
    obtain ⟨k, b, vs⟩ := m
    simp only [h, Except.ok.injEq, mk.injEq]
    tauto

namespace InstanceEnvelope

/-- The message that the entry `name` carries. -/
def Carries (x : Lexicon) (e : InstanceEnvelope) (name : String) (m : Message) : Prop :=
  ∃ w, e.messages.get? name = some w ∧ Action.read x w.action = .ok m.action ∧
    m.instanceKey = w.instanceKey ∧ m.values = w.values

def OnePerAction (x : Lexicon) (e : InstanceEnvelope) : Prop :=
  ∀ name other m n, e.Carries x name m → e.Carries x other n → m.action = n.action → name = other

variable {e : InstanceEnvelope} {name : String} {m : Message}

theorem Carries.plain (hx : x.Acceptable) (h : e.Carries x name m) : m.action.Plain := by
  obtain ⟨w, -, hread, -⟩ := h
  exact (Action.admissible_of_read hx hread).plain hx

theorem Carries.render_eq_iff {other : String} {n : Message} (hx : x.Acceptable)
    (hm : e.Carries x name m) (hn : e.Carries x other n) :
    m.action.render = n.action.render ↔ m.action = n.action :=
  ⟨(hm.plain hx).eq_of_render_eq (hn.plain hx), congrArg Action.render⟩

end InstanceEnvelope

namespace Instance

open InstanceEnvelope

theorem openMessages_cons_eq_ok {w : MessageEnvelope} {ws : List MessageEnvelope}
    {b ms : Bindings Message} : openMessages x (w :: ws) b = .ok ms ↔
      ∃ m, Message.ofEnvelope x w = .ok m ∧
        openMessages x ws (b.insert m.action.render m) = .ok ms := by
  rw [openMessages]
  split
  · next h => simp [h]
  · next m h => simp [h]

theorem exists_of_openMessages {l : List (String × MessageEnvelope)} {b ms : Bindings Message}
    (h : openMessages x (l.map (·.2)) b = .ok ms) :
    ∃ rs : List (String × Message), rs.map (·.1) = l.map (·.1) ∧
      (∀ name m, (name, m) ∈ rs ↔ ∃ w, (name, w) ∈ l ∧ Message.ofEnvelope x w = .ok m) ∧
      ms = b.insertAll (rs.map fun r => (r.2.action.render, r.2)) := by
  induction l generalizing b with
  | nil =>
    cases h
    exact ⟨[], rfl, by simp, rfl⟩
  | cons e l ih =>
    obtain ⟨m, hm, hrest⟩ := openMessages_cons_eq_ok.1 h
    obtain ⟨rs, hnames, hrs, hms⟩ := ih hrest
    refine ⟨(e.1, m) :: rs, by rw [List.map_cons, List.map_cons, hnames], fun name n => ?_, hms⟩
    have hfirst : (name, n) = (e.1, m) ↔ ∃ w, (name, w) = e ∧ Message.ofEnvelope x w = .ok n := by
      constructor
      · intro h
        cases h
        exact ⟨e.2, rfl, hm⟩
      · rintro ⟨w, rfl, hw⟩
        rw [Except.ok.inj (hm.symm.trans hw)]
    simp only [List.mem_cons, hfirst, hrs, or_and_right, exists_or]

theorem messages_refiled {s : Octets} {i : Instance} (h : decode x s = .ok i) :
    ∃ (e : InstanceEnvelope) (ms : Bindings Message),
      Json.document InstanceEnvelope.reader s = .ok e ∧ ms.keys = e.messages.keys ∧
      (∀ name m, ms.get? name = some m ↔ e.Carries x name m) ∧
      i.messages = ms.refiled fun m => m.action.render := by
  obtain ⟨e, he, hi⟩ := decode_eq_ok.1 h
  obtain ⟨p, ms, -, -, hms, rfl⟩ := ofEnvelope_eq_ok.1 hi
  obtain ⟨rs, hnames, hrs, rfl⟩ := exists_of_openMessages hms
  have hascending : rs.Pairwise fun a b => a.1 < b.1 := by
    have hkeys := e.messages.keys_ascending
    rw [Bindings.keys, ← hnames, List.pairwise_map] at hkeys
    exact hkeys
  refine ⟨e, ⟨rs, hascending⟩, he, hnames, fun name m => ?_, rfl⟩
  rw [Bindings.get?_eq_some, hrs]
  simp only [Carries, Bindings.get?_eq_some, Message.ofEnvelope_eq_ok]

section Refiled

variable {e : InstanceEnvelope} {ms : Bindings Message} (hx : x.Acceptable)
  (hms : ∀ name m, ms.get? name = some m ↔ e.Carries x name m)

include hx hms

theorem get?_refiled_carried (k : String) (m : Message) :
    (ms.refiled fun m => m.action.render).get? k = some m ↔ k = m.action.render ∧
      ∃ name, e.Carries x name m ∧
        ∀ later n, e.Carries x later n → name < later → n.action ≠ m.action := by
  rw [Bindings.get?_refiled, eq_comm]
  refine and_congr_right ?_
  rintro rfl
  refine exists_congr fun name => ?_
  rw [hms]
  refine and_congr_right fun hm => forall_congr' fun later => forall_congr' fun n => ?_
  rw [hms]
  exact forall_congr' fun hn => by rw [ne_eq, hn.render_eq_iff hx hm]

theorem size_refiled_carried (hkeys : ms.keys = e.messages.keys) :
    (ms.refiled fun m => m.action.render).size = e.messages.size ↔ e.OnePerAction x := by
  have hsize : ms.size = e.messages.size := by
    rw [← Bindings.length_keys, hkeys, Bindings.length_keys]
  rw [← hsize, Bindings.size_refiled]
  simp only [hms]
  refine forall₄_congr fun name other m n => forall₂_congr fun hm hn => ?_
  rw [hm.render_eq_iff hx hn]

end Refiled

/-- An envelope that is accepted has an action in each entry. Of the entries for one action the
last is recorded, so each of them is recorded only where no action occurs twice. -/
theorem decode_records_last (hx : x.Acceptable) {s : Octets} {i : Instance}
    (h : decode x s = .ok i) :
    ∃ e, Json.document InstanceEnvelope.reader s = .ok e ∧
      (∀ name ∈ e.messages.keys, ∃ m, e.Carries x name m) ∧
      (∀ k m, i.messages.get? k = some m ↔ k = m.action.render ∧ ∃ name, e.Carries x name m ∧
        ∀ later n, e.Carries x later n → name < later → n.action ≠ m.action) ∧
      (i.messages.size = e.messages.size ↔ e.OnePerAction x) ∧
      (e.OnePerAction x →
        ∀ name m, e.Carries x name m → i.messages.get? m.action.render = some m) := by
  obtain ⟨e, ms, he, hkeys, hms, hi⟩ := messages_refiled h
  rw [hi]
  have hlast := get?_refiled_carried hx hms
  refine ⟨e, he, fun name hname => ?_, hlast, size_refiled_carried hx hms hkeys, ?_⟩
  · obtain ⟨m, hm⟩ := Bindings.mem_keys.1 (hkeys ▸ hname)
    exact ⟨m, (hms name m).1 hm⟩
  · intro hone name m hm
    refine (hlast _ m).2 ⟨rfl, name, hm, fun later n hn hlt hsame => ?_⟩
    exact String.lt_irrefl _ (hone name later m n hm hn hsame.symm ▸ hlt)

theorem decode_records_last_offer :
    let id : Parameter := ⟨"id", .output, true⟩
    let quote : Action := ⟨"quote", "S", "B", [id]⟩
    let pay : Action := ⟨"pay", "B", "S", [⟨"id", .input, true⟩]⟩
    let p : Protocol := ⟨"Offer", ["S", "B"], [id], [quote, pay]⟩
    let m : Message := ⟨"Offer,id:7", quote, (∅ : Bindings String).insert "out id key" "7"⟩
    let n : Message := ⟨"Offer,id:8", pay, ∅⟩
    let w : MessageEnvelope := ⟨m.instanceKey, quote.render, m.values⟩
    let v : MessageEnvelope := ⟨n.instanceKey, "B->S:pay[in id key]", n.values⟩
    let e : InstanceEnvelope :=
      ⟨p.render, ∅, ∅, ((∅ : Bindings MessageEnvelope).insert "1" w).insert "2" v⟩
    let i : Instance :=
      ⟨p, ∅, ∅, ((∅ : Bindings Message).insert quote.render m).insert pay.render n⟩
    decode .default (Text.octets e.write) = .ok i ∧ e.messages.size = 2 ∧
      e.Carries .default "1" m ∧ e.Carries .default "2" n ∧ e.OnePerAction .default ∧
      i.messages.size = 2 ∧ i.messages.get? quote.render = some m ∧
      i.messages.get? pay.render = some n := by
  intro id quote pay p m n w v e i
  have hp : Protocol.compile .default p.render = .ok p :=
    Protocol.compile_eq_ok.2 ⟨by decide +kernel, Protocol.validate_eq_ok.2
      ⟨by decide, by decide, by decide, _, Protocol.schedule_finRange (by decide)⟩⟩
  have hquote : quote.Admissible .default := by decide +kernel
  have hw : Action.read .default w.action = .ok quote :=
    hquote.read_render Lexicon.acceptable_default Lexicon.markStandsOut_default
  have hv : Action.read .default v.action = .ok pay := by decide +kernel
  have hentries : e.messages.entries = [("1", w), ("2", v)] := by decide +kernel
  have hopen : openMessages .default (e.messages.entries.map (·.2)) ∅ = .ok i.messages := by
    rw [hentries]
    exact openMessages_cons_eq_ok.2 ⟨m, Message.ofEnvelope_eq_ok.2 ⟨hw, rfl, rfl⟩,
      openMessages_cons_eq_ok.2 ⟨n, Message.ofEnvelope_eq_ok.2 ⟨hv, rfl, rfl⟩, rfl⟩⟩
  have hdocument := e.readsBack_write.document
  have hi : decode .default (Text.octets e.write) = .ok i := decode_eq_ok.2 ⟨e, hdocument,
    ofEnvelope_eq_ok.2 ⟨p, i.messages, hp, by decide, hopen, rfl⟩⟩
  have hm : e.Carries .default "1" m := ⟨w, by decide +kernel, hw, rfl, rfl⟩
  have hn : e.Carries .default "2" n := ⟨v, by decide +kernel, hv, rfl, rfl⟩
  have hboth : ∀ name l, e.Carries .default name l →
      name = "1" ∧ l.action = quote ∨ name = "2" ∧ l.action = pay := by
    rintro name l ⟨u, hu, hread, -⟩
    rw [Bindings.get?_eq_some, hentries] at hu
    simp only [List.mem_cons, Prod.mk.injEq, List.not_mem_nil, or_false] at hu
    rcases hu with ⟨rfl, rfl⟩ | ⟨rfl, rfl⟩
    · exact .inl ⟨rfl, Except.ok.inj (hread.symm.trans hw)⟩
    · exact .inr ⟨rfl, Except.ok.inj (hread.symm.trans hv)⟩
  have hpair : quote ≠ pay := by decide
  have hone : e.OnePerAction .default := by
    intro name other k l hk hl hsame
    rcases hboth name k hk with ⟨rfl, hka⟩ | ⟨rfl, hka⟩ <;>
      rcases hboth other l hl with ⟨rfl, hla⟩ | ⟨rfl, hla⟩
    · rfl
    · exact absurd (hka.symm.trans (hsame.trans hla)) hpair
    · exact absurd (hla.symm.trans (hsame.symm.trans hka)) hpair
    · rfl
  obtain ⟨e', he', -, -, hsize, hrecorded⟩ := decode_records_last Lexicon.acceptable_default hi
  obtain rfl : e = e' := Except.ok.inj (hdocument.symm.trans he')
  have hfiled := hrecorded hone
  exact ⟨hi, by decide, hm, hn, hone, (hsize.2 hone).trans (by decide), hfiled "1" m hm,
    hfiled "2" n hn⟩

/-- Two messages for one action arrive in two layouts and are taken for one, though an instance
that has the first refuses the second. -/
theorem decode_merges_layouts :
    let quote : Action := ⟨"quote", "S", "B", [⟨"id", .output, true⟩]⟩
    let p : Protocol := ⟨"Offer", ["S", "B"], [⟨"id", .output, true⟩], [quote]⟩
    let m : Message := ⟨"a", quote, ∅⟩
    let n : Message := ⟨"b", quote, ∅⟩
    let w : MessageEnvelope := ⟨"a", quote.render, ∅⟩
    let v : MessageEnvelope := ⟨"b", "S->B:quote[out id key]", ∅⟩
    let e : InstanceEnvelope :=
      ⟨p.render, ∅, ∅, ((∅ : Bindings MessageEnvelope).insert "1" w).insert "2" v⟩
    let i : Instance := ⟨p, ∅, ∅, (∅ : Bindings Message).insert quote.render n⟩
    let j : Instance := ⟨p, ∅, ∅, (∅ : Bindings Message).insert quote.render m⟩
    Json.document InstanceEnvelope.reader (Text.octets e.write) = .ok e ∧
      decode .default (Text.octets e.write) = .ok i ∧
      e.messages.size = 2 ∧ i.messages.size = 1 ∧ ¬ e.OnePerAction .default ∧
      e.Carries .default "1" m ∧ i.messages.get? m.action.render ≠ some m ∧
      addMessage (new p ∅) m = (j, none) ∧
      addMessage j n = (j, some (.duplicateMessage "S -> B: quote[out id key]")) := by
  intro quote p m n w v e i j
  have hp : Protocol.compile .default p.render = .ok p :=
    Protocol.compile_eq_ok.2 ⟨by decide +kernel, Protocol.validate_eq_ok.2
      ⟨by decide, by decide, by decide, _, Protocol.schedule_finRange (by decide)⟩⟩
  have hquote : quote.Admissible .default := by decide +kernel
  have hw : Action.read .default w.action = .ok quote :=
    hquote.read_render Lexicon.acceptable_default Lexicon.markStandsOut_default
  have hv : Action.read .default v.action = .ok quote := by decide +kernel
  have hentries : e.messages.entries = [("1", w), ("2", v)] := by decide +kernel
  have hreplaced : j.messages.insert n.action.render n = i.messages := by decide +kernel
  have hopen : openMessages .default (e.messages.entries.map (·.2)) ∅ = .ok i.messages := by
    rw [hentries]
    exact openMessages_cons_eq_ok.2 ⟨m, Message.ofEnvelope_eq_ok.2 ⟨hw, rfl, rfl⟩,
      openMessages_cons_eq_ok.2 ⟨n, Message.ofEnvelope_eq_ok.2 ⟨hv, rfl, rfl⟩,
        congrArg Except.ok hreplaced⟩⟩
  have hdocument := e.readsBack_write.document
  have hi : decode .default (Text.octets e.write) = .ok i := decode_eq_ok.2 ⟨e, hdocument,
    ofEnvelope_eq_ok.2 ⟨p, i.messages, hp, by decide, hopen, rfl⟩⟩
  have hm : e.Carries .default "1" m := ⟨w, by decide +kernel, hw, rfl, rfl⟩
  have hn : e.Carries .default "2" n := ⟨v, by decide +kernel, hv, rfl, rfl⟩
  have hmerged : ¬ e.OnePerAction .default := fun h => absurd (h "1" "2" m n hm hn rfl) (by decide)
  exact ⟨hdocument, hi, by decide, by decide +kernel, hmerged, hm, by decide +kernel,
    by decide +kernel, by decide +kernel⟩

end Instance

end InfoProtocol
