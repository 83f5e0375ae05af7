import InfoProtocol.Proofs.Transport.Received

/-!
# One message for each action

A message is recorded under the written form of its action, however it came to be recorded. No call
takes it away again: calls other than recording leave the messages alone, and recording adds a
message under a name that is free. Written forms tell actions with plain names apart, so of such
actions none has two messages, and a message is refused exactly if its action has one already.
-/

namespace InfoProtocol.Instance

variable {i j : Instance}

inductive Call
  | setValue (name value : String)
  | update (j : Instance)
  | diff (j : Instance)
  | addMessage (m : Message)

def call (i : Instance) : Call → Outcome
  | .setValue name value => i.setValue name value
  | .update j => i.update j
  | .diff j =>
    match i.diff j with
    | .ok _ => (i, none)
    | .error e => (i, some e)
  | .addMessage m => i.addMessage m

/-- What a call leaves behind, whether it fails or not. -/
def after (i : Instance) (c : Call) : Instance := (i.call c).1

def run (i : Instance) (cs : List Call) : Instance := cs.foldl after i

theorem messages_setValue (i : Instance) (name value : String) :
    (i.setValue name value).1.messages = i.messages :=
  setValue_induction (P := fun k => k.messages = i.messages) (fun _ _ _ => rfl) rfl name value

theorem messages_update (i j : Instance) : (i.update j).1.messages = i.messages :=
  update_induction (P := fun k => k.messages = i.messages)
    (fun k n v hk => (messages_setValue k n v).trans hk) rfl j

theorem after_diff (i j : Instance) : i.after (.diff j) = i := by
  rw [after, call]
  split <;> rfl

theorem addMessage_fresh {m : Message} (h : i.addMessage m = (j, none)) :
    i.messages.get? m.action.render = none ∧
      j = { i with messages := i.messages.insert m.action.render m } := by
  obtain ⟨hfree, rfl⟩ := addMessage_succeeds.1 h
  refine ⟨Option.eq_none_iff_forall_ne_some.2 fun n hn => ?_, rfl⟩
  exact hfree (Bindings.mem_keys.2 ⟨n, hn⟩)

theorem addMessage_fails_iff {m : Message} :
    (∃ e, (i.addMessage m).2 = some e) ↔ ∃ n, i.messages.get? m.action.render = some n := by
  simp [← Bindings.mem_keys, Outcome.snd_eq_some, addMessage_fails]

theorem messages_after (i : Instance) (c : Call) :
    (i.after c).messages = i.messages ∨ ∃ m, c = .addMessage m ∧
      i.messages.get? m.action.render = none ∧
      (i.after c).messages = i.messages.insert m.action.render m := by
  cases c with
  | setValue name value => exact .inl (messages_setValue i name value)
  | update j => exact .inl (messages_update i j)
  | diff j => exact .inl (congrArg messages (after_diff i j))
  | addMessage m =>
    rw [after, call]
    rcases h : i.addMessage m with ⟨j, _ | e⟩
    · obtain ⟨hfree, rfl⟩ := addMessage_fresh h
      exact .inr ⟨m, rfl, hfree, rfl⟩
    · obtain ⟨-, rfl, -⟩ := addMessage_fails.1 h
      exact .inl rfl

theorem messages_after_of_refused {c : Call}
    (hc : ∀ m, c = .addMessage m → ∃ e, (i.addMessage m).2 = some e) :
    (i.after c).messages = i.messages := by
  rcases messages_after i c with h | ⟨m, rfl, hfree, -⟩
  · exact h
  · obtain ⟨n, hn⟩ := addMessage_fails_iff.1 (hc m rfl)
    rw [hfree] at hn
    cases hn

theorem get?_messages_after {k : String} {m : Message} (h : i.messages.get? k = some m)
    (c : Call) : (i.after c).messages.get? k = some m := by
  rcases messages_after i c with hsame | ⟨n, -, hfree, hinsert⟩
  · rw [hsame, h]
  · have hk : k ≠ n.action.render := by
      rintro rfl
      rw [hfree] at h
      cases h
    rw [hinsert, Bindings.get?_insert, if_neg hk, h]

def UnderOwnAction (ms : Bindings Message) : Prop := ∀ k m, ms.get? k = some m → k = m.action.render

theorem UnderOwnAction.after (h : UnderOwnAction i.messages) (c : Call) :
    UnderOwnAction (i.after c).messages := by
  intro k n hn
  rcases messages_after i c with hsame | ⟨m, -, -, hinsert⟩
  · exact h k n (hsame ▸ hn)
  · rw [hinsert, Bindings.get?_insert] at hn
    split at hn
    · next hk =>
      cases hn
      exact hk
    · exact h k n hn

theorem Begun.underOwnAction (h : Begun i) : UnderOwnAction i.messages := by
  cases h with
  | new p roles =>
    intro k m hm
    cases hm
  | decode hi =>
    obtain ⟨e, ms, -, -, -, hms⟩ := messages_refiled hi
    intro k m hm
    rw [hms, Bindings.get?_refiled] at hm
    exact hm.1.symm

theorem get?_messages_run {k : String} {m : Message} (h : i.messages.get? k = some m)
    (cs : List Call) : (i.run cs).messages.get? k = some m := by
  induction cs generalizing i with
  | nil => exact h
  | cons c cs ih => exact ih (get?_messages_after h c)

theorem UnderOwnAction.run (h : UnderOwnAction i.messages) (cs : List Call) :
    UnderOwnAction (i.run cs).messages := by
  induction cs generalizing i with
  | nil => exact h
  | cons c cs ih => exact ih (h.after c)

theorem UnderOwnAction.refused_iff (h : UnderOwnAction i.messages)
    (hplain : ∀ k n, i.messages.get? k = some n → n.action.Plain) {m : Message}
    (hm : m.action.Plain) : (∃ e, (i.addMessage m).2 = some e) ↔
      ∃ k n, i.messages.get? k = some n ∧ n.action = m.action := by
  rw [addMessage_fails_iff]
  constructor
  · rintro ⟨n, hn⟩
    exact ⟨_, n, hn, (hplain _ n hn).eq_of_render_eq hm (h _ n hn).symm⟩
  · rintro ⟨k, n, hn, hsame⟩
    obtain rfl := h k n hn
    exact ⟨n, hsame ▸ hn⟩

/-- Whatever is called, each message stands under its own action and stays there; among plain
actions a message is refused exactly if its action has one already, and nothing happens then. -/
theorem records_once_per_action :
    (∀ i, Begun i → ∀ (cs : List Call) (j : Instance), i.run cs = j →
      (∀ k m, j.messages.get? k = some m → k = m.action.render) ∧
      ∀ m : Message, m.action.Plain →
        (∀ k n, j.messages.get? k = some n → n.action.Plain) →
        ((∃ e, (j.addMessage m).2 = some e) ↔
          ∃ k n, j.messages.get? k = some n ∧ n.action = m.action)) ∧
    (∀ (i : Instance) (c : Call),
      (∀ m, c = .addMessage m → ∃ e, (i.addMessage m).2 = some e) →
      (i.after c).messages = i.messages) ∧
    (∀ (i j : Instance) (m : Message) (e : InstanceError), i.addMessage m = (j, some e) → j = i) ∧
    (∀ (i j : Instance) (m : Message), i.addMessage m = (j, none) →
      i.messages.get? m.action.render = none ∧
      j = { i with messages := i.messages.insert m.action.render m }) ∧
    ∀ (i : Instance) (cs : List Call) (k : String) (m : Message),
      i.messages.get? k = some m → (i.run cs).messages.get? k = some m := by
  refine ⟨fun i hi cs j hj => ?_, fun i c => messages_after_of_refused,
    fun i j m e h => (addMessage_fails.1 h).2.1, fun i j m => addMessage_fresh,
    fun i cs k m h => get?_messages_run h cs⟩
  have hown : UnderOwnAction j.messages := hj ▸ hi.underOwnAction.run cs
  exact ⟨hown, fun m hm hplain => hown.refused_iff hplain hm⟩

theorem records_once_per_action_offer :
    let id : Parameter := ⟨"id", .output, true⟩
    let quote : Action := ⟨"quote", "S", "B", [id]⟩
    let pay : Action := ⟨"pay", "B", "S", [⟨"id", .input, true⟩]⟩
    let i : Instance := .new ⟨"Offer", ["S", "B"], [id], [quote, pay]⟩ ∅
    let j : Instance := { i with values := (∅ : Bindings String).insert "out id key" "7" }
    let m : Message := ⟨"Offer,id:7", quote, j.values⟩
    let n : Message := ⟨"again", quote, ∅⟩
    let k : Instance := { j with messages := (∅ : Bindings Message).insert quote.render m }
    let cs : List Call := [.diff j, .update j, .addMessage m, .addMessage n, .setValue "lot" "1"]
    Begun i ∧ i.run cs = k ∧ quote.Plain ∧ pay.Plain ∧ m.action.render = quote.render ∧
      (∃ e, (k.addMessage n).2 = some e) ∧ (¬ ∃ e, (k.addMessage ⟨"", pay, ∅⟩).2 = some e) ∧
      (k.addMessage n).1 = k ∧ (k.after (.addMessage n)).messages = k.messages ∧
      j.messages.get? quote.render = none ∧ (k.run cs).messages.get? quote.render = some m := by
  intro id quote pay i j m n k cs
  have hi : Begun i := .new _ ∅
  have hk : i.run cs = k := by decide +kernel
  have hquote : quote.Plain := by decide +kernel
  have hpay : pay.Plain := by decide +kernel
  obtain ⟨hrun, hrefused, hkept, hadded, hstays⟩ := records_once_per_action
  obtain ⟨hown, hiff⟩ := hrun i hi cs k hk
  have hrecorded : k.messages.get? quote.render = some m := by decide +kernel
  have honly : ∀ t l, k.messages.get? t = some l → l = m := by
    intro t l hl
    rw [Bindings.get?_insert] at hl
    split at hl
    · exact (Option.some.inj hl).symm
    · cases hl
  have hplain : ∀ t l, k.messages.get? t = some l → l.action.Plain := by
    intro t l hl
    rw [honly t l hl]
    exact hquote
  have hn : ∃ e, (k.addMessage n).2 = some e :=
    (hiff n hquote hplain).2 ⟨quote.render, m, hrecorded, rfl⟩
  obtain ⟨f, hf⟩ := hn
  refine ⟨hi, hk, hquote, hpay, (hown _ m hrecorded).symm, ⟨f, hf⟩, fun hfails => ?_,
    hkept k _ n f (Prod.ext rfl hf), hrefused k _ fun l hl => ?_,
    (hadded j k m (by decide +kernel)).1, hstays k cs _ m hrecorded⟩
  · obtain ⟨t, l, hl, hsame⟩ := (hiff ⟨"", pay, ∅⟩ hpay hplain).1 hfails
    rw [honly t l hl] at hsame
    exact absurd hsame (by decide)
  · cases hl
    exact ⟨f, hf⟩

end InfoProtocol.Instance
