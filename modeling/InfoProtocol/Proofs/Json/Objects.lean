import InfoProtocol.Json.Shape
import InfoProtocol.Json.Written
import InfoProtocol.Proofs.Bindings

/-!
# Written objects read back

Written JSON has no blanks between its marks, so its reader meets each mark in front. The members
of an object are read with a state that each of them moves on; an object is read back once every
member's reader takes back the value that was written, from the state in which it is met.
-/

namespace InfoProtocol.Json

variable {α β σ : Type}

/-- Whatever text follows, `rd` takes `w` off the front as `a`. -/
def ReadsBack (rd : Reader α) (w : String) (a : α) : Prop :=
  ∀ r, Takes rd (Text.octets w ++ r) a r

theorem takes_iff {rd : Reader α} {s : Octets} {a : α} {r : Octets} :
    Takes rd s a r ↔ ∃ v, rd s = .ok v ∧ v.value = a ∧ v.rest = r := by
  constructor
  · intro h
    obtain ⟨h, hs⟩ := h
    exact ⟨_, hs, rfl, rfl⟩
  · intro h
    obtain ⟨⟨a, r, h⟩, hs, rfl, rfl⟩ := h
    exact ⟨h, hs⟩

theorem skipSpace_mark {c : UInt8} (hc : isSpace c = false) (s : Octets) :
    skipSpace (c :: s) = c :: s := by
  simp [skipSpace, hc]

theorem octets_marks : Text.octets "\x7b" = [0x7b] ∧ Text.octets "\x7d" = [0x7d] ∧
    Text.octets "," = [0x2c] ∧ Text.octets ":" = [0x3a] := by
  simp only [Text.octets_eq]
  decide

theorem eq_of_skipSpace {c d : UInt8} {s t : Octets} (hc : isSpace c = false)
    (h : skipSpace (c :: s) = d :: t) : d = c ∧ t = s := by
  rw [skipSpace_mark hc] at h
  cases h
  exact ⟨rfl, rfl⟩

theorem readsBack_quote (t : String) : ReadsBack string (quote t) t := by
  intro r
  obtain ⟨u, hu, ht⟩ := text_quote t r
  obtain ⟨v, hv, rfl, rfl⟩ := takes_iff.1 ht
  rw [hu, takes_iff, string]
  split
  · next hs =>
    rw [skipSpace_mark (by decide)] at hs
    cases hs
  · next c s hs =>
    obtain ⟨rfl, rfl⟩ := eq_of_skipSpace (by decide) hs
    exact ⟨_, by rw [if_pos rfl, hv], rfl, rfl⟩

theorem ReadsBack.map {rd : Reader α} {w : String} {a : α} (h : ReadsBack rd w a) (f : α → β) :
    ReadsBack (rd.map f) w (f a) := by
  intro r
  obtain ⟨hlt, hr⟩ := h r
  exact ⟨hlt, by rw [Reader.map, hr]⟩

def writeMember (m : String × String) : String := quote m.1 ++ ":" ++ m.2

def writeMembers (ms : List (String × String)) : String := ",".intercalate (ms.map writeMember)

inductive Follows (member : String → σ → Except Fault (Reader σ)) (e : σ) :
    Octets → σ → Octets → Prop
  | close (r : Octets) : Follows member e (0x7d :: r) e r
  | more {s r : Octets} {f : σ} (h : Takes (membersFrom member e) s f r) :
      Follows member e (0x2c :: s) f r

inductive Gathers (member : String → σ → Except Fault (Reader σ)) :
    List (String × String) → σ → σ → Prop
  | nil (d : σ) : Gathers member [] d d
  | cons {k w : String} {ms : List (String × String)} {d e f : σ} {rd : Reader σ}
      (hk : member k d = .ok rd) (hw : ReadsBack rd w e) (hms : Gathers member ms e f) :
      Gathers member ((k, w) :: ms) d f

variable {member : String → σ → Except Fault (Reader σ)} {d e f : σ} {rd : Reader σ} {k w : String}
  {ms : List (String × String)} {s r : Octets}

theorem octets_writeMember (m : String × String) :
    Text.octets (writeMember m) ++ s =
      Text.octets (quote m.1) ++ 0x3a :: (Text.octets m.2 ++ s) := by
  obtain ⟨-, -, -, hcolon⟩ := octets_marks
  simp [writeMember, Text.octets_append, hcolon]

theorem octets_writeMembers_cons (m : String × String) (hne : ms ≠ []) :
    Text.octets (writeMembers (m :: ms)) ++ s =
      Text.octets (writeMember m) ++ 0x2c :: (Text.octets (writeMembers ms) ++ s) := by
  obtain ⟨-, -, hcomma, -⟩ := octets_marks
  have hms : ms.map writeMember ≠ [] := by simpa using hne
  rw [writeMembers, List.map_cons, String.intercalate_cons_of_ne_nil hms, Text.octets_append,
    Text.octets_append, hcomma]
  simp [writeMembers]

theorem Follows.skipSpace_eq (h : Follows member e s f r) : skipSpace s = s := by
  cases h <;> exact skipSpace_mark (by decide) _

theorem takes_membersFrom (hk : member k d = .ok rd) (hw : ReadsBack rd w e)
    (hs : Follows member e s f r) :
    Takes (membersFrom member d) (Text.octets (writeMember (k, w)) ++ s) f r := by
  obtain ⟨u, hu, htext⟩ := text_quote k (0x3a :: (Text.octets w ++ s))
  obtain ⟨x, hx, rfl, hxr⟩ := takes_iff.1 htext
  obtain ⟨y, hy, rfl, hyr⟩ := takes_iff.1 (hw s)
  rw [octets_writeMember, hu, takes_iff, membersFrom]
  split
  · next h =>
    rw [skipSpace_mark (by decide)] at h
    cases h
  · next c t h =>
    obtain ⟨rfl, rfl⟩ := eq_of_skipSpace (by decide) h
    simp only [ne_eq, not_true_eq_false, if_false, hx, hk]
    split
    · next h =>
      rw [hxr, skipSpace_mark (by decide)] at h
      cases h
    · next c v h =>
      rw [hxr] at h
      obtain ⟨rfl, rfl⟩ := eq_of_skipSpace (by decide) h
      simp only [not_true_eq_false, if_false, hy]
      -- the value is read; what stands behind it ends the object or goes on with the next member
      split
      · next h =>
        rw [hyr, hs.skipSpace_eq] at h
        subst h
        cases hs
      · next c t h =>
        rw [hyr, hs.skipSpace_eq] at h
        subst h
        cases hs with
        | close => exact ⟨_, if_pos rfl, rfl, rfl⟩
        | more h =>
          obtain ⟨z, hz, rfl, rfl⟩ := takes_iff.1 h
          exact ⟨_, by rw [if_neg (by decide), if_pos rfl, hz], rfl, rfl⟩

theorem Gathers.takes_membersFrom (h : Gathers member ms d f) (hne : ms ≠ []) (r : Octets) :
    Takes (membersFrom member d) (Text.octets (writeMembers ms) ++ 0x7d :: r) f r := by
  induction h with
  | nil => exact absurd rfl hne
  | @cons k w ms d e f rd hk hw hms ih =>
    by_cases hnil : ms = []
    · subst hnil
      cases hms
      rw [writeMembers, List.map_singleton, String.intercalate_singleton]
      exact Json.takes_membersFrom hk hw (.close r)
    · rw [octets_writeMembers_cons _ hnil]
      exact Json.takes_membersFrom hk hw (.more (ih hnil))

theorem exists_of_takes_membersFrom (h : Takes (membersFrom member d) s f r) :
    ∃ u, skipSpace s = 0x22 :: u := by
  obtain ⟨x, hx, -⟩ := takes_iff.1 h
  rw [membersFrom] at hx
  split at hx
  · cases hx
  · next c u hs =>
    by_cases hc : c = 0x22
    · exact ⟨u, hc ▸ hs⟩
    · simp only [if_pos hc] at hx
      cases hx

theorem Gathers.takes_objectTail (h : Gathers member ms d f) (r : Octets) :
    Takes (objectTail member d) (Text.octets (writeMembers ms) ++ 0x7d :: r) f r := by
  by_cases hne : ms = []
  · subst hne
    cases h
    have hempty : Text.octets (writeMembers []) = [] := rfl
    rw [hempty, List.nil_append, takes_iff, objectTail]
    split
    · next hs =>
      rw [skipSpace_mark (by decide)] at hs
      cases hs
    · next c s hs =>
      obtain ⟨rfl, rfl⟩ := eq_of_skipSpace (by decide) hs
      exact ⟨_, if_pos rfl, rfl, rfl⟩
  · have hmembers := h.takes_membersFrom hne r
    obtain ⟨u, hu⟩ := exists_of_takes_membersFrom hmembers
    obtain ⟨x, hx, hv, hr⟩ := takes_iff.1 hmembers
    rw [takes_iff, objectTail]
    split
    · next hs =>
      rw [hu] at hs
      cases hs
    · next c s hs =>
      rw [hu] at hs
      obtain ⟨rfl, rfl⟩ := List.cons.inj hs
      exact ⟨x, by rw [if_neg (by decide), hx], hv, hr⟩

theorem octets_writeObject (ms : List (String × String)) (r : Octets) :
    Text.octets (writeObject ms) ++ r =
      0x7b :: (Text.octets (writeMembers ms) ++ 0x7d :: r) := by
  obtain ⟨hopen, hclose, -, -⟩ := octets_marks
  change Text.octets ("\x7b" ++ writeMembers ms ++ "\x7d") ++ r = _
  rw [Text.octets_append, Text.octets_append, hopen, hclose]
  simp only [List.append_assoc, List.cons_append, List.nil_append]

theorem gathers_insert {rd : Reader α} {write : α → String} {l : List (String × α)}
    (h : ∀ e ∈ l, ReadsBack rd (write e.2) e.2) (b : Bindings α) :
    Gathers (fun k b => .ok (rd.map (b.insert k))) (l.map fun e => (e.1, write e.2)) b
      (b.insertAll l) := by
  induction l generalizing b with
  | nil => exact .nil b
  | cons e l ih =>
    obtain ⟨he, hl⟩ := List.forall_mem_cons.1 h
    exact .cons rfl (he.map (b.insert e.1)) (ih hl (b.insert e.1 e.2))

theorem readsBack_map {rd : Reader α} {write : α → String} {b : Bindings α}
    (h : ∀ e ∈ b.entries, ReadsBack rd (write e.2) e.2) :
    ReadsBack (map rd) (writeObject (b.entries.map fun e => (e.1, write e.2))) b := by
  intro r
  have htail := (gathers_insert h ∅).takes_objectTail r
  rw [Bindings.insertAll_entries] at htail
  obtain ⟨x, hx, hv, hrest⟩ := takes_iff.1 htail
  rw [octets_writeObject, takes_iff, map]
  split
  · next hs =>
    rw [skipSpace_mark (by decide)] at hs
    cases hs
  · next c s hs =>
    obtain ⟨rfl, rfl⟩ := eq_of_skipSpace (by decide) hs
    exact ⟨_, by rw [if_pos rfl, hx], hv, hrest⟩

theorem Gathers.field {fields : List (Field σ)} {name : String} {get : σ → Option α}
    {set : σ → α → σ} {rd : Reader α} {a : α}
    (hf : (fields.find? fun g => g.name = name) = some (.of name get set rd)) (hd : get d = none)
    (hw : ReadsBack rd w a) (hms : Gathers (fieldMember fields) ms (set d a) f) :
    Gathers (fieldMember fields) ((name, w) :: ms) d f := by
  have hk : fieldMember fields name d = .ok (rd.map (set d)) := by
    simp [fieldMember, hf, Field.of, hd]
  exact .cons hk (hw.map (set d)) hms

theorem readsBack_record {fields : List (Field σ)} {empty : σ} {finish : σ → Option α} {a : α}
    (h : Gathers (fieldMember fields) ms empty d) (hd : finish d = some a) :
    ReadsBack (record fields empty finish) (writeObject ms) a := by
  intro r
  obtain ⟨x, hx, hv, hrest⟩ := takes_iff.1 (h.takes_objectTail r)
  rw [octets_writeObject, takes_iff, record]
  split
  · next hs =>
    rw [skipSpace_mark (by decide)] at hs
    cases hs
  · next c s hs =>
    obtain ⟨rfl, rfl⟩ := eq_of_skipSpace (by decide) hs
    simp only [if_true, hx, hv, hd]
    exact ⟨_, rfl, rfl, hrest⟩

theorem ReadsBack.document {rd : Reader α} {w : String} {a : α} (h : ReadsBack rd w a) :
    document rd (Text.octets w) = .ok a := by
  have hr := h []
  rw [List.append_nil] at hr
  obtain ⟨x, hx, rfl, hrest⟩ := takes_iff.1 hr
  simp [Json.document, hx, hrest, skipSpace]

end InfoProtocol.Json
