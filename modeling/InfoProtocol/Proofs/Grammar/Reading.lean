import InfoProtocol.Grammar
import InfoProtocol.Proofs.Grammar.Spelling

/-!
# Readings read their phrases

A reading reads a phrase when it succeeds exactly on the lists of tokens that begin with a
spelling of its result, and leaves what follows. Readings one after the other read the phrases
one after the other, so each section of the grammar is settled on its own, up to the closing
brace. Lists between commas need an induction of their own, since a group of words is judged only
at the token behind it.
-/

namespace InfoProtocol.Grammar

variable {α β : Type}

def Reads (r : Reading α) (R : Phrase α) : Prop :=
  ∀ ts a us, r ts = .ok a us ↔ ∃ pre, ts = pre ++ us ∧ R (pre.map Token.sign) a

/-- One phrase after another; the second may depend on what the first spells. -/
def Phrase.andThen (R : Phrase α) (S : α → Phrase β) : Phrase β := fun gs b =>
  ∃ a hs ks, gs = hs ++ ks ∧ R hs a ∧ S a ks b

theorem Reads.congr {r : Reading α} {R S : Phrase α} (h : Reads r R)
    (hRS : ∀ gs a, R gs a ↔ S gs a) : Reads r S := by
  intro ts a us
  rw [h ts a us]
  simp only [hRS]

theorem Reads.bind {r : Reading α} {f : α → Reading β} {R : Phrase α} {S : α → Phrase β}
    (hr : Reads r R) (hf : ∀ a, Reads (f a) (S a)) : Reads (r >>= f) (R.andThen S) := by
  intro ts b us
  rw [bind_ok]
  constructor
  · intro h
    obtain ⟨a, vs, hv, hu⟩ := h
    obtain ⟨pre, rfl, hR⟩ := (hr ts a vs).1 hv
    obtain ⟨mid, rfl, hS⟩ := (hf a vs b us).1 hu
    exact ⟨pre ++ mid, by simp, a, _, _, List.map_append, hR, hS⟩
  · intro h
    obtain ⟨pre, rfl, a, hs, ks, hpre, hR, hS⟩ := h
    obtain ⟨p₁, p₂, rfl, rfl, rfl⟩ := List.map_eq_append_iff.1 hpre
    refine ⟨a, p₂ ++ us, (hr _ a _).2 ⟨p₁, by simp, hR⟩, (hf a _ b us).2 ⟨p₂, rfl, hS⟩⟩

theorem reads_pure (a : α) : Reads (pure a) fun gs b => gs = [] ∧ b = a := by
  intro ts b us
  change EStateM.Result.ok a ts = .ok b us ↔ _
  constructor
  · intro h
    cases h
    exact ⟨[], rfl, rfl, rfl⟩
  · intro h
    obtain ⟨pre, rfl, hpre, rfl⟩ := h
    rw [List.map_eq_nil_iff] at hpre
    rw [hpre]
    rfl

theorem Phrase.andThen_word {P : String → Prop} {S : String → Phrase β} {gs : List Sign} {b : β} :
    Phrase.andThen (fun gs w => gs = [.word w] ∧ P w) S gs b ↔
      ∃ w ks, gs = .word w :: ks ∧ P w ∧ S w ks b := by
  constructor
  · intro h
    obtain ⟨w, _, ks, rfl, ⟨rfl, hw⟩, hS⟩ := h
    exact ⟨w, ks, rfl, hw, hS⟩
  · intro h
    obtain ⟨w, ks, rfl, hw, hS⟩ := h
    exact ⟨w, [.word w], ks, rfl, ⟨rfl, hw⟩, hS⟩

theorem Phrase.andThen_mark {k : TokenKind} {S : Unit → Phrase β} {gs : List Sign} {b : β} :
    Phrase.andThen (fun gs _ => gs = [.mark k]) S gs b ↔ ∃ ks, gs = .mark k :: ks ∧ S () ks b := by
  constructor
  · intro h
    obtain ⟨_, _, ks, rfl, rfl, hS⟩ := h
    exact ⟨ks, rfl, hS⟩
  · intro h
    obtain ⟨ks, rfl, hS⟩ := h
    exact ⟨(), [.mark k], ks, rfl, rfl, hS⟩

theorem reads_takeAs (e : Expected) {k : TokenKind} (hk : k ≠ .word) :
    Reads (takeAs e k) fun gs _ => gs = [.mark k] := by
  intro ts a us
  simp only [takeAs, bind_ok, peekAs_ok]
  constructor
  · intro h
    obtain ⟨t, vs, ⟨rfl, ht, ws, rfl⟩, h⟩ := h
    cases h
    exact ⟨[t], rfl, by simpa using (Token.sign_eq_mark hk).2 ht⟩
  · intro h
    obtain ⟨pre, rfl, hpre⟩ := h
    obtain ⟨t, rfl, ht⟩ := List.map_eq_singleton_iff.1 hpre
    exact ⟨t, _, ⟨rfl, (Token.sign_eq_mark hk).1 ht, us, rfl⟩, rfl⟩

theorem reads_take {k : TokenKind} (hk : k ≠ .word) :
    Reads (take k) fun gs _ => gs = [.mark k] :=
  reads_takeAs _ hk

theorem reads_word {f : Token → Reading β} {P : String → β → Prop}
    (hf : ∀ t ts b us, f t (t :: ts) = .ok b us ↔ us = ts ∧ P t.text b) :
    Reads (word >>= f) fun gs b => ∃ w, gs = [.word w] ∧ P w b := by
  intro ts b us
  simp only [bind_ok, word, peekAs_ok]
  constructor
  · intro h
    obtain ⟨t, vs, ⟨rfl, ht, ws, rfl⟩, h⟩ := h
    obtain ⟨rfl, hP⟩ := (hf t ws b us).1 h
    exact ⟨[t], rfl, t.text, by simpa using Token.sign_eq_word.2 ⟨ht, rfl⟩, hP⟩
  · intro h
    obtain ⟨pre, rfl, w, hpre, hP⟩ := h
    obtain ⟨t, rfl, ht⟩ := List.map_eq_singleton_iff.1 hpre
    obtain ⟨hk, rfl⟩ := Token.sign_eq_word.1 ht
    exact ⟨t, _, ⟨rfl, hk, us, rfl⟩, (hf t us b us).2 ⟨rfl, hP⟩⟩

theorem nameOf_ok {t : Token} {n : String} : nameOf t = .ok n ↔ n = t.text ∧ Free t.text := by
  simp only [nameOf, Free]
  split
  · next h => simp [h]
  · next h => simp [h, eq_comm]

theorem reads_name : Reads name fun gs n => gs = [.word n] ∧ Free n := by
  refine (reads_word (P := fun w n => n = w ∧ Free w) fun t ts n us => ?_).congr fun gs n => ?_
  · simp only [bind_ok]
    constructor
    · intro h
      obtain ⟨m, vs, hm, _, ws, hw, hu⟩ := h
      cases hn : nameOf t with
      | error e =>
        rw [hn] at hm
        cases hm
      | ok k =>
        rw [hn] at hm
        cases hm
        cases hw
        cases hu
        exact ⟨rfl, nameOf_ok.1 hn⟩
    · intro h
      obtain ⟨rfl, hn⟩ := h
      rw [← nameOf_ok] at hn
      rw [hn]
      exact ⟨n, _, rfl, (), us, rfl, rfl⟩
  · constructor
    · intro h
      obtain ⟨w, rfl, rfl, hw⟩ := h
      exact ⟨rfl, hw⟩
    · intro h
      obtain ⟨rfl, hn⟩ := h
      exact ⟨n, rfl, rfl, hn⟩

theorem reads_keyword (w : String) : Reads (keyword w) fun gs _ => gs = [.word w] := by
  refine (reads_word (P := fun v _ => v = w) fun t ts b us => ?_).congr fun gs _ => ?_
  · by_cases h : t.text = w
    · rw [if_pos h]
      constructor
      · intro he
        cases he
        exact ⟨rfl, h⟩
      · intro h
        obtain ⟨rfl, -⟩ := h
        rfl
    · rw [if_neg h]
      simp only [h, and_false, iff_false]
      intro he
      cases he
  · simp

theorem reads_declaredRole (roles : List Role) :
    Reads (declaredRole roles) fun gs r => gs = [.word r] ∧ r ∈ roles := by
  refine (reads_word (P := fun w r => r = w ∧ w ∈ roles) fun t ts b us => ?_).congr
    fun gs r => ?_
  · by_cases h : t.text ∈ roles
    · rw [if_pos (List.contains_iff_mem.2 h)]
      constructor
      · intro he
        cases he
        exact ⟨rfl, rfl, h⟩
      · intro h
        obtain ⟨rfl, rfl, -⟩ := h
        rfl
    · rw [if_neg (by simpa using h)]
      simp only [h, and_false, iff_false]
      intro he
      cases he
  · constructor
    · intro h
      obtain ⟨w, rfl, rfl, hw⟩ := h
      exact ⟨rfl, hw⟩
    · intro h
      obtain ⟨rfl, hr⟩ := h
      exact ⟨r, rfl, rfl, hr⟩

end InfoProtocol.Grammar
