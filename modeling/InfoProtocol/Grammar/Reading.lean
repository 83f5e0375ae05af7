import InfoProtocol.Grammar.Fault

/-!
# Readings of a list of tokens

The state of a reading is the list of tokens still ahead. At a fault it is the list with the
offending token in front. A word is looked at in place, and passed over once it will do. Readings
keep the input or shrink it, which is what bounds the loops over it.
-/

namespace InfoProtocol.Grammar

abbrev Reading := EStateM Fault (List Token)

variable {α β : Type}

def peekAs (e : Expected) (k : TokenKind) : Reading Token
  | [] => .error (.inputEnds e) []
  | t :: ts => if t.kind = k then .ok t (t :: ts) else .error (.unexpected e t.text t.line) (t :: ts)

def advance : Reading Unit
  | [] => .ok () []
  | _ :: ts => .ok () ts

def takeAs (e : Expected) (k : TokenKind) : Reading Unit := do
  let _ ← peekAs e k
  advance

def take (k : TokenKind) : Reading Unit := takeAs (.kind k) k

def optional (k : TokenKind) : Reading Unit
  | [] => .ok () []
  | t :: ts => if t.kind = k then .ok () ts else .ok () (t :: ts)

def skipNewlines : Reading Unit := fun ts => .ok () (ts.dropWhile fun t => t.kind = .newline)

def ofExcept : Except Fault α → Reading α
  | .ok a => fun ts => .ok a ts
  | .error e => fun ts => .error e ts

def nameOf (t : Token) : Except Fault String :=
  if isReserved t.text then .error (.reserved t.text t.line) else .ok t.text

def word : Reading Token := peekAs (.kind .word) .word

def name : Reading String := do
  let t ← word
  let n ← ofExcept (nameOf t)
  advance
  return n

def keyword (w : String) : Reading Unit := do
  let t ← word
  if t.text = w then advance
  else throw (.unexpected (.keyword w) t.text t.line)

def declaredRole (roles : List Role) : Reading Role := do
  let t ← word
  if roles.contains t.text then
    advance
    return t.text
  else throw (.unexpected .declaredRole t.text t.line)

def Keeps (r : Reading α) : Prop := ∀ ts a us, r ts = .ok a us → us.length ≤ ts.length

def Shrinks (r : Reading α) : Prop := ∀ ts a us, r ts = .ok a us → us.length < ts.length

theorem Shrinks.keeps {r : Reading α} (h : Shrinks r) : Keeps r :=
  fun ts a us e => Nat.le_of_lt (h ts a us e)

theorem bind_ok {r : Reading α} {f : α → Reading β} {ts us : List Token} {b : β} :
    (r >>= f) ts = .ok b us ↔ ∃ a vs, r ts = .ok a vs ∧ f a vs = .ok b us := by
  change EStateM.bind r f ts = _ ↔ _
  unfold EStateM.bind
  cases r ts with
  | ok a vs =>
    constructor
    · intro h
      exact ⟨a, vs, rfl, h⟩
    · intro h
      obtain ⟨a', vs', h, hb⟩ := h
      cases h
      exact hb
  | error e vs => simp

theorem Keeps.bind {r : Reading α} {f : α → Reading β} (hr : Keeps r) (hf : ∀ a, Keeps (f a)) :
    Keeps (r >>= f) := by
  intro ts b us h
  obtain ⟨a, vs, hv, hu⟩ := bind_ok.1 h
  exact Nat.le_trans (hf a vs b us hu) (hr ts a vs hv)

theorem Shrinks.bind {r : Reading α} {f : α → Reading β} (hr : Shrinks r)
    (hf : ∀ a, Keeps (f a)) : Shrinks (r >>= f) := by
  intro ts b us h
  obtain ⟨a, vs, hv, hu⟩ := bind_ok.1 h
  exact Nat.lt_of_le_of_lt (hf a vs b us hu) (hr ts a vs hv)

theorem keeps_pure (a : α) : Keeps (pure a : Reading α) := by
  intro ts b us h
  cases h
  exact Nat.le_refl _

theorem peekAs_ok {e : Expected} {k : TokenKind} {ts us : List Token} {t : Token} :
    peekAs e k ts = .ok t us ↔ us = ts ∧ t.kind = k ∧ ∃ vs, ts = t :: vs := by
  cases ts with
  | nil => simp [peekAs]
  | cons a r =>
    simp only [peekAs]
    split
    · next h =>
      simp only [EStateM.Result.ok.injEq, List.cons.injEq]
      constructor
      · intro h
        obtain ⟨rfl, rfl⟩ := h
        exact ⟨rfl, h, r, rfl, rfl⟩
      · intro h
        obtain ⟨rfl, -, vs, rfl, rfl⟩ := h
        exact ⟨rfl, rfl⟩
    · next h =>
      simp only [reduceCtorEq, List.cons.injEq, false_iff, not_and, not_exists]
      rintro - hk vs rfl
      exact absurd hk h

theorem shrinks_peek_advance {e : Expected} {k : TokenKind} {f : Token → Reading β}
    (hf : ∀ t ts b us, f t (t :: ts) = .ok b us → us.length ≤ ts.length) :
    Shrinks (peekAs e k >>= f) := by
  intro ts b us h
  obtain ⟨t, vs, hv, hu⟩ := bind_ok.1 h
  obtain ⟨rfl, -, ws, rfl⟩ := peekAs_ok.1 hv
  exact Nat.lt_succ_of_le (hf t ws b us hu)

theorem shrinks_takeAs (e : Expected) (k : TokenKind) : Shrinks (takeAs e k) :=
  shrinks_peek_advance fun t ts b us h => by
    cases h
    exact Nat.le_refl _

theorem shrinks_name : Shrinks name :=
  shrinks_peek_advance fun t ts b us h => by
    obtain ⟨n, vs, hv, hu⟩ := bind_ok.1 h
    cases hn : nameOf t with
    | error e => rw [hn] at hv; cases hv
    | ok m => rw [hn] at hv; cases hv; cases hu; exact Nat.le_refl _

theorem shrinks_declaredRole (roles : List Role) : Shrinks (declaredRole roles) :=
  shrinks_peek_advance fun t ts b us h => by
    split at h
    · cases h; exact Nat.le_refl _
    · cases h

end InfoProtocol.Grammar
