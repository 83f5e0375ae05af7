import InfoProtocol.Token.Layout
import Mathlib.Data.List.Chain

/-!
# What taking the layout off keeps

Blanks and newlines are layout. Taking it off a table leaves all other tokens in their order and, of
each gap before, between and behind them, the first newline; so no blank is left and no two newlines
stand side by side. A part of a table at its front may have its layout taken off beforehand, since
a newline kept at its end goes on to stand for those that follow.
-/

namespace InfoProtocol.Token

def IsLayout (t : Token) : Prop := t.kind = .blank ∨ t.kind = .newline

instance : DecidablePred IsLayout :=
  fun t => inferInstanceAs (Decidable (t.kind = .blank ∨ t.kind = .newline))

def Separated (ts : List Token) : Prop :=
  ts.IsChain fun t u => t.kind = .newline → u.kind ≠ .newline

/-- The layout in front of the first token that is no layout, between each such token and the next,
and behind the last. -/
def gaps (ts : List Token) : List (List Token) := ts.splitOnP fun t => ¬ t.IsLayout

def firstNewline (gap : List Token) : List Token :=
  (gap.find? fun t => t.kind = .newline).toList

variable {b : Bool} {t : Token} {ns ts gap : List Token} {gs : List (List Token)}

theorem dropLayout_separated (b : Bool) (ts : List Token) :
    Separated (dropLayout b ts) ∧ (b = true → ∀ t ∈ (dropLayout b ts).head?, t.kind ≠ .newline) := by
  induction ts generalizing b with
  | nil => simp [dropLayout, Separated]
  | cons t ts ih =>
    simp only [dropLayout]
    split
    · exact ih b
    · split
      · next ht =>
        split
        · exact ⟨(ih true).1, fun _ => (ih true).2 rfl⟩
        · next hb =>
          refine ⟨List.isChain_cons.2 ⟨fun u hu _ => (ih true).2 rfl u hu, (ih true).1⟩, ?_⟩
          exact fun h => absurd h hb
      · next ht =>
        refine ⟨List.isChain_cons.2 ⟨fun u _ h => absurd h ht, (ih false).1⟩, ?_⟩
        intro _ u hu
        cases hu
        exact ht

theorem withoutLayout_separated (ts : List Token) : Separated (withoutLayout ts) :=
  (dropLayout_separated false ts).1

theorem kind_cases (t : Token) : t.kind = .blank ∨ t.kind = .newline ∨ ¬ t.IsLayout := by
  by_cases ht : t.IsLayout
  · exact ht.imp_right .inl
  · exact .inr (.inr ht)

theorem dropLayout_blank (ht : t.kind = .blank) : dropLayout b (t :: ts) = dropLayout b ts := by
  rw [dropLayout, if_pos ht]

theorem dropLayout_newline (ht : t.kind = .newline) :
    dropLayout b (t :: ts) = (bif b then [] else [t]) ++ dropLayout true ts := by
  rw [dropLayout, if_neg (by simp [ht]), if_pos ht]
  cases b <;> rfl

theorem dropLayout_cons (ht : ¬ t.IsLayout) :
    dropLayout b (t :: ts) = t :: dropLayout false ts := by
  obtain ⟨hblank, hnewline⟩ := not_or.1 ht
  rw [dropLayout, if_neg hblank, if_neg hnewline]

theorem dropLayout_append_cons (b : Bool) (pre post : List Token) {t : Token}
    (ht : ¬ t.IsLayout) :
    dropLayout b (pre ++ t :: post) = dropLayout b pre ++ t :: dropLayout false post := by
  induction pre generalizing b with
  | nil => exact dropLayout_cons ht
  | cons u pre ih =>
    rw [List.cons_append]
    rcases kind_cases u with hu | hu | hu
    · rw [dropLayout_blank hu, dropLayout_blank hu, ih]
    · rw [dropLayout_newline hu, dropLayout_newline hu, ih, List.append_assoc]
    · rw [dropLayout_cons hu, dropLayout_cons hu, ih, List.cons_append]

theorem dropLayout_append_of_layout (hns : ∀ n ∈ ns, n.IsLayout) (ts : List Token) :
    dropLayout true (ns ++ ts) = dropLayout true ts := by
  induction ns with
  | nil => rfl
  | cons n ns ih =>
    obtain ⟨hn, hns⟩ := List.forall_mem_cons.1 hns
    rw [List.cons_append, ← ih hns]
    rcases hn with hn | hn
    · exact dropLayout_blank hn
    · exact dropLayout_newline hn

theorem filter_dropLayout (b : Bool) (ts : List Token) :
    (dropLayout b ts).filter (fun t => ¬ t.IsLayout) = ts.filter fun t => ¬ t.IsLayout := by
  induction ts generalizing b with
  | nil => rfl
  | cons t ts ih =>
    rcases kind_cases t with ht | ht | ht
    · have hlayout : t.IsLayout := .inl ht
      rw [dropLayout_blank ht, ih, List.filter_cons_of_neg (by simpa using hlayout)]
    · have hlayout : t.IsLayout := .inr ht
      rw [dropLayout_newline ht, List.filter_append, ih,
        List.filter_cons_of_neg (by simpa using hlayout)]
      cases b <;> simp [hlayout]
    · rw [dropLayout_cons ht, List.filter_cons_of_pos (by simpa using ht), ih,
        List.filter_cons_of_pos (by simpa using ht)]

theorem mem_withoutLayout (h : t ∈ ts) (ht : ¬ t.IsLayout) : t ∈ withoutLayout ts := by
  have hmem : t ∈ ts.filter fun t => ¬ t.IsLayout := List.mem_filter.2 ⟨h, by simpa using ht⟩
  rw [← filter_dropLayout false] at hmem
  exact (List.mem_filter.1 hmem).1

theorem exists_gaps_cons (ts : List Token) : ∃ gap gs, gaps ts = gap :: gs :=
  List.exists_cons_of_ne_nil (List.splitOnP_ne_nil _ ts)

theorem gaps_cons_of_layout (ht : t.IsLayout) (hts : gaps ts = gap :: gs) :
    gaps (t :: ts) = (t :: gap) :: gs := by
  rw [gaps, List.splitOnP_cons_eq_if_modifyHead, if_neg (by simpa using ht)]
  exact congrArg (List.modifyHead (List.cons t)) hts

theorem gaps_cons_of_not_layout (ht : ¬ t.IsLayout) : gaps (t :: ts) = [] :: gaps ts := by
  rw [gaps, List.splitOnP_cons_eq_if_modifyHead, if_pos (by simpa using ht)]
  rfl

theorem firstNewline_blank (ht : t.kind = .blank) : firstNewline (t :: gap) = firstNewline gap := by
  rw [firstNewline, List.find?_cons_of_neg (by simp [ht])]
  rfl

theorem firstNewline_newline (ht : t.kind = .newline) : firstNewline (t :: gap) = [t] := by
  rw [firstNewline, List.find?_cons_of_pos (by simpa using ht)]
  rfl

theorem gaps_dropLayout (h : gaps ts = gap :: gs) :
    gaps (dropLayout b ts) = (bif b then [] else firstNewline gap) :: gs.map firstNewline := by
  induction ts generalizing b gap gs with
  | nil =>
    cases h
    cases b <;> rfl
  | cons t ts ih =>
    obtain ⟨first, rest, hts⟩ := exists_gaps_cons ts
    rcases kind_cases t with ht | ht | ht
    · rw [gaps_cons_of_layout (.inl ht) hts] at h
      cases h
      rw [dropLayout_blank ht, ih hts, firstNewline_blank ht]
    · rw [gaps_cons_of_layout (.inr ht) hts] at h
      cases h
      rw [dropLayout_newline ht, firstNewline_newline ht]
      cases b with
      | true => exact ih hts
      | false => exact gaps_cons_of_layout (.inr ht) (ih hts)
    · rw [gaps_cons_of_not_layout ht, hts] at h
      cases h
      rw [dropLayout_cons ht, gaps_cons_of_not_layout ht, ih hts]
      cases b <;> rfl

theorem gaps_withoutLayout (ts : List Token) :
    gaps (withoutLayout ts) = (gaps ts).map firstNewline := by
  obtain ⟨gap, gs, hts⟩ := exists_gaps_cons ts
  rw [withoutLayout, gaps_dropLayout hts, hts]
  rfl

theorem dropLayout_dropLayout_append (b : Bool) (ts us : List Token) :
    dropLayout b (dropLayout b ts ++ us) = dropLayout b (ts ++ us) := by
  induction ts generalizing b with
  | nil => rfl
  | cons t ts ih =>
    rw [List.cons_append]
    rcases kind_cases t with ht | ht | ht
    · rw [dropLayout_blank ht, dropLayout_blank ht, ih]
    · rw [dropLayout_newline ht, dropLayout_newline ht, ← ih]
      cases b with
      | true => rfl
      | false => exact dropLayout_newline ht
    · rw [dropLayout_cons ht, dropLayout_cons ht, List.cons_append, dropLayout_cons ht, ih]

theorem withoutLayout_append (ts us : List Token) :
    withoutLayout (ts ++ us) = withoutLayout (withoutLayout ts ++ us) :=
  (dropLayout_dropLayout_append false ts us).symm

theorem withoutLayout_withoutLayout (ts : List Token) :
    withoutLayout (withoutLayout ts) = withoutLayout ts := by
  have h := withoutLayout_append ts []
  rwa [List.append_nil, List.append_nil, eq_comm] at h

/-- What is left is a part of the table in its order, without blanks and without two newlines side
by side. It holds every token that is no layout and, of each gap, the first newline if there is one.
So it comes to the same if the layout was taken off before, of the whole or of a front part. -/
theorem withoutLayout_exact (ts : List Token) :
    (withoutLayout ts).Sublist ts ∧ (∀ t ∈ withoutLayout ts, t.kind ≠ .blank) ∧
      Separated (withoutLayout ts) ∧
      (withoutLayout ts).filter (fun t => ¬ t.IsLayout) = ts.filter (fun t => ¬ t.IsLayout) ∧
      gaps (withoutLayout ts) = (gaps ts).map firstNewline ∧
      withoutLayout (withoutLayout ts) = withoutLayout ts ∧
      ∀ us, withoutLayout (ts ++ us) = withoutLayout (withoutLayout ts ++ us) := by
  exact ⟨withoutLayout_sublist ts, dropLayout_no_blank false ts, withoutLayout_separated ts,
    filter_dropLayout false ts, gaps_withoutLayout ts, withoutLayout_withoutLayout ts,
    withoutLayout_append ts⟩

end InfoProtocol.Token
