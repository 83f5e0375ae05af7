import InfoProtocol.Token.Scan
import Mathlib.Data.List.TakeWhile

/-!
# The words of a lexicon

A word read from a text can be written again only if, wherever a text may go on behind it, no
comment opens at its first character. Where the comment mark holds no delimiter, a comment that
opens at a word lies within the word, so every word that was read once can be written anywhere.
Where the mark opens with a character that belongs to no word and is no delimiter, no comment opens
at a word at all, and any run of word characters will do.
-/

namespace InfoProtocol

namespace Lexicon

def isDelimiter (c : Char) : Bool := Text.isBlank c || isPunctuation c

/-- The end of a text, or a place behind which no word can go on. -/
def Delimited (s : List Char) : Prop := ∀ c ∈ s.head?, isDelimiter c = true

/-- The comment mark, if there is one, holds no delimiter. -/
def MarkApart (x : Lexicon) : Prop :=
  ∀ m ∈ x.commentMark, ∀ c ∈ m.toList, isDelimiter c = false

structure Orderly (x : Lexicon) : Prop where
  apart : ∀ c, x.isWordChar c = true → isDelimiter c = false
  no_comment : ∀ c s, isDelimiter c = true → Lexeme.opensComment x (c :: s) = false

structure IsWord (x : Lexicon) (w : String) : Prop where
  nonempty : w.toList ≠ []
  chars : ∀ c ∈ w.toList, x.isWordChar c = true
  no_comment : ∀ s, Delimited s → Lexeme.opensComment x (w.toList ++ s) = false

structure Occurs (x : Lexicon) (w : String) : Prop where
  nonempty : w.toList ≠ []
  chars : ∀ c ∈ w.toList, x.isWordChar c = true
  no_comment : ∃ s, Lexeme.opensComment x (w.toList ++ s) = false

/-- The comment mark, if there is one, opens with a character that is neither a delimiter nor part
of a word. -/
def MarkStandsOut (x : Lexicon) : Prop :=
  ∀ m ∈ x.commentMark, ∀ c ∈ m.toList.head?, isDelimiter c = false ∧ x.isWordChar c = false

def withoutMark (x : Lexicon) : Lexicon := { x with commentMark := none }

variable {x : Lexicon}

theorem delimited_cons {c : Char} {s : List Char} : Delimited (c :: s) ↔ isDelimiter c = true := by
  simp [Delimited]

theorem isDelimiter_of_isWordChar (hx : x.Acceptable) {c : Char} (h : x.isWordChar c = true) :
    isDelimiter c = false := by
  have hc := isWordChar_spec hx h
  rw [isDelimiter, hc.1, hc.2]
  rfl

theorem opensComment_eq_true {s : List Char} :
    Lexeme.opensComment x s = true ↔ ∃ m ∈ x.commentMark, m.toList <+: s := by
  simp only [Lexeme.opensComment]
  cases x.commentMark <;> simp

theorem prefix_of_delimited {m w s : List Char} (hm : ∀ c ∈ m, isDelimiter c = false)
    (hs : Delimited s) (h : m <+: w ++ s) : m <+: w := by
  rcases List.prefix_or_prefix_of_prefix h (List.prefix_append w s) with hp | ⟨t, rfl⟩
  · exact hp
  · -- what reaches beyond `w` begins with the first character of `s`, a delimiter
    have ht : t <+: s := (List.prefix_append_right_inj w).1 h
    cases t with
    | nil => simp
    | cons c t =>
      obtain ⟨u, rfl⟩ := ht
      have hc := hm c (by simp)
      rw [delimited_cons.1 hs] at hc
      cases hc

theorem MarkApart.orderly (hx : x.Acceptable) (hm : x.MarkApart) : x.Orderly where
  apart _ := isDelimiter_of_isWordChar hx
  no_comment c s hc := by
    rw [Bool.eq_false_iff]
    intro ho
    obtain ⟨m, hmark, hp⟩ := opensComment_eq_true.1 ho
    have hnil : m.toList <+: [] :=
      prefix_of_delimited (w := []) (hm m hmark) (delimited_cons.2 hc) hp
    have hempty : m = "" := String.toList_eq_nil_iff.1 (List.prefix_nil.1 hnil)
    exact (acceptable_iff.1 hx).2 (hempty ▸ hmark)

theorem MarkApart.isWord (hm : x.MarkApart) {w : String} (h : x.Occurs w) : x.IsWord w where
  nonempty := h.nonempty
  chars := h.chars
  no_comment t ht := by
    obtain ⟨s, ho⟩ := h.no_comment
    rw [Bool.eq_false_iff]
    intro hopen
    obtain ⟨m, hmark, hp⟩ := opensComment_eq_true.1 hopen
    have hmw : m.toList <+: w.toList := prefix_of_delimited (hm m hmark) ht hp
    have : Lexeme.opensComment x (w.toList ++ s) = true :=
      opensComment_eq_true.2 ⟨m, hmark, hmw.trans (List.prefix_append _ _)⟩
    rw [ho] at this
    cases this

theorem opensComment_cons (hx : x.Acceptable) {c : Char}
    (hc : ∀ m ∈ x.commentMark, c ∉ m.toList.head?) (s : List Char) :
    Lexeme.opensComment x (c :: s) = false := by
  rw [Bool.eq_false_iff]
  intro ho
  obtain ⟨m, hmark, hp⟩ := opensComment_eq_true.1 ho
  cases hml : m.toList with
  | nil => exact (acceptable_iff.1 hx).2 (String.toList_eq_nil_iff.1 hml ▸ hmark)
  | cons d r =>
    rw [hml] at hp
    obtain rfl : d = c := (List.cons_prefix_cons.1 hp).1
    exact hc m hmark (by rw [hml, List.head?_cons, Option.mem_some])

theorem MarkStandsOut.no_comment (hx : x.Acceptable) (hm : x.MarkStandsOut) {c : Char}
    {s : List Char} (hc : isDelimiter c = true ∨ x.isWordChar c = true) :
    Lexeme.opensComment x (c :: s) = false := by
  refine opensComment_cons hx (fun m hmark hhead => ?_) s
  obtain ⟨hd, hw⟩ := hm m hmark c hhead
  rw [hd, hw] at hc
  simp at hc

theorem MarkStandsOut.orderly (hx : x.Acceptable) (hm : x.MarkStandsOut) : x.Orderly where
  apart _ := isDelimiter_of_isWordChar hx
  no_comment _ _ hc := hm.no_comment hx (.inl hc)

theorem MarkStandsOut.isWord (hx : x.Acceptable) (hm : x.MarkStandsOut) {w : String}
    (hne : w.toList ≠ []) (hw : ∀ c ∈ w.toList, x.isWordChar c = true) : x.IsWord w where
  nonempty := hne
  chars := hw
  no_comment s _ := by
    obtain ⟨c, r, hcr⟩ := List.exists_cons_of_ne_nil hne
    rw [hcr] at hw ⊢
    exact hm.no_comment hx (.inr (hw c List.mem_cons_self))

theorem MarkStandsOut.isWord_alphanum (hx : x.Acceptable) (hm : x.MarkStandsOut) {w : String}
    (hne : w.toList ≠ []) (hw : w.toList.all Char.isAlphanum = true) : x.IsWord w :=
  hm.isWord hx hne fun c hc => by rw [isWordChar, List.all_eq_true.1 hw c hc, Bool.true_or]

theorem markStandsOut_default : default.MarkStandsOut := by
  intro m hm c hc
  cases hm
  obtain rfl : '#' = c := by simpa using hc
  decide

theorem withoutMark_standsOut : x.withoutMark.MarkStandsOut := by
  intro m hm
  cases hm

theorem acceptable_withoutMark (hx : x.Acceptable) : x.withoutMark.Acceptable :=
  acceptable_iff.2 ⟨(acceptable_iff.1 hx).1, by simp [withoutMark]⟩

theorem Occurs.isWord_withoutMark (hx : x.Acceptable) {w : String} (h : x.Occurs w) :
    x.withoutMark.IsWord w :=
  withoutMark_standsOut.isWord (acceptable_withoutMark hx) h.nonempty h.chars

end Lexicon

namespace Lexeme

variable {x : Lexicon}

theorem front?_word {s : List Char} {l : Lexeme} (h : front? x s = some l)
    (hl : l.kind = some .word) :
    opensComment x s = false ∧ l.spelling ≠ [] ∧ ∀ c ∈ l.spelling, x.isWordChar c = true := by
  cases front_of_front? h with
  | comment => cases hl
  | sign _ hsign =>
    have hkinds : ∀ l ∈ signs, l.kind ≠ some .word := by decide
    exact absurd hl (hkinds l hsign)
  | blank => cases hl
  | word ho hc =>
    exact ⟨ho, by simp, List.forall_mem_cons.2 ⟨hc, fun d hd => List.mem_takeWhile_imp hd⟩⟩

theorem front?_of_apart {c : Char} {s : List Char} (hc : Lexicon.isDelimiter c = false)
    (ho : opensComment x (c :: s) = false) :
    front? x (c :: s) =
      if x.isWordChar c then some ⟨some .word, c :: s.takeWhile x.isWordChar⟩ else none := by
  have hb : Text.isBlank c = false := (Bool.or_eq_false_iff.1 hc).1
  unfold front?
  rw [if_neg (by simp [ho])]
  split
  case h_11 h =>
    cases h
    rw [if_neg (by simp [hb])]
  all_goals
    next h =>
    cases h <;> exact absurd hc (by decide)

theorem split_cons {c : Char} {s : List Char} {l : Lexeme} (h : front? x (c :: s) = some l)
    (hne : l.spelling ≠ []) :
    split x (c :: s) = (split x ((c :: s).drop l.spelling.length)).cons l := by
  rw [split]
  simp only [h, dif_neg hne]

theorem split_occurs (x : Lexicon) (s : List Char) :
    ∀ l ∈ (split x s).lexemes, l.kind = some .word → x.Occurs (String.ofList l.spelling) := by
  fun_induction split x s with
  | case1 => simp
  | case2 => simp
  | case3 => simp
  | case4 c s l hl hn _ ih =>
    simp only [Split.cons, List.forall_mem_cons]
    refine ⟨fun hk => ?_, ih⟩
    obtain ⟨ho, hne, hw⟩ := front?_word hl hk
    obtain ⟨t, ht⟩ := front?_isPrefix hl
    rw [← ht] at ho
    refine ⟨?_, ?_, t, ?_⟩ <;> rwa [String.toList_ofList]

theorem mem_tokensFrom {p : Place} {ls : List Lexeme} {t : Token} (ht : t ∈ tokensFrom p ls) :
    ∃ l ∈ ls, l.kind = some t.kind ∧ l.text = t.text := by
  induction ls generalizing p with
  | nil => cases ht
  | cons l ls ih =>
    rw [tokensFrom, List.mem_append] at ht
    rcases ht with ht | ht
    · obtain ⟨k, hk, rfl⟩ := Option.map_eq_some_iff.1 (Option.mem_toList.1 ht)
      exact ⟨l, List.mem_cons_self, hk, rfl⟩
    · obtain ⟨m, hm, hmt⟩ := ih ht
      exact ⟨m, List.mem_cons_of_mem l hm, hmt⟩

end Lexeme

namespace Token

variable {x : Lexicon} {source : String} {ts : List Token}

theorem scan_eq_ok : scan x source = .ok ts ↔
    Lexeme.split x source.toList = ⟨(Lexeme.split x source.toList).lexemes, .finished⟩ ∧
      ts = Lexeme.tokensFrom .origin (Lexeme.split x source.toList).lexemes := by
  rw [scan]
  obtain ⟨ls, halt⟩ := Lexeme.split x source.toList
  cases halt <;> simp [eq_comm]

theorem scan_occurs (h : scan x source = .ok ts) :
    ∀ t ∈ ts, t.kind = .word → x.Occurs t.text := by
  intro t ht hk
  obtain ⟨-, rfl⟩ := scan_eq_ok.1 h
  obtain ⟨l, hl, hlk, hlt⟩ := Lexeme.mem_tokensFrom ht
  rw [hk] at hlk
  have hword := Lexeme.split_occurs x source.toList l hl hlk
  rw [← hlt, Lexeme.text, if_neg (by rw [hlk]; decide)]
  exact hword

end Token

end InfoProtocol
