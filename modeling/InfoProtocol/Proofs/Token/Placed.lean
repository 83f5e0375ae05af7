import InfoProtocol.Proofs.Lexeme.Pieces

/-!
# Tokens in their places

A text splits into the spellings of its tokens and the comments between them, without gaps. Where a
token stands is said by the text in front of it: its line by the line feeds there, of which each
line break holds one, and its column by the characters behind the last of them. The scan follows
this splitting up to the end of the text, or up to a character at which nothing can start.
-/

namespace InfoProtocol

namespace Lexeme

def Place.behind (s : List Char) : Place :=
  ⟨1 + s.count '\n', (s.reverse.takeWhile fun c => c ≠ '\n').length⟩

def tokenBehind (s : List Char) (k : TokenKind) (w : List Char) : Token :=
  ⟨k, Lexeme.text ⟨some k, w⟩, (Place.behind s).line, (Place.behind s).column⟩

/-- Behind the text `s`, the text `t` splits into tokens and comments up to `rest`, and `ts` are the
tokens. A word or a run of blanks is as long as it can be on both sides. -/
inductive Splits (x : Lexicon) (comment : List Char → List Char → Prop) :
    List Char → List Char → List Token → List Char → Prop
  | stop (s rest : List Char) : Splits x comment s rest [] rest
  | token {s w t rest : List Char} {ts : List Token} {k : TokenKind} (hw : Spells x k w t)
      (hbefore : ∀ c ∈ s.getLast?, ¬ GoesOn x k (c :: (w ++ t))) (hafter : ¬ GoesOn x k t)
      (ht : Splits x comment (s ++ w) t ts rest) :
      Splits x comment s (w ++ t) (tokenBehind s k w :: ts) rest
  | comment {s w t rest : List Char} {ts : List Token} (hw : comment w t)
      (ht : Splits x comment (s ++ w) t ts rest) : Splits x comment s (w ++ t) ts rest

variable {x : Lexicon} {s w t : List Char} {k : TokenKind} {l : Lexeme}

theorem Place.behind_append (hw : '\n' ∉ w) :
    Place.behind (s ++ w) = ⟨(Place.behind s).line, (Place.behind s).column + w.length⟩ := by
  have hall : ∀ c ∈ w.reverse, decide (c ≠ '\n') = true := by
    intro c hc
    apply decide_eq_true
    rintro rfl
    exact hw (List.mem_reverse.1 hc)
  rw [behind, List.count_append, List.count_eq_zero.2 hw, List.reverse_append,
    List.takeWhile_append_of_pos hall, List.length_append, List.length_reverse, Nat.add_comm w.length]
  rfl

theorem Place.behind_append_lineFeed (hw : '\n' ∉ w) :
    Place.behind (s ++ (w ++ ['\n'])) = ⟨(Place.behind s).line + 1, 0⟩ := by
  rw [behind, List.count_append, List.count_append, List.count_eq_zero.2 hw]
  simp [behind, Nat.add_assoc]

theorem Spells.no_lineFeed (hx : x.Acceptable) (h : Spells x k w t) (hk : k ≠ .newline) :
    '\n' ∉ w := by
  cases h with
  | lineFeed => exact absurd rfl hk
  | returnLineFeed => exact absurd rfl hk
  | mark hk => cases k <;> first | exact absurd hk (by decide) | decide
  | word hne hw => exact fun hmem => not_isWordChar hx (by decide) (hw _ hmem)
  | blank hne hw hwt => exact hwt.no_lineFeed

theorem Piece.behind_eq (hx : x.Acceptable) (h : Piece x l t) (s : List Char) :
    Place.behind (s ++ l.spelling) = (Place.behind s).after l := by
  obtain ⟨k, w⟩ := l
  cases k with
  | none => exact Place.behind_append (Comment.unbroken h).no_lineFeed
  | some k =>
    by_cases hk : k = .newline
    · subst hk
      obtain ⟨hw, -⟩ := h
      cases hw with
      | lineFeed => exact Place.behind_append_lineFeed (w := []) (by simp)
      | returnLineFeed => exact Place.behind_append_lineFeed (w := ['\r']) (by simp)
      | mark hk => exact absurd (by decide) hk
    · rw [Place.after, if_neg (by simpa using hk)]
      exact Place.behind_append (h.1.no_lineFeed hx hk)

def Halts (x : Lexicon) (rest : List Char) : Halt → Prop
  | .finished => rest = []
  | .unexpected c => rest.head? = some c ∧ Blocked x rest
  | .endless => False

theorem Splits.piece {ts : List Token} {rest : List Char} (hl : Piece x l t)
    (hs : Cut x s (l.spelling ++ t)) (ht : Splits x (Comment x) (s ++ l.spelling) t ts rest) :
    Splits x (Comment x) s (l.spelling ++ t) ((l.tokenAt (Place.behind s)).toList ++ ts) rest := by
  obtain ⟨k, w⟩ := l
  cases k with
  | none => exact .comment hl ht
  | some k => exact .token hl.1 (hl.1.not_goesOn_before hs) hl.2 ht

theorem splits_of_split (hx : x.Acceptable) (hm : x.MarkInLine) (s t : List Char)
    (hst : Cut x s t) : ∃ mid rest, t = mid ++ rest ∧
      Splits x (Comment x) s t (tokensFrom (Place.behind s) (split x t).lexemes) rest ∧
      endFrom (Place.behind s) (split x t).lexemes = Place.behind (s ++ mid) ∧
      Halts x rest (split x t).halt := by
  fun_induction split x t generalizing s with
  | case1 => exact ⟨[], [], rfl, .stop s [], by simp [endFrom], rfl⟩
  | case2 c t h =>
    exact ⟨[], c :: t, rfl, .stop s _, by simp [endFrom], rfl, blocked_of_front?_eq_none h⟩
  | case3 c t l hl hnil =>
    obtain ⟨_, -, hne, -⟩ := front?_piece hx hm hl
    exact absurd hnil hne
  | case4 c t l hl hne _ ih =>
    obtain ⟨u, hu, -, hpiece⟩ := front?_piece hx hm hl
    rw [hu, List.drop_left] at ih ⊢
    rw [hu] at hst
    have hcut : Cut x (s ++ l.spelling) u := by
      intro k hk d hd
      rw [List.getLast?_append, List.getLast?_eq_some_getLast hne] at hd
      exact hpiece.cut hx k hk d (List.getLast?_eq_some_getLast hne ▸ hd)
    obtain ⟨mid, rest, rfl, hsplits, hend, hhalt⟩ := ih (s ++ l.spelling) hcut
    have hplace := hpiece.behind_eq hx s
    refine ⟨l.spelling ++ mid, rest, by rw [List.append_assoc], ?_, ?_, hhalt⟩
    · rw [Split.cons, tokensFrom, ← hplace]
      exact hsplits.piece hpiece hst
    · rw [← List.append_assoc, ← hend, hplace]
      rfl

end Lexeme

namespace Token

open Lexeme

variable {x : Lexicon}

theorem exists_splits_of_scan (hx : x.Acceptable) (hm : x.MarkInLine) (source : String) :
    ∃ mid rest ts, source.toList = mid ++ rest ∧
      Splits x (Comment x) [] source.toList ts rest ∧
      ((scan x source = .ok ts ∧ rest = []) ∨ ∃ c, rest.head? = some c ∧ Blocked x rest ∧
        scan x source = .error
          (.unexpected c (Place.behind mid).line (Place.behind mid).column)) := by
  have hnil : Cut x [] source.toList := by
    intro k _ c hc
    cases hc
  obtain ⟨mid, rest, hsource, hsplits, hend, hhalt⟩ := splits_of_split hx hm [] _ hnil
  refine ⟨mid, rest, _, hsource, hsplits, ?_⟩
  have hplace : endFrom .origin (split x source.toList).lexemes = Place.behind mid := hend
  rw [scan]
  cases hh : (split x source.toList).halt with
  | finished =>
    rw [hh] at hhalt
    exact .inl ⟨rfl, hhalt⟩
  | unexpected c =>
    rw [hh] at hhalt
    obtain ⟨hc, hblocked⟩ := hhalt
    exact .inr ⟨c, hc, hblocked, by simp only [hplace]⟩
  | endless =>
    rw [hh] at hhalt
    exact hhalt.elim

/-- A text that can be scanned splits into the spellings of its tokens, each in its place, and
comments. A text that cannot splits so up to a character, named with its place, at which neither a
token nor a comment can start. -/
theorem scan_splits (hx : x.Acceptable) (hm : x.MarkInLine) (source : String) :
    (∀ ts, scan x source = .ok ts → Splits x (Comment x) [] source.toList ts [] ∧
      ∀ t ∈ ts, t.stop = t.start + t.text.length) ∧
    (∀ c line column, scan x source = .error (.unexpected c line column) →
      ∃ mid rest ts, source.toList = mid ++ c :: rest ∧
        Splits x (Comment x) [] source.toList ts (c :: rest) ∧
        Place.behind mid = ⟨line, column⟩ ∧ Blocked x (c :: rest)) ∧
    ∀ line, scan x source ≠ .error (.endless line) := by
  obtain ⟨mid, rest, ts, hsource, hsplits, ⟨hscan, rfl⟩ | ⟨c, hc, hblocked, hscan⟩⟩ :=
    exists_splits_of_scan hx hm source
  · rw [hscan]
    refine ⟨fun us h => ?_, fun c line column h => ?_, fun line h => ?_⟩
    · obtain rfl := Except.ok.inj h
      exact ⟨hsplits, fun _ _ => rfl⟩
    · cases h
    · cases h
  · obtain ⟨u, rfl⟩ := List.head?_eq_some_iff.1 hc
    rw [hscan]
    refine ⟨fun us h => ?_, fun d line column h => ?_, fun line h => ?_⟩
    · cases h
    · cases h
      exact ⟨mid, u, ts, hsource, hsplits, rfl, hblocked⟩
    · cases h

theorem markInLine_default : Lexicon.default.MarkInLine := by
  intro m hm
  cases hm
  decide

theorem scan_splits_notes :
    let ts : List Token := [⟨.word, "a", 1, 0⟩, ⟨.newline, "\n", 1, 1⟩, ⟨.newline, "\n", 2, 3⟩,
      ⟨.blank, " \r", 3, 0⟩, ⟨.openBrace, "\x7b", 3, 2⟩]
    Lexicon.default.Acceptable ∧ Lexicon.default.MarkInLine ∧
      scan .default "a\r\n#\r>\n \r\x7b" = .ok ts ∧
      Splits .default (Comment .default) [] "a\r\n#\r>\n \r\x7b".toList ts [] ∧
      scan .default "a\r\n -b" = .error (.unexpected '-' 2 1) ∧
      ∃ mid rest us, "a\r\n -b".toList = mid ++ '-' :: rest ∧
        Splits .default (Comment .default) [] "a\r\n -b".toList us ('-' :: rest) ∧
        Place.behind mid = ⟨2, 1⟩ ∧ Blocked .default ('-' :: rest) := by
  intro ts
  have hok : scan .default "a\r\n#\r>\n \r\x7b" = .ok ts := by decide +kernel
  have herror : scan .default "a\r\n -b" = .error (.unexpected '-' 2 1) := by decide +kernel
  have hsplits := scan_splits Lexicon.acceptable_default markInLine_default
  exact ⟨Lexicon.acceptable_default, markInLine_default, hok, ((hsplits _).1 ts hok).1, herror,
    (hsplits _).2.1 '-' 2 1 herror⟩

theorem start_of_splits {comment : List Char → List Char → Prop} {s t rest : List Char}
    {ts : List Token} {a : Token} (h : Splits x comment s t (a :: ts) rest) :
    Place.mk a.line a.start = Place.behind s ∨
      ∃ w u, t = w ++ u ∧ comment w u ∧ Splits x comment (s ++ w) u (a :: ts) rest := by
  cases h with
  | token => exact .inl rfl
  | comment hw ht => exact .inr ⟨_, _, rfl, hw, ht⟩

/-- A comment mark that ends in a carriage return can be met across a line break. The comment does
not hold its mark then, which a splitting into comments that do would have to put in front of the
newline. -/
theorem scan_halves_mark :
    let x : Lexicon := ⟨"_", some "#\r"⟩
    let ts : List Token := [⟨.newline, "\n", 1, 1⟩]
    x.Acceptable ∧ x.MarkInLine ∧ scan x "#\r\n" = .ok ts ∧
      ¬ Splits x (fun w t => "#\r".toList <+: w ∧ '\n' ∉ w ∧ Ends t) [] "#\r\n".toList ts [] := by
  intro x ts
  refine ⟨by decide, ?_, by decide +kernel, fun h => ?_⟩
  · intro m hm
    cases hm
    decide
  · obtain hplace | ⟨w, u, hs, ⟨⟨v, rfl⟩, hlf, -⟩, h⟩ := start_of_splits h
    · exact absurd hplace (by decide)
    · -- the comment is the mark, so the newline would stand behind two characters
      have hvu : v ++ u = ['\n'] := by simpa using hs.symm
      rcases List.append_eq_singleton_iff.1 hvu with ⟨rfl, rfl⟩ | ⟨rfl, -⟩
      · obtain hplace | ⟨w, u, hs, ⟨⟨v, rfl⟩, -, -⟩, -⟩ := start_of_splits h
        · exact absurd hplace (by decide)
        · simp at hs
      · simp at hlf

end Token

end InfoProtocol
