import InfoProtocol.Proofs.Lexeme.Widened
import InfoProtocol.Proofs.Transport.Shell

/-!
# Reading under a wider lexicon

What a text is under a lexicon it stays under a wider one: its tokens are the same, and so is the
protocol that is read or compiled from it. An action is read through the shell around its line, and
the roles of the shell are found from the line alone. So it stays what it is only if the line alone
is split to its end under both lexicons or under neither. A line that is read is split to its end in
the shell; alone it is so too, unless the comment mark matches at the indentation of the shell or
across the end of the line.
-/

namespace InfoProtocol

open Grammar Lexicon Lexeme

variable {x y : Lexicon} {source line text : String}

theorem Token.scan_widens (hy : y.Acceptable) (h : y.Widens x) {ts : List Token}
    (hs : scan x source = .ok ts) : scan y source = .ok ts := by
  have hsplit := split_widens hy h (congrArg Split.halt (scan_eq_ok.1 hs).1)
  rwa [scan, hsplit, ← scan]

namespace Protocol

variable {p : Protocol}

theorem read_widens (hy : y.Acceptable) (h : y.Widens x) (hp : read x source = .ok p) :
    read y source = .ok p := by
  obtain ⟨ts, hts, hread⟩ := read_eq_ok.1 hp
  exact read_eq_ok.2 ⟨ts, Token.scan_widens hy h hts, hread⟩

theorem compile_widens (hy : y.Acceptable) (h : y.Widens x) (hp : compile x source = .ok p) :
    compile y source = .ok p := by
  obtain ⟨hread, hvalid⟩ := compile_eq_ok.1 hp
  exact compile_eq_ok.2 ⟨read_widens hy h hread, hvalid⟩

end Protocol

namespace ActionLine

theorem shell_widens (hy : y.Acceptable) (h : y.Widens x)
    (hline : (∃ ts, Token.scan x line = .ok ts) ∨ ∃ e, Token.scan y line = .error e) :
    shell y line = shell x line := by
  have hroles : shellRoles y line = shellRoles x line := by
    rcases hline with ⟨ts, hts⟩ | ⟨e, he⟩
    · rw [shellRoles, shellRoles, hts, Token.scan_widens hy h hts]
    · cases hx : Token.scan x line with
      | error e' => rw [shellRoles, shellRoles, he, hx]
      | ok ts =>
        rw [Token.scan_widens hy h hx] at he
        cases he
  rw [shell, shell, hroles]

theorem shows_indented {b : Bool} {s : List Char} {gs : List Sign}
    (ho : opensComment x (' ' :: ' ' :: s) = false)
    (hs : ∀ c ∈ s.head?, Text.isBlank c = false) :
    Shows x b (' ' :: ' ' :: s) gs ↔ Shows x b s gs := by
  have hstop : run Text.isBlank s = [] := by
    cases s with
    | nil => rfl
    | cons c s => rw [run, if_pos (by simp [hs c rfl])]
  have hrun : run Text.isBlank (' ' :: s) = [' '] := by
    have hspace : (breaksLine (' ' :: s) || !Text.isBlank ' ') = false := rfl
    rw [run, hspace, if_neg Bool.false_ne_true, hstop]
  have hfront := front?_blank ho (by decide) rfl
  rw [hrun] at hfront
  exact shows_blanks_append (r := [' ', ' ']) (by simp) hfront

theorem scan_of_scan_shell (hx : x.Acceptable) (hin : x.MarkInLine)
    (ho : opensComment x (' ' :: ' ' :: (Text.trim text).toList) = false) {ts : List Token}
    (h : Token.scan x (shell x (Text.trim text)) = .ok ts) :
    ∃ us, Token.scan x (Text.trim text) = .ok us := by
  have hindented : (' ' :: ' ' :: (Text.trim text).toList).getLast? ≠ some '\r' := by
    have hlast := Text.getLast?_trim text
    cases hs : (Text.trim text).toList with
    | nil => simp
    | cons c s => rwa [hs] at hlast
  have hshell := (shows_iff_scan (b := false)).2 ⟨ts, h, rfl⟩
  rw [toList_shell, shows_lineFeed hx hin (getLast?_heading _), ← List.cons_append,
    ← List.cons_append] at hshell
  obtain ⟨_, _, -, hrest, -⟩ := hshell
  obtain ⟨gs, _, hline, -, -⟩ := (shows_lineFeed hx hin hindented).1 hrest
  rw [shows_indented ho (Text.head?_trim text), shows_iff_scan] at hline
  obtain ⟨us, hus, -⟩ := hline
  exact ⟨us, hus⟩

end ActionLine

open ActionLine

namespace Action

variable {a : Action}

theorem read_widens (hy : y.Acceptable) (h : y.Widens x)
    (hline : (∃ ts, Token.scan x (Text.trim text) = .ok ts) ∨
      ∃ e, Token.scan y (Text.trim text) = .error e)
    (ha : read x text = .ok a) : read y text = .ok a := by
  obtain ⟨p, as, hp, hactions⟩ := read_eq_ok.1 ha
  rw [← shell_widens hy h hline] at hp
  exact read_eq_ok.2 ⟨p, as, Protocol.read_widens hy h hp, hactions⟩

theorem scan_of_read (hx : x.Acceptable) (hin : x.MarkInLine)
    (ho : opensComment x (' ' :: ' ' :: (Text.trim text).toList) = false)
    (ha : read x text = .ok a) : ∃ ts, Token.scan x (Text.trim text) = .ok ts := by
  obtain ⟨p, -, hp, -⟩ := read_eq_ok.1 ha
  obtain ⟨ts, hts, -⟩ := Protocol.read_eq_ok.1 hp
  exact scan_of_scan_shell hx hin ho hts

end Action

namespace Lexicon

theorem Widens.markInLine (h : y.Widens x) (hmark : ∀ m ∈ x.commentMark, '\n' ∉ m.toList) :
    x.MarkInLine := by
  refine fun m hm => ⟨hmark m hm, ?_⟩
  rintro rfl
  exact (h.apart _ hm '\r' (by decide)).2.2 rfl

/-- A wider lexicon keeps the tokens of every text that has tokens, every protocol that is read or
compiled, and every action that is read from a line with tokens under both lexicons or under
neither. Where the comment mark holds no line feed and does not match at the indentation, each line
that is read has tokens. -/
theorem widens_conservative (hy : y.Acceptable) (h : y.Widens x) :
    (∀ source ts, Token.scan x source = .ok ts → Token.scan y source = .ok ts) ∧
    (∀ source p, Protocol.read x source = .ok p → Protocol.read y source = .ok p) ∧
    (∀ source p, Protocol.compile x source = .ok p → Protocol.compile y source = .ok p) ∧
    (∀ text a, Action.read x text = .ok a →
      ((∃ ts, Token.scan x (Text.trim text) = .ok ts) ∨
        (∃ e, Token.scan y (Text.trim text) = .error e) ∨
        (∀ m ∈ x.commentMark, '\n' ∉ m.toList) ∧
          opensComment x (' ' :: ' ' :: (Text.trim text).toList) = false) →
      Action.read y text = .ok a) ∧
    ((∀ m ∈ x.commentMark, '\n' ∉ m.toList) → ∀ text a, Action.read x text = .ok a →
      opensComment x (' ' :: ' ' :: (Text.trim text).toList) = false →
      ∃ ts, Token.scan x (Text.trim text) = .ok ts) := by
  have htokens (hmark : ∀ m ∈ x.commentMark, '\n' ∉ m.toList) (text : String) (a : Action)
      (ha : Action.read x text = .ok a)
      (ho : opensComment x (' ' :: ' ' :: (Text.trim text).toList) = false) :
      ∃ ts, Token.scan x (Text.trim text) = .ok ts :=
    Action.scan_of_read (h.acceptable hy) (h.markInLine hmark) ho ha
  refine ⟨fun _ _ => Token.scan_widens hy h, fun _ _ => Protocol.read_widens hy h,
    fun _ _ => Protocol.compile_widens hy h, fun text a ha hline => ?_, htokens⟩
  rcases hline with hx | hy' | ⟨hmark, ho⟩
  · exact Action.read_widens hy h (.inl hx) ha
  · exact Action.read_widens hy h (.inr hy') ha
  · exact Action.read_widens hy h (.inl (htokens hmark text a ha ho)) ha

/-- At signs and dots become parts of words, and a line with a comment is read as before. -/
theorem widens_conservative_notes :
    let x : Lexicon := ⟨"_", some "--"⟩
    let y : Lexicon := ⟨"_@.", some "--"⟩
    let text := " --@\nA->B:ask[id key]--@."
    let ask : Action := ⟨"ask", "A", "B", [⟨"id", .nil, true⟩]⟩
    y.Acceptable ∧ y.Widens x ∧ Action.read x text = .ok ask ∧ Action.read y text = .ok ask ∧
      ∃ ts, Token.scan x (Text.trim text) = .ok ts := by
  intro x y text ask
  have hy : y.Acceptable := by decide
  have hwidens : y.Widens x := by
    refine ⟨rfl, fun c => isWordChar_of_subset (by decide), fun m hm c hc => ?_⟩
    cases hm
    obtain rfl : '-' = c := by simpa using hc
    decide
  have hread : Action.read x text = .ok ask := by decide +kernel
  have hmark : ∀ m ∈ x.commentMark, '\n' ∉ m.toList := by decide
  have ho : opensComment x (' ' :: ' ' :: (Text.trim text).toList) = false := by decide +kernel
  obtain ⟨-, -, -, haction, htokens⟩ := widens_conservative hy hwidens
  exact ⟨hy, hwidens, hread, haction text ask hread (.inr (.inr ⟨hmark, ho⟩)),
    htokens hmark text ask hread ho⟩

/-- A line that only the shell splits to its end is read between the spare roles. A wider lexicon
that splits it alone finds other roles, and does not read it: where a comment opens at the
indentation, and where one opens across the end of the line. -/
theorem widens_not_conservative :
    let indented : String → Lexicon := fun w => ⟨w, some "  A"⟩
    let across : String → Lexicon := fun w => ⟨w, some ":@\n"⟩
    let text := "A@ junk\nA -> B: f[x]"
    let text' := "B -> B: f[x]\nA -> B: g[y] :@"
    let f : Role → Action := fun r => ⟨"f", r, "B", [⟨"x", .nil, false⟩]⟩
    (indented "_").Acceptable ∧ (indented "_@").Acceptable ∧
      (indented "_@").Widens (indented "_") ∧
      Action.read (indented "_") text = .ok (f "A") ∧
      Action.read (indented "_@") text ≠ .ok (f "A") ∧
      (across "_").Acceptable ∧ (across "_@").Acceptable ∧ (across "_@").Widens (across "_") ∧
      Action.read (across "_") text' = .ok (f "B") ∧
      Action.read (across "_@") text' ≠ .ok (f "B") := by
  intro indented across text text' f
  have hindented : (indented "_@").Widens (indented "_") := by
    refine ⟨rfl, fun c => isWordChar_of_subset (by decide), fun m hm c hc => ?_⟩
    cases hm
    obtain rfl : ' ' = c := by simpa using hc
    decide
  have hacross : (across "_@").Widens (across "_") := by
    refine ⟨rfl, fun c => isWordChar_of_subset (by decide), fun m hm c hc => ?_⟩
    cases hm
    obtain rfl : ':' = c := by simpa using hc
    decide
  exact ⟨by decide, by decide, hindented, by decide +kernel, by decide +kernel, by decide,
    by decide, hacross, by decide +kernel, by decide +kernel⟩

end Lexicon

end InfoProtocol
