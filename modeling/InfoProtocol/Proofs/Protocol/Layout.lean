import InfoProtocol.Proofs.Grammar.Breaks
import InfoProtocol.Proofs.Grammar.Unplaced
import InfoProtocol.Proofs.Token.Outline

/-!
# Layout does not change the meaning

Two sources whose tables have one outline are read alike: the same protocol, or the same error but
for its line numbers. Layout that is put in or taken out at the start of a table, behind the
opening brace or behind the closing brace leaves the protocol as it is.
-/

namespace InfoProtocol

open Grammar

namespace Token

variable {ns : List Token}

theorem exists_break (ts : List Token) :
    ∃ bs, dropLayout false ts = bs ++ dropLayout true ts ∧ Break (bs.map sign) := by
  induction ts with
  | nil => exact ⟨[], rfl, .none⟩
  | cons t ts ih =>
    rcases kind_cases t with ht | ht | ht
    · rw [dropLayout_blank ht, dropLayout_blank ht]
      exact ih
    · have hsign : t.sign = .mark .newline := (sign_eq_mark (by decide)).2 ht
      refine ⟨[t], by rw [dropLayout_newline ht, dropLayout_newline ht]; rfl, ?_⟩
      rw [List.map_singleton, hsign]
      exact .one
    · exact ⟨[], by rw [dropLayout_cons ht, dropLayout_cons ht]; rfl, .none⟩

theorem dropLayout_newlines {b : Bool} {ts : List Token} :
    (∀ t ∈ dropLayout b ts, t.kind = .newline) ↔ ∀ t ∈ ts, t.IsLayout := by
  have hlayout : (∀ t ∈ dropLayout b ts, t.IsLayout) ↔ ∀ t ∈ ts, t.IsLayout := by
    have hfilter := congrArg (· = []) (filter_dropLayout b ts)
    simpa [List.filter_eq_nil_iff] using hfilter
  refine Iff.trans (forall₂_congr fun t ht => ?_) hlayout
  exact ⟨.inr, fun h => h.resolve_left (dropLayout_no_blank b ts t ht)⟩

theorem break_dropLayout {b : Bool} {ts : List Token} :
    Break ((dropLayout b ts).map sign) ↔ ∀ t ∈ ts, t.IsLayout :=
  ⟨fun h => dropLayout_newlines.1 (newlines_of_break h),
    fun h => break_of_newlines (dropLayout_separated b ts).1 (dropLayout_newlines.2 h)⟩

theorem unbroken_dropLayout (ts : List Token) : Unbroken ((dropLayout true ts).map sign) := by
  intro g hg
  rw [List.head?_map, Option.mem_def, Option.map_eq_some_iff] at hg
  obtain ⟨t, ht, rfl⟩ := hg
  rw [Ne, sign_eq_mark (by decide)]
  exact (dropLayout_separated true ts).2 rfl t ht

theorem map_sign_dropLayout (hns : ∀ n ∈ ns, n.IsLayout) (ts : List Token) :
    ∃ bs, Break bs ∧
      (dropLayout false (ns ++ ts)).map sign = bs ++ (dropLayout true ts).map sign := by
  obtain ⟨bs, hbs, hbreak⟩ := exists_break (ns ++ ts)
  refine ⟨_, hbreak, ?_⟩
  rw [hbs, dropLayout_append_of_layout hns, List.map_append]

end Token

namespace Protocol

variable {ns ms ts : List Token} {p : Protocol}

theorem ofTokens_start (hns : ∀ n ∈ ns, n.IsLayout) (hms : ∀ m ∈ ms, m.IsLayout)
    (h : ofTokens (ns ++ ts) = .ok p) : ofTokens (ms ++ ts) = .ok p := by
  obtain ⟨hs, hwf⟩ := spelling_of_ofTokens h
  refine ofTokens_of_spelling ?_ hwf
  obtain ⟨bs, hb, hbs⟩ := Token.map_sign_dropLayout hns ts
  obtain ⟨cs, hc, hcs⟩ := Token.map_sign_dropLayout hms ts
  rw [Token.withoutLayout, hbs] at hs
  rw [Token.withoutLayout, hcs]
  exact hs.start hb (Token.unbroken_dropLayout ts) hc

variable {pre post : List Token} {t : Token}

theorem ofTokens_behind_opening (ht : t.kind = .openBrace) (hns : ∀ n ∈ ns, n.IsLayout)
    (hms : ∀ m ∈ ms, m.IsLayout) (h : ofTokens (pre ++ t :: (ns ++ post)) = .ok p) :
    ofTokens (pre ++ t :: (ms ++ post)) = .ok p := by
  obtain ⟨hs, hwf⟩ := spelling_of_ofTokens h
  refine ofTokens_of_spelling ?_ hwf
  have hsign : t.sign = .mark .openBrace := (Token.sign_eq_mark (by decide)).2 ht
  have hbrace : ¬ t.IsLayout := by simp [Token.IsLayout, ht]
  obtain ⟨bs, hb, hbs⟩ := Token.map_sign_dropLayout hns post
  obtain ⟨cs, hc, hcs⟩ := Token.map_sign_dropLayout hms post
  rw [Token.withoutLayout, Token.dropLayout_append_cons _ _ _ hbrace, List.map_append,
    List.map_cons, hsign] at hs ⊢
  rw [hbs] at hs
  rw [hcs]
  exact hs.behind_opening hb (Token.unbroken_dropLayout post) hc

theorem ofTokens_behind_closing (ht : t.kind = .closeBrace)
    (h : ofTokens (pre ++ t :: ts) = .ok p) :
    (∀ u ∈ ts, u.IsLayout) ∧ ∀ ms : List Token, (∀ m ∈ ms, m.IsLayout) →
      ofTokens (pre ++ t :: ms) = .ok p := by
  obtain ⟨hs, hwf⟩ := spelling_of_ofTokens h
  have hsign : t.sign = .mark .closeBrace := (Token.sign_eq_mark (by decide)).2 ht
  have hbrace : ¬ t.IsLayout := by simp [Token.IsLayout, ht]
  rw [Token.withoutLayout, Token.dropLayout_append_cons _ _ _ hbrace, List.map_append,
    List.map_cons, hsign] at hs
  obtain ⟨hb, hrest⟩ := hs.behind_closing
  refine ⟨Token.break_dropLayout.1 hb, fun ms hms => ofTokens_of_spelling ?_ hwf⟩
  rw [Token.withoutLayout, Token.dropLayout_append_cons _ _ _ hbrace, List.map_append,
    List.map_cons, hsign]
  exact hrest _ (Token.break_dropLayout.2 hms)

end Protocol

def SourceError.withoutLines : SourceError → SourceError
  | scan e => scan e
  | grammar f => grammar f.withoutLine
  | defect d => defect d

theorem Token.map_unplaced_congr {ts us : List Token}
    (h : ts.map Token.content = us.map Token.content) :
    ts.map Token.unplaced = us.map Token.unplaced := by
  have hmap : ∀ vs : List Token, vs.map Token.unplaced =
      (vs.map Token.content).map fun c => ⟨c.1, c.2, 0, 0⟩ := by
    intro vs
    rw [List.map_map]
    rfl
  rw [hmap, hmap, h]

namespace Protocol

theorem read_of_scan {x : Lexicon} {s : String} {ts : List Token}
    (h : Token.scan x s = .ok ts) :
    (read x s).mapError SourceError.withoutLines =
      ((ofTokens ts).mapError Failure.withoutLine).mapError .grammar := by
  simp only [read, h]
  cases ofTokens ts <;> rfl

/-- Sources with one outline are read alike, up to line numbers, and where a newline may be left
out newlines and blanks may be put in or taken out without changing the protocol. -/
theorem read_up_to_layout :
    (∀ (x : Lexicon) (s t : String) (ts us : List Token), Token.scan x s = .ok ts →
      Token.scan x t = .ok us → Token.outline ts = Token.outline us →
      (read x s).mapError SourceError.withoutLines =
        (read x t).mapError SourceError.withoutLines) ∧
    ∀ ns : List Token, (∀ n ∈ ns, n.IsLayout) → ∀ p : Protocol,
      (∀ ts, ofTokens (ns ++ ts) = .ok p ↔ ofTokens ts = .ok p) ∧
      (∀ pre o post, o.kind = .openBrace →
        (ofTokens (pre ++ o :: (ns ++ post)) = .ok p ↔ ofTokens (pre ++ o :: post) = .ok p)) ∧
      ∀ pre c mid post, c.kind = .closeBrace →
        (ofTokens (pre ++ c :: (mid ++ ns ++ post)) = .ok p ↔
          ofTokens (pre ++ c :: (mid ++ post)) = .ok p) := by
  constructor
  · intro x s t ts us hs ht houtline
    rw [read_of_scan hs, read_of_scan ht]
    rw [← Token.map_content_withoutLayout, ← Token.map_content_withoutLayout] at houtline
    rw [ofTokens_congr (Token.map_unplaced_congr houtline)]
  · intro ns hns p
    have hnil : ∀ n ∈ ([] : List Token), n.IsLayout := by simp
    refine ⟨fun ts => ⟨ofTokens_start hns hnil, ofTokens_start hnil hns⟩,
      fun pre o post ho => ⟨ofTokens_behind_opening ho hns hnil,
        ofTokens_behind_opening ho hnil hns⟩, fun pre c mid post hc => ⟨fun h => ?_, fun h => ?_⟩⟩
    · obtain ⟨hlayout, hany⟩ := ofTokens_behind_closing hc h
      refine hany _ fun m hm => hlayout m ?_
      simp only [List.mem_append] at hm ⊢
      exact hm.imp_left .inl
    · obtain ⟨hlayout, hany⟩ := ofTokens_behind_closing hc h
      refine hany _ fun m hm => ?_
      simp only [List.mem_append] at hm hlayout
      rcases hm with (hm | hm) | hm
      · exact hlayout m (.inl hm)
      · exact hns m hm
      · exact hlayout m (.inr hm)

/-- A comment, a blank line and blanks move an error by a line; newlines around a protocol and
behind its opening brace leave it alone. -/
theorem read_up_to_layout_notes :
    let ts : List Token := [⟨.word, "A", 1, 0⟩, ⟨.openBrace, "\x7b", 1, 1⟩, ⟨.newline, "\n", 1, 2⟩,
      ⟨.word, "B", 2, 0⟩]
    let us : List Token := [⟨.word, "A", 1, 0⟩, ⟨.blank, " ", 1, 1⟩, ⟨.openBrace, "\x7b", 1, 2⟩,
      ⟨.newline, "\n", 1, 5⟩, ⟨.newline, "\n", 2, 0⟩, ⟨.blank, "\t", 3, 0⟩, ⟨.word, "B", 3, 1⟩]
    let n : Token := ⟨.newline, "\n", 1, 0⟩
    let name : Token := ⟨.word, "A", 1, 0⟩
    let opening : Token := ⟨.openBrace, "\x7b", 1, 0⟩
    let sections : List Token := [⟨.word, "role", 1, 0⟩, ⟨.word, "B", 1, 0⟩, n,
      ⟨.word, "parameter", 1, 0⟩, ⟨.word, "c", 1, 0⟩, ⟨.word, "key", 1, 0⟩, n]
    let closing : Token := ⟨.closeBrace, "\x7d", 1, 0⟩
    let p : Protocol := ⟨"A", ["B"], [⟨"c", .nil, true⟩], []⟩
    (Token.scan .default "A\x7b\nB" = .ok ts ∧ Token.scan .default "A \x7b#c\r\n\n\tB" = .ok us ∧
      Token.outline ts = Token.outline us ∧
      (read .default "A\x7b\nB").mapError SourceError.withoutLines =
        (read .default "A \x7b#c\r\n\n\tB").mapError SourceError.withoutLines) ∧
    (∀ m ∈ [n], m.IsLayout) ∧ opening.kind = .openBrace ∧ closing.kind = .closeBrace ∧
    ofTokens (name :: opening :: (sections ++ [closing])) = .ok p ∧
    ofTokens ([n] ++ name :: opening :: (sections ++ [closing])) = .ok p ∧
    ofTokens ([name] ++ opening :: ([n] ++ (sections ++ [closing]))) = .ok p ∧
    ofTokens ((name :: opening :: sections) ++ closing :: ([] ++ [n] ++ [])) = .ok p := by
  intro ts us n name opening sections closing p
  have hts : Token.scan .default "A\x7b\nB" = .ok ts := by decide +kernel
  have hus : Token.scan .default "A \x7b#c\r\n\n\tB" = .ok us := by decide +kernel
  have houtline : Token.outline ts = Token.outline us := by decide +kernel
  have hn : ∀ m ∈ [n], m.IsLayout := by decide
  have hp : ofTokens (name :: opening :: (sections ++ [closing])) = .ok p := by decide +kernel
  obtain ⟨hread, hlayout⟩ := read_up_to_layout
  obtain ⟨hstart, hopening, hclosing⟩ := hlayout [n] hn p
  exact ⟨⟨hts, hus, houtline, hread _ _ _ ts us hts hus houtline⟩, hn, rfl, rfl, hp,
    (hstart _).2 hp, (hopening [name] opening _ rfl).2 hp,
    (hclosing (name :: opening :: sections) closing [] [] rfl).2 hp⟩

end Protocol

end InfoProtocol
