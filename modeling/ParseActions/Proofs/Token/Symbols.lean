import ParseActions.Proofs.Token.Lexing

/-!
# Texts of symbols

Some characters are tokens wherever they come first: no longer symbol starts with them, and they are
neither blanks nor part of a name, a number or a string. Where nothing is open, a text of them is
scanned character by character.

## Main definitions

* `Scanner.Marks`: a character that is a token wherever it comes first

## Main results

* `Scanner.lexes_iff_of_find?`: the tokens where one is found
* `Scanner.scan_of_modes_nil`: the end of a text where nothing is open
* `Scanner.exists_lexes_of_marks`, `Token.lex_of_marks`: texts of such characters
-/

namespace ParseActions

namespace Scanner

variable {source : SourceText} {s : Scanner} {ts : List Token} {c : Char} {rest : List Char}
  {kind : Token.Kind}

/-! ## The next token -/

/-- Where a token is found, it is the first one, and the others come after it. -/
theorem lexes_iff_of_find? {r : Token × Scanner} (hmodes : ∀ outer, s.modes ≠ .text :: outer)
    (hskip : (s.skip source).Clean) (hfind : (s.skip source).find? source = some r)
    (hkind : r.1.kind ≠ .eof) (hpending : s.pending = none) :
    Lexes source s ts ↔ ∃ ts', ts = r.1 :: ts' ∧ Lexes source r.2 ts' := by
  have hscan := scan_of_find? hmodes hskip hfind
  constructor
  · intro h
    cases h with
    | ends _ _ heof => exact absurd (hscan ▸ heof) hkind
    | token _ _ hafter => exact ⟨_, by rw [hscan], hscan ▸ hafter⟩
    | mark hmark => cases hpending.symm.trans hmark
  · rintro ⟨ts', rfl, h⟩
    have hlexes := Lexes.token hpending (by rwa [hscan]) (by rwa [hscan])
    rwa [hscan] at hlexes

theorem skip_of_nil (source : SourceText) (h : s.rest = []) : s.skip source = s := by
  obtain ⟨rest, place, modes, pending, errors⟩ := s
  obtain rfl : rest = [] := h
  rfl

theorem scan_of_modes_nil (hrest : (s.skip source).rest = []) (hmodes : s.modes = []) :
    s.scan source = (⟨.eof, (s.skip source).place.span⟩, s.skip source) := by
  have hround := scanNormal_succ source s.rest.length s
  rw [scan_of_ne_text (by rw [hmodes]; nofun)]
  generalize scanNormal source (s.rest.length + 1) s = r at hround
  cases hround with
  | full => rfl
  | ends =>
    rw [close, modes_skip, hmodes]
    rfl
  | finds hfind => cases (find?_of_nil source hrest).symm.trans hfind
  | passes hne => exact absurd hrest hne

theorem scanSymbol_of_modes_nil (h : s.modes = []) (kind : Token.Kind) (n : Nat) :
    scanSymbol kind n s = (⟨kind, s.place.spanTo (s.advance n).place⟩, s.advance n) := by
  have hmodes : (s.advance n).modes = [] := (modes_advance n s).trans h
  rw [scanSymbol.eq_def]
  dsimp only
  -- the first three cases are those of braces in a hole, and no hole is open
  split
  · next hhole => cases hmodes.symm.trans hhole
  · next hhole => cases hmodes.symm.trans hhole
  · next hhole => cases hmodes.symm.trans hhole
  · rfl

/-! ## Characters that are tokens -/

/-- A character is a token wherever it comes first. -/
structure Marks (c : Char) (kind : Token.Kind) : Prop where
  ne_eof : kind ≠ .eof
  skip_eq : ∀ (source : SourceText) (s : Scanner) (rest : List Char), s.rest = c :: rest →
    s.skip source = s
  find?_eq : ∀ (source : SourceText) (s : Scanner) (rest : List Char), s.rest = c :: rest →
    s.find? source = some (scanSymbol kind 1 s)

theorem marks_of_symbol? (hkind : kind ≠ .eof)
    (hblank : ∀ place rest, skipBlanks .spaces place (c :: rest) = (c :: rest, place, none))
    (hquote : c ≠ '"') (hdigit : c.isDigit = false)
    (hname : ∀ rest : List Char, (isNameStart c || (c == '$' && rest.head?.any isNameChar)) = false)
    (hsymbol : ∀ rest, symbol? (c :: rest) = some (kind, 1)) : Marks c kind where
  ne_eof := hkind
  skip_eq source s rest h := by
    obtain ⟨chars, place, modes, pending, errors⟩ := s
    obtain rfl : chars = c :: rest := h
    rw [skip, hblank]
  find?_eq source s rest h := by
    rw [find?_of_rest source h, if_neg hquote, hdigit, hname, h, hsymbol]
    rfl

theorem marks_newline : Marks '\n' .newline :=
  marks_of_symbol? nofun (fun _ _ => rfl) (by decide) rfl (fun _ => rfl) fun _ => rfl

theorem marks_leftBrace : Marks '\x7b' (.symbol .leftBrace) :=
  marks_of_symbol? nofun (fun _ _ => rfl) (by decide) rfl (fun _ => rfl) fun _ => rfl

theorem marks_rightBrace : Marks '\x7d' (.symbol .rightBrace) :=
  marks_of_symbol? nofun (fun _ _ => rfl) (by decide) rfl (fun _ => rfl) fun _ => rfl

theorem marks_leftBracket : Marks '[' (.symbol .leftBracket) :=
  marks_of_symbol? nofun (fun _ _ => rfl) (by decide) rfl (fun _ => rfl) fun _ => rfl

theorem marks_rightBracket : Marks ']' (.symbol .rightBracket) :=
  marks_of_symbol? nofun (fun _ _ => rfl) (by decide) rfl (fun _ => rfl) fun _ => rfl

theorem marks_plus : Marks '+' (.symbol .plus) :=
  marks_of_symbol? nofun (fun _ _ => rfl) (by decide) rfl (fun _ => rfl) fun _ => rfl

/-- Where nothing is open, a character that is a token is the first one. -/
theorem Marks.lexes_iff (h : Marks c kind) (hrest : s.rest = c :: rest) (hmodes : s.modes = [])
    (hpending : s.pending = none) (hclean : s.Clean) :
    Lexes source s ts ↔
      ∃ ts', ts = ⟨kind, s.place.spanTo (s.advance 1).place⟩ :: ts' ∧
        Lexes source (s.advance 1) ts' := by
  have hskip : s.skip source = s := h.skip_eq source s rest hrest
  have hfind : s.find? source = some _ := h.find?_eq source s rest hrest
  rw [scanSymbol_of_modes_nil hmodes] at hfind
  exact lexes_iff_of_find? (by rw [hmodes]; nofun) (by rwa [hskip]) (by rwa [hskip]) h.ne_eof
    hpending

/-- **A text of such characters** is scanned character by character. -/
theorem exists_lexes_of_marks {marks : List (Char × Token.Kind)}
    (hmarks : ∀ m ∈ marks, Marks m.1 m.2) (hrest : s.rest = marks.map Prod.fst)
    (hmodes : s.modes = []) (hpending : s.pending = none) (hclean : s.Clean) :
    ∃ ts, Lexes source s ts ∧ ts.map Token.kind = marks.map Prod.snd ++ [.eof] := by
  induction marks generalizing s with
  | nil =>
    have hskip : s.skip source = s := skip_of_nil source hrest
    have hend : s.scan source = _ := scan_of_modes_nil (by rwa [hskip]) hmodes
    rw [hskip] at hend
    refine ⟨_, .ends hpending ?_ ?_, ?_⟩
    · rwa [hend]
    · rw [hend]
    · rw [hend]
      rfl
  | cons m marks ih =>
    obtain ⟨hm, hmarks⟩ := List.forall_mem_cons.mp hmarks
    obtain ⟨ts, hts, hkinds⟩ := ih (s := s.advance 1) hmarks (by rw [advance_eq, hrest]; rfl)
      ((modes_advance 1 s).trans hmodes) ((pending_advance 1).trans hpending)
      (by rwa [Clean, errors_advance])
    exact ⟨_, (hm.lexes_iff hrest hmodes hpending hclean).mpr ⟨ts, rfl, hts⟩, by
      rw [List.map_cons, hkinds]
      rfl⟩

end Scanner

/-- The tokens of a text of characters that are tokens. -/
theorem Token.lex_of_marks {source : SourceText} {marks : List (Char × Token.Kind)}
    (hmarks : ∀ m ∈ marks, Scanner.Marks m.1 m.2)
    (htext : source.text.toList = marks.map Prod.fst) :
    (lex source).2.hasErrors = false ∧
      (lex source).1.map kind = marks.map Prod.snd ++ [.eof] := by
  obtain ⟨ts, hts, hkinds⟩ :=
    Scanner.exists_lexes_of_marks (s := .start source) hmarks htext rfl rfl rfl
  obtain ⟨htokens, hreports⟩ := lex_of_lexes hts
  exact ⟨hreports, by rw [htokens, hkinds]⟩

end ParseActions
