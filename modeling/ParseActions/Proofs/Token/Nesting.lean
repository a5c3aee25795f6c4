import ParseActions.Proofs.Token.Termination

/-!
# Strings with holes

The tokens of a text on which there is no report are properly nested. A string with holes starts with
its text up to the first hole, goes on with the tokens of the hole between two marks, and ends with its
text after the last hole; texts between holes stand between their marks. Inside a hole the braces are
balanced, and there may be strings again.

The scanner knows this by its modes. So the proof goes from the end of the text to its start: the tokens
that are left end what the modes say is open, and each token before them changes the modes as it should.

## Main definitions

* `Token.Nested`, `Token.Ending`: nested tokens, and the tokens of a string after its first hole
* `Mode.Completes`, `Scanner.Completes`: the tokens that end what is open
* `Scanner.Shift`: what a token does to the modes

## Main results

* `Scanner.shift_scan`: what a token that is scanned does to the modes
* `Scanner.Lexes.completes`: the tokens that are left end what is open
* `Token.lex_ends_and_nests`: lexing comes to an end, with nested tokens and one token of the end
-/

namespace ParseActions

namespace Token

/-- Whether a token stands for itself: it is no piece of a string with holes and not the end, and it is
no brace where braces have to be balanced. -/
def Kind.isPlain (balanced : Bool) : Kind → Bool
  | stringStart _ | stringPart _ | stringEnd _ | holeStart | holeEnd | eof => false
  | symbol .leftBrace | symbol .rightBrace => !balanced
  | _ => true

theorem Kind.isPlain_of_not_brace {kind : Kind} (h : kind.isPlain false = true)
    (hleft : kind ≠ .symbol .leftBrace) (hright : kind ≠ .symbol .rightBrace) :
    kind.isPlain true = true := by
  cases kind with
  | symbol x =>
    cases x with
    | leftBrace => exact absurd rfl hleft
    | rightBrace => exact absurd rfl hright
    | _ => rfl
  | _ => exact h

mutual

/-- Tokens that are nested, with balanced braces or with braces of any kind. -/
inductive Nested : (balanced : Bool) → List Kind → Prop where
  | nil {balanced : Bool} : Nested balanced []
  | plain {balanced : Bool} {kind : Kind} {kinds : List Kind} (hkind : kind.isPlain balanced = true)
      (h : Nested balanced kinds) : Nested balanced (kind :: kinds)
  | braces {inner kinds : List Kind} (hinner : Nested true inner) (h : Nested true kinds) :
      Nested true (.symbol .leftBrace :: (inner ++ .symbol .rightBrace :: kinds))
  | string {balanced : Bool} {text : String} {inner ending kinds : List Kind}
      (hinner : Nested true inner) (hending : Ending ending) (h : Nested balanced kinds) :
      Nested balanced
        (.stringStart text :: .holeStart :: (inner ++ .holeEnd :: (ending ++ kinds)))

/-- The tokens of a string after its first hole: any number of texts with holes after them, and the
text after the last hole. -/
inductive Ending : List Kind → Prop where
  | last (text : String) : Ending [.stringEnd text]
  | more {text : String} {inner ending : List Kind} (hinner : Nested true inner)
      (h : Ending ending) :
      Ending (.stringPart text :: .holeStart :: (inner ++ .holeEnd :: ending))

end

/-! ## Tokens that end what is open -/

/-- The tokens of a hole in which so many braces are open, and the mark that closes it. -/
def ClosesHole : (braces : Nat) → List Kind → Prop
  | 0, kinds => ∃ inner, kinds = inner ++ [.holeEnd] ∧ Nested true inner
  | braces + 1, kinds => ∃ inner rest, kinds = inner ++ .symbol .rightBrace :: rest ∧
      Nested true inner ∧ ClosesHole braces rest

variable {braces : Nat} {piece kinds : List Kind}

theorem ClosesHole.append (h : ClosesHole braces kinds)
    (hpiece : ∀ inner, Nested true inner → Nested true (piece ++ inner)) :
    ClosesHole braces (piece ++ kinds) := by
  cases braces with
  | zero =>
    obtain ⟨inner, rfl, hinner⟩ := h
    exact ⟨piece ++ inner, (List.append_assoc ..).symm, hpiece inner hinner⟩
  | succ braces =>
    obtain ⟨inner, rest, rfl, hinner, hrest⟩ := h
    exact ⟨piece ++ inner, rest, (List.append_assoc ..).symm, hpiece inner hinner, hrest⟩

/-- A brace that is opened is closed before the hole. -/
theorem ClosesHole.leftBrace (h : ClosesHole (braces + 1) kinds) :
    ClosesHole braces (.symbol .leftBrace :: kinds) := by
  -- the brace and the one that closes it enclose `inner`, and stand before the rest of the hole
  obtain ⟨inner, rest, rfl, hinner, hrest⟩ := h
  have hpair : ClosesHole braces
      ((.symbol .leftBrace :: (inner ++ [.symbol .rightBrace])) ++ rest) :=
    hrest.append fun more hmore => by simpa using Nested.braces hinner hmore
  simpa using hpair

theorem ClosesHole.rightBrace (h : ClosesHole braces kinds) :
    ClosesHole (braces + 1) (.symbol .rightBrace :: kinds) :=
  ⟨[], kinds, rfl, .nil, h⟩

end Token

open Token

/-- The tokens that end what a mode is about: the string that is scanned, or the hole and then the
string that it is in. -/
def Mode.Completes : Mode → List Kind → Prop
  | text, kinds => Ending kinds
  | hole braces, kinds => ∃ inner ending, kinds = inner ++ ending ∧ ClosesHole braces inner ∧
      Ending ending

namespace Scanner

/-- The tokens that end what is open in some modes, and go on to the end of the text. -/
def Completes : List Mode → List Kind → Prop
  | [], kinds => Nested false kinds
  | mode :: outer, kinds => ∃ string rest, kinds = string ++ rest ∧ mode.Completes string ∧
      Completes outer rest

variable {source : SourceText} {s : Scanner} {ts : List Token} {braces : Nat} {outer modes : List Mode}
  {piece kinds : List Kind} {text : String}

/-- What may stand before nested tokens may stand outside the text of strings. -/
theorem Completes.append (h : Completes modes kinds) (hmodes : ∀ outer, modes ≠ .text :: outer)
    (hpiece : ∀ inner, Nested (!modes.isEmpty) inner → Nested (!modes.isEmpty) (piece ++ inner)) :
    Completes modes (piece ++ kinds) := by
  cases modes with
  | nil => exact hpiece kinds h
  | cons mode outer =>
    cases mode with
    | text => exact absurd rfl (hmodes outer)
    | hole braces =>
      obtain ⟨_, rest, rfl, ⟨inner, ending, rfl, hinner, hending⟩, hrest⟩ := h
      refine ⟨piece ++ (inner ++ ending), rest, (List.append_assoc ..).symm, ?_, hrest⟩
      exact ⟨piece ++ inner, ending, (List.append_assoc ..).symm, hinner.append hpiece, hending⟩

theorem Completes.leftBrace (h : Completes (.hole (braces + 1) :: outer) kinds) :
    Completes (.hole braces :: outer) (.symbol .leftBrace :: kinds) := by
  obtain ⟨_, rest, rfl, ⟨inner, ending, rfl, hinner, hending⟩, hrest⟩ := h
  exact ⟨_ :: (inner ++ ending), rest, rfl, ⟨_ :: inner, ending, rfl, hinner.leftBrace, hending⟩,
    hrest⟩

theorem Completes.rightBrace (h : Completes (.hole braces :: outer) kinds) :
    Completes (.hole (braces + 1) :: outer) (.symbol .rightBrace :: kinds) := by
  obtain ⟨_, rest, rfl, ⟨inner, ending, rfl, hinner, hending⟩, hrest⟩ := h
  exact ⟨_ :: (inner ++ ending), rest, rfl, ⟨_ :: inner, ending, rfl, hinner.rightBrace, hending⟩,
    hrest⟩

theorem Completes.holeEnd (h : Completes (.text :: outer) kinds) :
    Completes (.hole 0 :: outer) (.holeEnd :: kinds) := by
  obtain ⟨ending, rest, rfl, hending, hrest⟩ := h
  exact ⟨.holeEnd :: ending, rest, rfl, ⟨[.holeEnd], ending, rfl, ⟨[], rfl, .nil⟩, hending⟩, hrest⟩

theorem Completes.stringEnd (h : Completes outer kinds) :
    Completes (.text :: outer) (.stringEnd text :: kinds) :=
  ⟨[.stringEnd text], kinds, rfl, .last text, h⟩

theorem Completes.stringPart (h : Completes (.hole 0 :: outer) kinds) :
    Completes (.text :: outer) (.stringPart text :: .holeStart :: kinds) := by
  obtain ⟨_, rest, rfl, ⟨_, ending, rfl, ⟨inner, rfl, hinner⟩, hending⟩, hrest⟩ := h
  exact ⟨.stringPart text :: .holeStart :: (inner ++ .holeEnd :: ending), rest, by simp,
    .more hinner hending, hrest⟩

/-- A string with holes may stand wherever a plain token may. -/
theorem Completes.stringStart (h : Completes (.hole 0 :: outer) kinds)
    (houter : ∀ more, outer ≠ .text :: more) :
    Completes outer (.stringStart text :: .holeStart :: kinds) := by
  -- the hole is closed at once, since no brace is open in it yet, and its string ended
  obtain ⟨_, rest, rfl, ⟨_, ending, rfl, ⟨inner, rfl, hinner⟩, hending⟩, hrest⟩ := h
  have hstring : Completes outer
      ((.stringStart text :: .holeStart :: (inner ++ .holeEnd :: ending)) ++ rest) :=
    hrest.append houter fun more hmore => by simpa using Nested.string hinner hending hmore
  simpa using hstring

/-! ## Tokens that are scanned -/

/-- What tokens do to the modes: those of the texts of strings come with the mark of the hole that they
open. -/
inductive Shift : List Mode → List Kind → List Mode → Prop where
  | plain {modes : List Mode} {kind : Kind} (hmodes : ∀ outer, modes ≠ .text :: outer)
      (hkind : kind.isPlain (!modes.isEmpty) = true) : Shift modes [kind] modes
  | leftBrace {braces : Nat} {outer : List Mode} :
      Shift (.hole braces :: outer) [.symbol .leftBrace] (.hole (braces + 1) :: outer)
  | rightBrace {braces : Nat} {outer : List Mode} :
      Shift (.hole (braces + 1) :: outer) [.symbol .rightBrace] (.hole braces :: outer)
  | holeEnd {outer : List Mode} : Shift (.hole 0 :: outer) [.holeEnd] (.text :: outer)
  | stringStart {text : String} {outer : List Mode} (houter : ∀ more, outer ≠ .text :: more) :
      Shift outer [.stringStart text, .holeStart] (.hole 0 :: outer)
  | stringPart {text : String} {outer : List Mode} :
      Shift (.text :: outer) [.stringPart text, .holeStart] (.hole 0 :: outer)
  | stringEnd {text : String} {outer : List Mode} :
      Shift (.text :: outer) [.stringEnd text] outer

theorem Shift.ne_eof {modes' : List Mode} {kind : Kind} (h : Shift modes (kind :: kinds) modes') :
    kind ≠ .eof := by
  rintro rfl
  cases h with
  | plain _ hkind => cases hkind

/-- **Tokens may stand before** those that end what is open after them. -/
theorem Shift.completes {modes' : List Mode} (h : Shift modes piece modes')
    (hkinds : Completes modes' kinds) : Completes modes (piece ++ kinds) := by
  cases h with
  | plain hmodes hkind =>
    exact hkinds.append hmodes fun _ hinner => .plain hkind hinner
  | leftBrace => exact hkinds.leftBrace
  | rightBrace => exact hkinds.rightBrace
  | holeEnd => exact hkinds.holeEnd
  | stringStart houter => exact hkinds.stringStart houter
  | stringPart => exact hkinds.stringPart
  | stringEnd => exact hkinds.stringEnd

/-- The kind of the token that is held back. -/
def held (s : Scanner) : List Kind :=
  s.pending.toList.map Token.kind

theorem held_of_none (h : s.pending = none) : s.held = [] := by
  rw [held, h]
  rfl

/-- The text of a string ends with the string or with a hole. -/
theorem shift_scanText {opened : Position} {whole part : String → Token.Kind}
    (hpending : s.pending = none) (hclean : (scanText source opened outer whole part s).2.Clean)
    (hwhole : ∀ text, Shift modes [whole text] outer)
    (hpart : ∀ text, Shift modes [part text, .holeStart] (.hole 0 :: outer)) :
    Shift modes ((scanText source opened outer whole part s).1.kind ::
      (scanText source opened outer whole part s).2.held)
      (scanText source opened outer whole part s).2.modes := by
  rw [scanText] at hclean ⊢
  dsimp only at hclean ⊢
  generalize stringText source [] s.errors s.place s.rest = t at hclean ⊢
  cases hstop : t.stop with
  | unterminated =>
    simp only [hstop] at hclean
    exact absurd hclean (not_clean_report _)
  | quote =>
    simp only [held, hpending]
    exact hwhole _
  | hole => exact hpart _

theorem isPlain_of_symbol? {cs : List Char} {kind : Kind} {n : Nat}
    (h : symbol? cs = some (kind, n)) : kind.isPlain false = true := by
  rw [symbol?.eq_def] at h
  split at h <;> cases h <;> rfl

theorem shift_scanSymbol {kind : Kind} {n : Nat} (hkind : kind.isPlain false = true)
    (hmodes : ∀ outer, s.modes ≠ .text :: outer) :
    Shift s.modes [(scanSymbol kind n s).1.kind] (scanSymbol kind n s).2.modes := by
  have hadvance : (s.advance n).modes = s.modes := modes_advance n s
  rw [scanSymbol.eq_def]
  dsimp only
  generalize s.advance n = s' at hadvance ⊢
  rw [← hadvance] at hmodes ⊢
  split
  · next hhole => exact hhole ▸ .leftBrace
  · next hhole => exact hhole ▸ .holeEnd
  · next hhole => exact hhole ▸ .rightBrace
  · next hleft hzero hsucc =>
    -- no brace in a hole: braces are plain only where they need no balance
    refine .plain hmodes ?_
    cases hs : s'.modes with
    | nil => exact hkind
    | cons mode outer =>
      cases mode with
      | text => exact absurd hs (hmodes outer)
      | hole braces =>
        refine Kind.isPlain_of_not_brace hkind (fun hl => hleft braces outer hl hs) fun hr => ?_
        cases braces with
        | zero => exact hzero outer hr hs
        | succ braces => exact hsucc braces outer hr hs

theorem shift_find? {r : Token × Scanner} (hpending : s.pending = none)
    (hmodes : ∀ outer, s.modes ≠ .text :: outer) (hfind : s.find? source = some r)
    (hclean : r.2.Clean) : Shift s.modes (r.1.kind :: r.2.held) r.2.modes := by
  cases hrest : s.rest with
  | nil => cases (find?_of_nil source hrest).symm.trans hfind
  | cons c rest =>
    rw [find?_of_rest source hrest] at hfind
    split at hfind
    · obtain rfl := Option.some.inj hfind
      exact shift_scanText ((pending_advance 1).trans hpending) hclean (fun _ => .plain hmodes rfl)
        fun _ => .stringStart hmodes
    · split at hfind
      · obtain rfl := Option.some.inj hfind
        have hheld : s.scanNumber.2.held = [] := held_of_none hpending
        rw [hheld]
        exact .plain hmodes rfl
      · split at hfind
        · obtain rfl := Option.some.inj hfind
          have hheld : (s.scanName c).2.held = [] := held_of_none hpending
          rw [hheld]
          refine .plain hmodes ?_
          rw [scanName]
          dsimp only
          cases Keyword.ofWord? _ <;> rfl
        · obtain ⟨⟨kind, n⟩, hsymbol, rfl⟩ := Option.map_eq_some_iff.mp hfind
          have hheld : (scanSymbol kind n s).2.held = [] :=
            held_of_none (pending_scanSymbol.trans hpending)
          rw [hheld]
          exact shift_scanSymbol (isPlain_of_symbol? hsymbol) hmodes

/-- **A token that is scanned** without a report is the end of the text, where nothing is open, or does
what tokens do to the modes. -/
theorem shift_scan (hpending : s.pending = none) (hclean : (s.scan source).2.Clean) :
    (s.scan source).1.kind = .eof ∧ s.modes = [] ∨
      Shift s.modes ((s.scan source).1.kind :: (s.scan source).2.held) (s.scan source).2.modes := by
  have hscans := scans_of_clean hclean
  generalize s.scan source = r at hclean hscans
  cases hscans with
  | ends _ _ hmodes => exact .inl ⟨rfl, hmodes⟩
  | finds hmodes _ hfind =>
    have hskip : (s.skip source).modes = s.modes := modes_skip
    rw [← hskip] at hmodes ⊢
    exact .inr (shift_find? (pending_skip.trans hpending) hmodes hfind hclean)
  | text hmodes =>
    rw [hmodes]
    exact .inr (shift_scanText hpending hclean (fun _ => .stringEnd) fun _ => .stringPart)

/-! ## Tokens of a text -/

/-- The tokens that are left end what is open. -/
theorem Lexes.completes (h : Lexes source s ts) :
    ∃ kinds, ts.map Token.kind = s.held ++ kinds ++ [.eof] ∧ Completes s.modes kinds := by
  -- from the end of the text to its start, where nothing is open
  induction h with
  | @ends s hpending hclean hkind =>
    obtain ⟨-, hmodes⟩ | hshift := shift_scan hpending hclean
    · refine ⟨[], ?_, hmodes ▸ .nil⟩
      rw [held_of_none hpending, List.map_singleton, hkind]
      rfl
    · exact absurd hkind hshift.ne_eof
  | @token s ts hpending hkind h ih =>
    obtain ⟨kinds, hkinds, hcompletes⟩ := ih
    obtain ⟨heof, -⟩ | hshift := shift_scan hpending h.clean
    · exact absurd heof hkind
    · refine ⟨_, ?_, hshift.completes hcompletes⟩
      rw [held_of_none hpending, List.map_cons, hkinds]
      rfl
  | @mark s t ts hpending h ih =>
    obtain ⟨kinds, hkinds, hcompletes⟩ := ih
    refine ⟨kinds, ?_, hcompletes⟩
    rw [held, hpending, List.map_cons, hkinds]
    rfl

end Scanner

namespace Token

variable {source : SourceText}

/-- The tokens before the end are nested where nothing is reported. -/
theorem nested_of_lex {inner : List Token} {last : Token} (h : (lex source).2.hasErrors = false)
    (htokens : (lex source).1 = inner ++ [last]) : Nested false (inner.map Token.kind) := by
  obtain ⟨kinds, hkinds, hnested⟩ := (lexes_lex h).completes
  rw [htokens, List.map_append] at hkinds
  obtain ⟨hinner, -⟩ := List.append_inj' hkinds rfl
  rw [hinner]
  exact hnested

/-- **Lexing a text** comes to an end, with one token of the end after all others; where nothing is
reported, those are nested. -/
theorem lex_ends_and_nests (source : SourceText) :
    (∀ result, Scanner.Runs source (.start source) result ↔ result = lex source) ∧
      ∃ inner last, (lex source).1 = inner ++ [last] ∧ last.kind = .eof ∧
        (∀ t ∈ inner, t.kind ≠ .eof) ∧
        ((lex source).2.hasErrors = false → Nested false (inner.map Token.kind)) := by
  obtain ⟨inner, last, htokens, hlast, hinner⟩ := isStream_lex source
  exact ⟨fun _ => runs_lex_iff, inner, last, htokens, hlast, fun t ht => (hinner t ht).1,
    fun hclean => nested_of_lex hclean htokens⟩

/-- A string with braces in its first hole and another string in its second one. -/
theorem lex_ends_and_nests_holes :
    let source : SourceText := ⟨"Num.value", "\"a$\x7b \x7bb\x7d \x7dc$\x7b\"$\x7bd\x7d\"\x7de\""⟩
    (lex source).1.map Token.kind =
        [.stringStart "a", .holeStart, .symbol .leftBrace, .identifier "b", .symbol .rightBrace,
          .holeEnd, .stringPart "c", .holeStart, .stringStart "", .holeStart, .identifier "d",
          .holeEnd, .stringEnd "", .holeEnd, .stringEnd "e", .eof] ∧
      (lex source).2.hasErrors = false ∧ Scanner.Runs source (.start source) (lex source) ∧
      ∃ inner last, (lex source).1 = inner ++ [last] ∧ last.kind = .eof ∧
        (∀ t ∈ inner, t.kind ≠ .eof) ∧ Nested false (inner.map Token.kind) := by
  intro source
  have hclean : (lex source).2.hasErrors = false := by decide +kernel
  obtain ⟨hruns, inner, last, htokens, hlast, hinner, hnested⟩ := lex_ends_and_nests source
  exact ⟨by decide +kernel, hclean, (hruns _).mpr rfl, inner, last, htokens, hlast, hinner,
    hnested hclean⟩

end Token

end ParseActions
