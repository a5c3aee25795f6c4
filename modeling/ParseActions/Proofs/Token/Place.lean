import ParseActions.Proofs.Text.Lines
import ParseActions.Proofs.Token.Order

/-!
# The places of tokens and reports

The scanner counts lines and columns while it reads, so that its place is always a place of the text.
Tokens start where they are scanned from, and a report starts where the scanner stands, or where it
stood when a comment or a string was opened. So each of them starts at a place of the text, and the line
that a report shows is found there.

## Main definitions

* `Diagnostic.Placed`: a report at a place of a text, with the line there
* `Scanner.Stands`: a text that is left, and its place in the source text
* `Scanner.Placed`: a scan whose place, token held back and reports are placed

## Main results

* `Scanner.Stands.reaches`: reading keeps the place
* `Scanner.placed_scan`: a token and the scan after it
* `Token.placed_lex`: the tokens of a text and the reports on it
-/

namespace ParseActions

open ParseActions.SourceText (HasPlace)

/-! ## Reports -/

/-- A report starts at a place of the text, and shows the line there. -/
structure Diagnostic.Placed (source : SourceText) (d : Diagnostic) : Prop where
  place : source.HasPlace d.span.start
  sourceLine : source.line? d.span.startLine = some d.sourceLine

namespace Diagnostic

variable {source : SourceText} {span : Span}

/-- A report at a place of the text shows a line, so the empty text is not used for it. -/
theorem placed_make (h : source.HasPlace span.start) (name : String) (code : Code)
    (message : String) :
    (make name code message span ((source.line? span.startLine).getD "")).Placed source := by
  obtain ⟨line, hline⟩ : ∃ line, source.line? span.startLine = some line := h.line?
  refine ⟨h, ?_⟩
  change source.line? span.startLine = some ((source.line? span.startLine).getD "")
  rw [hline, Option.getD_some]

/-- Advice does not change the place. -/
theorem Placed.advised {d : Diagnostic} (h : d.Placed source) (advice : Option String) :
    (advice.elim d d.suggesting).Placed source := by
  cases advice with
  | none => exact h
  | some advice => exact ⟨h.place, h.sourceLine⟩

end Diagnostic

namespace Scanner

open Relation

variable {source : SourceText} {s : Scanner} {x y : Text} {place : Position} {cs : List Char}
  {d : Diagnostic} {r : Token × Scanner}

/-! ## Reading -/

/-- A text that is left starts at its place. -/
def Stands (source : SourceText) (x : Text) : Prop :=
  source.Stands x.1.line x.1.column x.2

theorem Stands.read (h : Stands source x) (hread : Read x y) : Stands source y := by
  obtain ⟨place, c, rest⟩ := hread
  rw [Stands, Position.after]
  split
  · next hc =>
    subst hc
    exact h.newline
  · next hc => exact h.char hc

/-- The text after a character starts at the place after it. -/
theorem Stands.after {c : Char} {rest : List Char} (h : Stands source (place, c :: rest)) :
    Stands source (place.after c, rest) :=
  h.read (.char place c rest)

theorem Stands.hasPlace (h : Stands source x) : source.HasPlace x.1.pair :=
  SourceText.Stands.hasPlace h

/-- **Reading keeps the place** of the text that is left. -/
theorem Stands.reaches (h : Stands source x) (hreach : Reaches x y) : Stands source y := by
  induction hreach with
  | refl => exact h
  | tail _ hread ih => exact ih.read hread

/-! ## Scanning -/

/-- What is left to scan starts at its place, and the token that is held back and the reports start at
places. -/
structure Placed (source : SourceText) (s : Scanner) : Prop where
  stands : Stands source s.text
  pending : ∀ t, s.pending = some t → source.HasPlace t.span.start
  reports : ∀ d ∈ s.errors.kept, d.Placed source

/-- A token starts at a place, and so does what is left after it. -/
structure PlacedToken (source : SourceText) (r : Token × Scanner) : Prop where
  start : source.HasPlace r.1.span.start
  after : r.2.Placed source

theorem Placed.hasPlace (h : s.Placed source) : source.HasPlace s.place.pair :=
  h.stands.hasPlace

theorem Placed.report (h : s.Placed source) (hd : d.Placed source) : (s.report d).Placed source :=
  ⟨h.stands, h.pending, Diagnostics.forall_kept_push h.reports hd⟩

theorem placed_complaint {span : Span} (h : source.HasPlace span.start) (code : Code)
    (message : String) : (complaint source code message span).Placed source :=
  Diagnostic.placed_make h source.name code message

theorem Placed.advance (h : s.Placed source) (n : Nat) : (s.advance n).Placed source where
  stands := h.stands.reaches (reaches_advance n s)
  pending := by
    rw [pending_advance]
    exact h.pending
  reports := by
    rw [errors_advance]
    exact h.reports

/-- A comment that does not end was opened at a place. -/
theorem hasPlace_unclosed {b : Blank} {opened : Position}
    (hb : ∀ start, b = .blockComment start → source.HasPlace start.pair)
    (h : Stands source (place, cs)) (hopened : (skipBlanks b place cs).2.2 = some opened) :
    source.HasPlace opened.pair := by
  fun_induction skipBlanks b place cs
  case case1 start _ =>
    obtain rfl := Option.some.inj hopened
    exact hb _ rfl
  case case2 | case6 | case7 => cases hopened
  -- the comment is opened here
  case case4 place rest ih =>
    refine ih (fun start hstart => ?_) h.after.after hopened
    obtain rfl := Blank.blockComment.inj hstart
    exact h.hasPlace
  case case3 ih | case9 ih => exact ih (fun _ hstart => by cases hstart) h.after.after hopened
  case case5 ih | case8 ih => exact ih (fun _ hstart => by cases hstart) h.after hopened
  case case10 ih => exact ih hb h.after hopened

theorem Placed.skip (h : s.Placed source) : (s.skip source).Placed source := by
  have hstands : Stands source (s.skip source).text := h.stands.reaches reaches_skip
  have hunclosed : ∀ opened, (skipBlanks .spaces s.place s.rest).2.2 = some opened →
      source.HasPlace opened.pair :=
    fun opened => hasPlace_unclosed (fun _ hstart => by cases hstart) h.stands
  refine ⟨hstands, by rw [pending_skip]; exact h.pending, ?_⟩
  rw [Scanner.skip]
  dsimp only
  split
  · exact h.reports
  · next opened hopened =>
    exact Diagnostics.forall_kept_push h.reports (placed_complaint (hunclosed opened hopened) _ _)

/-! ## Strings -/

/-- Escapes in the text of a string are reported where they start. -/
theorem placed_stringText {out : List Char} {errors : Diagnostics}
    (h : Stands source (place, cs)) (herrors : ∀ d ∈ errors.kept, d.Placed source) :
    ∀ d ∈ (stringText source out errors place cs).errors.kept, d.Placed source := by
  fun_induction stringText source out errors place cs
  case case1 | case2 | case3 | case7 => exact herrors
  case case4 =>
    refine Diagnostics.forall_kept_push herrors (placed_complaint ?_ _ _)
    exact h.hasPlace
  case case5 ih => exact ih h.after.after herrors
  case case6 ih =>
    refine ih h.after.after (Diagnostics.forall_kept_push herrors (placed_complaint ?_ _ _))
    exact h.hasPlace
  case case8 ih => exact ih h.after herrors

theorem Placed.scanText (h : s.Placed source) {opened : Position} {outer : List Mode}
    {whole part : String → Token.Kind} (hopened : source.HasPlace opened.pair) :
    PlacedToken source (scanText source opened outer whole part s) := by
  have hstands := h.stands.reaches (reaches_stringText source [] s.errors s.place s.rest)
  have hstop := passes_stringText source [] s.errors s.place s.rest
  have hreports : ∀ d ∈ (stringText source [] s.errors s.place s.rest).errors.kept, d.Placed source :=
    placed_stringText h.stands h.reports
  rw [Scanner.scanText]
  dsimp only
  generalize stringText source [] s.errors s.place s.rest = text at hstands hstop hreports
  cases hend : text.stop with
  | unterminated =>
    exact ⟨hopened, hstands, h.pending,
      Diagnostics.forall_kept_push hreports (placed_complaint hopened _ _)⟩
  | quote => exact ⟨hopened, hstands, h.pending, hreports⟩
  | hole =>
    obtain ⟨rest, hreach, -⟩ := hstop (by simp [hend])
    refine ⟨hopened, hstands, fun t ht => ?_, hreports⟩
    -- the mark of the hole starts where the text before it stops
    obtain rfl := Option.some.inj ht
    exact (h.stands.reaches hreach).hasPlace

/-! ## Tokens -/

theorem Placed.scanSymbol (h : s.Placed source) (kind : Token.Kind) (n : Nat) :
    PlacedToken source (scanSymbol kind n s) := by
  refine ⟨?_, ?_, ?_, ?_⟩
  · rw [span_scanSymbol]
    exact h.hasPlace
  · rw [text_scanSymbol]
    exact (h.advance n).stands
  · rw [pending_scanSymbol]
    exact h.pending
  · rw [errors_scanSymbol]
    exact h.reports

theorem Placed.find? (h : s.Placed source) (hfind : s.find? source = some r) :
    PlacedToken source r := by
  cases hrest : s.rest with
  | nil => cases (find?_of_nil source hrest).symm.trans hfind
  | cons c rest =>
    rw [find?_of_rest source hrest] at hfind
    split at hfind
    · obtain rfl := Option.some.inj hfind
      exact (h.advance 1).scanText h.hasPlace
    · split at hfind
      · next hdigit =>
        obtain rfl := Option.some.inj hfind
        exact ⟨h.hasPlace,
          h.stands.reaches (passes_scanNumber hrest hdigit).to_reflTransGen, h.pending, h.reports⟩
      · split at hfind
        · obtain rfl := Option.some.inj hfind
          exact ⟨h.hasPlace, h.stands.reaches (passes_scanName hrest).to_reflTransGen, h.pending,
            h.reports⟩
        · obtain ⟨⟨kind, n⟩, -, rfl⟩ := Option.map_eq_some_iff.mp hfind
          exact h.scanSymbol kind n

theorem Placed.close (h : s.Placed source) : (s.close source).Placed source := by
  rw [Scanner.close]
  split
  · exact h
  · exact h.report (placed_complaint h.hasPlace _ _)

theorem Placed.passOver (h : s.Placed source) : (s.passOver source).Placed source :=
  (h.advance _).report ((placed_complaint h.hasPlace _ _).advised _)

theorem Placed.scanNormal (h : s.Placed source) (fuel : Nat) :
    PlacedToken source (scanNormal source fuel s) := by
  revert h
  exact scanNormal_induction (Q := fun s r => s.Placed source → PlacedToken source r)
    (fun _ h => ⟨h.hasPlace, h⟩) (fun _ _ ih h => ih h.skip)
    (fun _ _ h => ⟨h.hasPlace, h.close⟩) (fun _ _ hfind h => h.find? hfind)
    (fun _ _ _ ih h => ih h.passOver) fuel s

/-- **A token starts at a place**, and so does what is left after it. -/
theorem Placed.scan (h : s.Placed source) : PlacedToken source (s.scan source) := by
  rw [Scanner.scan]
  split
  · exact h.scanText h.hasPlace
  · exact h.scanNormal _

theorem Placed.run (h : s.Placed source) (fuel : Nat) :
    (∀ t ∈ (run source fuel s).1, source.HasPlace t.span.start) ∧
      ∀ d ∈ (run source fuel s).2.kept, d.Placed source := by
  induction fuel generalizing s with
  | zero => exact ⟨List.forall_mem_singleton.mpr h.hasPlace, h.reports⟩
  | succ fuel ih =>
    rw [Scanner.run]
    split
    · exact ⟨List.forall_mem_singleton.mpr h.hasPlace, h.reports⟩
    · split
      · next token hpending =>
        obtain ⟨htokens, hreports⟩ := ih (s := { s with pending := none })
          ⟨h.stands, fun _ ht => (by cases ht), h.reports⟩
        exact ⟨List.forall_mem_cons.mpr ⟨h.pending token hpending, htokens⟩, hreports⟩
      · have hscan : PlacedToken source (s.scan source) := h.scan
        generalize s.scan source = scanned at hscan
        obtain ⟨token, s'⟩ := scanned
        dsimp only
        split
        · exact ⟨List.forall_mem_singleton.mpr hscan.start, hscan.after.reports⟩
        · obtain ⟨htokens, hreports⟩ := ih hscan.after
          exact ⟨List.forall_mem_cons.mpr ⟨hscan.start, htokens⟩, hreports⟩

end Scanner

/-- **The tokens of a text** start at places of the text, and so do the reports on it. -/
theorem Token.placed_lex (source : SourceText) :
    (∀ t ∈ (lex source).1, source.HasPlace t.span.start) ∧
      ∀ d ∈ (lex source).2.kept, d.Placed source :=
  have hstart : (Scanner.start source).Placed source :=
    ⟨source.stands_start, fun _ ht => (by cases ht), List.forall_mem_nil _⟩
  hstart.run _

end ParseActions
