import ParseActions.Proofs.Body.Changes
import ParseActions.Proofs.Token.Place

/-!
# The places of reports

The parser reports at the next token, and where no token is left at the last one. Tokens start at places
of the text, and so do the braces that are put around the statements of a block. So each report starts
at a place of the text and shows the line there, on every way through the grammar.

## Main definitions

* `Parse.Placed`: a state whose tokens and reports start at places
* `Parse.StaysPlaced`: such a state stays one

## Main results

* `Parsed.placed_ofExpression`, `Parsed.placed_ofBlock`: the reports on a stream of tokens that start
  at places
* `Parsed.reports_placed`: the reports on a text
-/

namespace ParseActions

namespace Parse

variable {stream : Stream} {s : State}

/-- The tokens that are left, the one that is found after them, and the reports start at places. -/
structure Placed (stream : Stream) (s : State) : Prop where
  final : stream.source.HasPlace stream.final.span.start
  tokens : ∀ t ∈ s.rest, stream.source.HasPlace t.span.start
  reports : ∀ d ∈ s.errors.kept, d.Placed stream.source

/-- The next token starts at a place, also at the end. -/
theorem Placed.peek (h : Placed stream s) :
    stream.source.HasPlace (s.peek stream).span.start := by
  cases hrest : s.rest with
  | nil =>
    rw [State.peek, hrest]
    exact h.final
  | cons t rest =>
    rw [State.peek, hrest]
    exact h.tokens t (by rw [hrest]; exact .head _)

theorem Placed.advance (h : Placed stream s) : Placed stream s.advance := by
  obtain ⟨tokens, previous, depth, errors⟩ := s
  cases tokens with
  | nil => exact h
  | cons t rest => exact ⟨h.final, (List.forall_mem_cons.mp h.tokens).2, h.reports⟩

theorem Placed.report (h : Placed stream s) (code : Code) (message : String)
    (advice : Option String) :
    Placed stream (s.report stream code message (s.peek stream).span advice) :=
  ⟨h.final, h.tokens, Diagnostics.forall_kept_push h.reports
    ((Diagnostic.placed_make h.peek stream.source.name code message).advised advice)⟩

/-- Where tokens and reports start at places, they still do. -/
def StaysPlaced (stream : Stream) (s s' : State) : Prop :=
  Placed stream s → Placed stream s'

instance : StepwiseOn StaysPlaced where
  refl _ _ := id
  trans h h' := h' ∘ h
  advance _ _ := Placed.advance
  skipWhile _ _ _ _ h :=
    ⟨h.final, fun t ht => h.tokens t ((List.dropWhile_sublist _).mem ht), h.reports⟩
  report _ code message advice _ h := h.report code message advice
  nested h hs :=
    have hs' := h ⟨hs.final, hs.tokens, hs.reports⟩
    ⟨hs'.final, hs'.tokens, hs'.reports⟩

end Parse

namespace Parsed

open Parse

variable {source : SourceText} {tokens : List Token}

/-- Where tokens start at places, the last of them does, and so does the text if there is none. -/
theorem hasPlace_getLast? (htokens : ∀ t ∈ tokens, source.HasPlace t.span.start) :
    source.HasPlace (tokens.getLast?.getD ⟨.eof, .point 1 1⟩).span.start := by
  cases hlast : tokens.getLast? with
  | none => exact source.hasPlace_start
  | some t => exact htokens t (List.mem_of_getLast? hlast)

/-- **The reports on a stream** of tokens that start at places. -/
theorem placed_run (p : Productions → Parse Body)
    (htokens : ∀ t ∈ tokens, source.HasPlace t.span.start)
    [hp : ∀ budget, RespectsOn StaysPlaced (p (productions budget))] :
    ∀ d ∈ (run source tokens p).errors.kept, d.Placed source := by
  let final : Token := ⟨.eof, (tokens.getLast?.map Token.span).getD (.point 1 1)⟩
  have hfinal : final.span = (tokens.getLast?.getD ⟨.eof, .point 1 1⟩).span :=
    Option.getD_map Token.span ⟨.eof, .point 1 1⟩ tokens.getLast?
  have hstart : Parse.Placed ⟨source, final⟩ (State.start tokens) :=
    ⟨hfinal ▸ hasPlace_getLast? htokens, htokens, List.forall_mem_nil _⟩
  exact ((hp (tokens.length + 1)).run _ _ hstart).reports

theorem placed_ofExpression (htokens : ∀ t ∈ tokens, source.HasPlace t.span.start) :
    ∀ d ∈ (ofExpression source tokens).errors.kept, d.Placed source :=
  placed_run wholeExpression htokens

theorem placed_ofBlock (htokens : ∀ t ∈ tokens, source.HasPlace t.span.start) :
    ∀ d ∈ (ofBlock source tokens).errors.kept, d.Placed source :=
  placed_run wholeBlock htokens

/-- The braces around the statements of a block start where the text does, and where its last token
does. -/
theorem hasPlace_inBraces (htokens : ∀ t ∈ tokens, source.HasPlace t.span.start) :
    ∀ t ∈ inBraces tokens, source.HasPlace t.span.start := by
  intro t ht
  rcases List.mem_append.mp ht with ht | ht
  · rcases List.mem_cons.mp ht with rfl | ht
    · exact source.hasPlace_start
    · exact htokens t ((List.dropLast_sublist tokens).mem ht)
  · rcases List.mem_pair.mp ht with rfl | rfl
    · exact hasPlace_getLast? htokens
    · exact hasPlace_getLast? htokens

/-- The reports of the lexer come before those of the parser. -/
theorem placed_afterLexer {lexical : Diagnostics} {parsed : Parsed}
    (hlexical : ∀ d ∈ lexical.kept, d.Placed source)
    (hparsed : ∀ d ∈ parsed.errors.kept, d.Placed source) :
    ∀ d ∈ (parsed.afterLexer lexical).errors.kept, d.Placed source := by
  rw [afterLexer]
  split
  · exact Diagnostics.forall_kept_extend hlexical hparsed
  · exact hparsed

/-- **Every report starts at a place of the text and shows the line there**, whatever the text: the
reports of the lexer, those of the parser, and those that each of the three ways to parse a text gives
in the end. -/
theorem reports_placed (source : SourceText) :
    (∀ d ∈ (Token.lex source).2.kept, d.Placed source) ∧
      (∀ d ∈ (ofExpression source (Token.lex source).1).errors.kept, d.Placed source) ∧
      (∀ d ∈ (ofBlock source (Token.lex source).1).errors.kept, d.Placed source) ∧
      (∀ d ∈ (ofBlock source (inBraces (Token.lex source).1)).errors.kept, d.Placed source) ∧
      (∀ d ∈ (expression source).errors.kept, d.Placed source) ∧
      (∀ d ∈ (block source).errors.kept, d.Placed source) ∧
      ∀ d ∈ (statements source).errors.kept, d.Placed source := by
  obtain ⟨htokens, hlexical⟩ := Token.placed_lex source
  have hexpression := placed_ofExpression htokens
  have hblock := placed_ofBlock htokens
  have hstatements := placed_ofBlock (hasPlace_inBraces htokens)
  refine ⟨hlexical, hexpression, hblock, hstatements, ?_, ?_, ?_⟩
  · simpa only [expression] using placed_afterLexer hlexical hexpression
  · simpa only [block] using placed_afterLexer hlexical hblock
  · simpa only [statements] using placed_afterLexer hlexical hstatements

/-- Two reports of the lexer, on a line that ends with a carriage return and on the next one, and a
report of the parser after the last character. -/
theorem reports_placed_twoLines :
    let source : SourceText := ⟨"Num.value", "é\r\n?"⟩
    let reports := (expression source).errors.kept
    reports.map (fun d => (d.span.start, d.sourceLine)) = [((1, 1), "é"), ((2, 1), "?"), ((2, 2), "?")] ∧
      ∀ d ∈ reports, d.Placed source :=
  ⟨by rfl, (reports_placed _).2.2.2.2.1⟩

end Parsed

end ParseActions
