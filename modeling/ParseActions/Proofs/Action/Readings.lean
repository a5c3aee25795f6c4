import ParseActions.Action.Basic
import ParseActions.Proofs.Action.Arguments
import ParseActions.Proofs.Body.Step

/-!
# The readings of a body

A body is read as an expression, as a block or as statements. Whether it may be a block is decided
by the first character of the text, the reading itself goes by the first token. The two disagree on
a text whose brace stands behind a comment or a semicolon: such a block is not tried.

## Main definitions

* `Parsed.firstReading`: what the first of the three readings that succeeds gives
* `SourceText.BraceHidden`: the first token is a brace and the first character is not

## Main results

* `Parsed.block_body_eq_none`: a block starts with a brace
* `RuleAction.compile_iff_of_not_braceHidden`: reading an action tries the three readings in turn
* `RuleAction.exists_block_and_not_compile`: a block that is not tried
-/

namespace ParseActions

open Parse

/-! ## Blocks start with braces -/

/-- The first token that is no separator. -/
def Token.first? (tokens : List Token) : Option Token :=
  tokens.find? fun t => !t.kind.isSeparator

namespace Parsed

variable {source : SourceText} {stream : Stream} {s : State}

/-- The token that is next after the separators is the first one that is none. -/
theorem peek_skipWhile_isSeparator (stream : Stream) (s : State) :
    (s.skipWhile Token.Kind.isSeparator).peek stream =
      (Token.first? s.rest).getD stream.final := by
  have hdrop : ∀ tokens : List Token,
      (tokens.dropWhile fun t => t.kind.isSeparator).headD stream.final =
        (Token.first? tokens).getD stream.final := by
    intro tokens
    induction tokens with
    | nil => rfl
    | cons t rest ih =>
      cases ht : t.kind.isSeparator with
      | true => simpa [Token.first?, ht] using ih
      | false => simp [Token.first?, ht]
  exact hdrop s.rest

/-- What is not found after the separators of a stream is not found at all. -/
theorem whole_eq_none {part : String} {p : Parse Body}
    (h : (p stream (s.skipWhile Token.Kind.isSeparator)).1 = none) :
    (whole part p stream s).1 = none := by
  simp [whole, h]

/-- A block is only read from its opening brace on. -/
theorem braces_eq_none {sub : Productions} (h : (s.peek stream).kind ≠ .symbol .leftBrace) :
    (Productions.braces sub stream s).1 = none := by
  obtain ⟨code, message, hexpect⟩ := expect_of_ne h
  rw [Productions.braces, currentSpan_bind, bind_of_none hexpect]

/-- What is made of a value that is not found is not found either. -/
theorem map_eq_none {α β : Type} {p : Parse α} (f : α → β) (h : (p stream s).1 = none) :
    ((f <$> p) stream s).1 = none := by
  cases hp : p stream s with
  | mk a after =>
    rw [hp] at h
    obtain rfl : a = none := h
    exact congrArg Prod.fst (bind_of_none hp)

/-- Only a body that was found without a report is given. -/
theorem run_body_eq_none {tokens : List Token} {p : Productions → Parse Body}
    (h : ∀ last, (p (productions (tokens.length + 1)) ⟨source, ⟨.eof, last⟩⟩
      (State.start tokens)).1 = none) : (run source tokens p).body = none := by
  simp only [run, h, ite_self]

/-- **A block starts with a brace**: without one as its first token a stream is no block. -/
theorem ofBlock_body_eq_none {tokens : List Token}
    (h : (Token.first? tokens).map Token.kind ≠ some (.symbol .leftBrace)) :
    (ofBlock source tokens).body = none := by
  apply run_body_eq_none
  intro last
  apply whole_eq_none
  apply map_eq_none
  apply braces_eq_none
  rw [peek_skipWhile_isSeparator]
  cases hfirst : Token.first? tokens with
  | none => simp [State.start, hfirst]
  | some t => simpa [State.start, hfirst] using h

/-- A text whose first token is no brace is no block. -/
theorem block_body_eq_none
    (h : (Token.first? (Token.lex source).1).map Token.kind ≠ some (.symbol .leftBrace)) :
    (block source).body = none := by
  simp only [block, afterLexer]
  split
  · rfl
  · exact ofBlock_body_eq_none h

/-- What the first of the readings gives that gives something: as an expression, as a block, as
statements. -/
def firstReading (source : SourceText) : Option Body :=
  (expression source).body <|> (block source).body <|> (statements source).body

theorem isSome_firstReading :
    (firstReading source).isSome ↔
      (expression source).body.isSome ∨ (block source).body.isSome ∨
        (statements source).body.isSome := by
  simp [firstReading]

end Parsed

/-! ## Actions -/

/-- The first token of a text is a brace, but its first character that is not blank is another. -/
def SourceText.BraceHidden (source : SourceText) : Prop :=
  (Token.first? (Token.lex source).1).map Token.kind = some (.symbol .leftBrace) ∧
    (source.text.toList.dropWhile Text.isBlank).head? ≠ some '\x7b'
  deriving Decidable

namespace RuleAction

variable {action rule text : String} {args : List String} {source : SourceText}

/-- Unless a brace is hidden, the readings after the expression are the block and the statements. -/
theorem fallback_body (h : ¬ source.BraceHidden) :
    (fallback source).body =
      ((Parsed.block source).body <|> (Parsed.statements source).body) := by
  rw [fallback]
  by_cases hbrace : (source.text.toList.dropWhile Text.isBlank).head? = some '\x7b'
  · rw [if_pos hbrace]
    cases hblock : (Parsed.block source).body with
    | some body => simp [hblock]
    | none =>
      cases hstatements : (Parsed.statements source).body with
      | some body => simp [hblock, hstatements]
      | none => simp [hblock, hstatements]
  · have hfirst : (Token.first? (Token.lex source).1).map Token.kind ≠ some (.symbol .leftBrace) :=
      fun hfirst => h ⟨hfirst, hbrace⟩
    simp [if_neg hbrace, Parsed.block_body_eq_none hfirst]

/-- Unless a brace is hidden, a text that is not blank has the body of its first reading. -/
theorem toOption_parseBody (h : ¬ source.BraceHidden)
    (htext : Text.trimChars source.text.toList ≠ []) :
    (parseBody source).toOption = Parsed.firstReading source := by
  rw [Parsed.firstReading, ← fallback_body h]
  -- the equation of the definition would be proved by running the lexer
  delta parseBody
  dsimp only
  cases (Parsed.expression source).body with
  | some body => simp [Except.toOption]
  | none =>
    simp only [List.isEmpty_iff, htext, if_false]
    cases (fallback source).body with
    | some body => simp [Except.toOption]
    | none => simp [Except.toOption]

/-- An action that is compiled is for the rule, and keeps the names, which are in order, and the
text. -/
theorem compile_eq_ok {a : RuleAction} (h : compile action rule args text = .ok a) :
    Arguments.check (Arguments.fileName action rule) rule args = .ok () ∧ a.rule = rule ∧
      a.args = args ∧ a.source = ⟨args, text⟩ := by
  simp only [compile] at h
  cases hcheck : Arguments.check (Arguments.fileName action rule) rule args with
  | error e =>
    rw [hcheck] at h
    cases h
  | ok _ =>
    rw [hcheck] at h
    refine ⟨rfl, ?_⟩
    cases hbody : parseBody ⟨Arguments.fileName action rule, text⟩ with
    | error reports =>
      simp only [hbody] at h
      cases h
    | ok body =>
      simp only [hbody] at h
      obtain rfl := Except.ok.inj h
      exact ⟨rfl, rfl, rfl⟩

/-- What is compiled from names that are in order. -/
theorem toOption_compile (text : String)
    (hargs : Arguments.check (Arguments.fileName action rule) rule args = .ok ()) :
    ((compile action rule args text).toOption.map RuleAction.body) =
      (parseBody ⟨Arguments.fileName action rule, text⟩).toOption := by
  simp only [compile, hargs]
  cases parseBody ⟨Arguments.fileName action rule, text⟩ with
  | ok body => rfl
  | error reports => rfl

/-- **Reading an action** of names that are in order and a text that is not blank, unless a brace is
hidden: it succeeds when the text can be read as an expression, as a block or as statements, and the
body is that of the first of these readings. -/
theorem compile_iff_of_not_braceHidden
    (hargs : Arguments.check (Arguments.fileName action rule) rule args = .ok ())
    (htext : Text.trimChars text.toList ≠ [])
    (h : ¬ SourceText.BraceHidden ⟨Arguments.fileName action rule, text⟩) :
    let source : SourceText := ⟨Arguments.fileName action rule, text⟩
    ((∃ a, compile action rule args text = .ok a) ↔
      (Parsed.expression source).body.isSome ∨ (Parsed.block source).body.isSome ∨
        (Parsed.statements source).body.isSome) ∧
    ∀ a, compile action rule args text = .ok a → Parsed.firstReading source = some a.body := by
  intro source
  have hcompile := (toOption_compile text hargs).trans (toOption_parseBody h htext)
  rw [← Parsed.isSome_firstReading, ← hcompile]
  cases compile action rule args text with
  | ok a => exact ⟨⟨fun _ => rfl, fun _ => ⟨a, rfl⟩⟩, fun b hb => by rw [← Except.ok.inj hb]; rfl⟩
  | error e => exact ⟨⟨nofun, nofun⟩, nofun⟩

/-- Braces at the start are in view. -/
theorem compile_iff_of_not_braceHidden_braces :
    let source : SourceText := ⟨"Num.value", "\x7b let d = digits; return d \x7d"⟩
    (Parsed.block source).body.isSome ∧
      ∃ a, compile "value" "Num" ["digits"] source.text = .ok a ∧
        Parsed.firstReading source = some a.body := by
  intro source
  have hblock : (Parsed.block source).body.isSome := by decide +kernel
  have hargs : Arguments.check (Arguments.fileName "value" "Num") "Num" ["digits"] = .ok () :=
    Arguments.check_eq_ok_iff.mpr (by decide +kernel)
  have hshown : ¬ SourceText.BraceHidden ⟨Arguments.fileName "value" "Num", source.text⟩ := by
    decide +kernel
  obtain ⟨hiff, hbody⟩ := compile_iff_of_not_braceHidden hargs (by decide +kernel) hshown
  obtain ⟨a, ha⟩ := hiff.mpr (.inr (.inl hblock))
  exact ⟨hblock, a, ha, hbody a ha⟩

/-- **A block that is not tried**: behind a comment a block is read as such, but no action is. -/
theorem exists_block_and_not_compile :
    ∃ text : String,
      Arguments.check (Arguments.fileName "value" "Num") "Num" ["digits"] = .ok () ∧
      Text.trimChars text.toList ≠ [] ∧
      (Parsed.block ⟨Arguments.fileName "value" "Num", text⟩).body.isSome ∧
      ¬ ∃ a, compile "value" "Num" ["digits"] text = .ok a := by
  refine ⟨"// first digit\n\x7b let d = digits; return d \x7d",
    Arguments.check_eq_ok_iff.mpr (by decide +kernel), by decide +kernel, by decide +kernel, ?_⟩
  rintro ⟨a, ha⟩
  have hnone : (compile "value" "Num" ["digits"]
      "// first digit\n\x7b let d = digits; return d \x7d").toOption.isSome = false := by
    decide +kernel
  have hsome := congrArg (fun result => result.toOption.isSome) ha
  exact Bool.noConfusion (hnone.symm.trans hsome)

end RuleAction

end ParseActions
