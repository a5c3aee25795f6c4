import ParseActions.Body.Basic
import ParseActions.Diagnostic
import ParseActions.Text.Source
import ParseActions.Token.Basic

/-!
# Parsing steps

A step reads tokens from the front of a stream. It either gives a value or fails; in both cases it
leaves the tokens that are left, the reports made so far, and the nesting of expressions.

## Main definitions

* `Parse.State`: the tokens that are left, the nesting and the reports
* `Parse`: a step
* `Parse.expect`, `Parse.eat`, `Parse.nested`: the basic steps
* `Parse.commaList`, `Parse.chain`: lists and chains of operators
-/

namespace ParseActions

namespace Parse

/-- What a stream of tokens is read from: the source text, and the token that is found after the
last one. -/
structure Stream where
  source : SourceText
  final : Token

/-- The tokens that are left and what happened so far. -/
structure State where
  rest : List Token
  /-- The span of the last token that was read. -/
  previous : Span
  /-- The nesting of expressions at this point. -/
  depth : Nat
  errors : Diagnostics

/-- The deepest nesting of expressions. -/
def maxDepth : Nat := 32

namespace State

/-- The state before the first token. -/
def start (tokens : List Token) : State :=
  ⟨tokens, .point 1 1, 0, .empty⟩

/-- The next token. -/
def peek (stream : Stream) (s : State) : Token :=
  s.rest.headD stream.final

/-- The kind of the token that follows `n` others. -/
def kindAt (s : State) (n : Nat) : Token.Kind :=
  (s.rest[n]?).elim .eof Token.kind

/-- The state after the next token. -/
def advance (s : State) : State :=
  match s.rest with
  | [] => s
  | token :: rest => { s with rest, previous := token.span }

/-- Skips the tokens that satisfy `p`. -/
def skipWhile (p : Token.Kind → Bool) (s : State) : State :=
  let skipped := s.rest.takeWhile fun t => p t.kind
  { s with
    rest := s.rest.dropWhile fun t => p t.kind
    previous := (skipped.getLast?.map Token.span).getD s.previous }

/-- The state after a report at a span, with advice. -/
def report (stream : Stream) (code : Code) (message : String) (span : Span)
    (advice : Option String) (s : State) : State :=
  let d := Diagnostic.make stream.source.name code message span
    ((stream.source.line? span.startLine).getD "")
  { s with errors := s.errors.push (advice.elim d d.suggesting) }

end State

end Parse

/-- A step that reads tokens. -/
def Parse (α : Type) : Type :=
  Parse.Stream → Parse.State → Option α × Parse.State

namespace Parse

instance : Monad Parse where
  pure a := fun _ s => (some a, s)
  bind p f := fun stream s =>
    match p stream s with
    | (some a, s) => f a stream s
    | (none, s) => (none, s)

/-- Fails without a report. -/
def fail {α : Type} : Parse α :=
  fun _ s => (none, s)

/-- What a step finds, whether or not it succeeds. -/
def attempt {α : Type} (p : Parse α) : Parse (Option α) :=
  fun stream s =>
    let (a, s) := p stream s
    (some a, s)

/-- The kind of the next token. -/
def peekKind : Parse Token.Kind :=
  fun stream s => (some (s.peek stream).kind, s)

/-- The span of the next token. -/
def currentSpan : Parse Span :=
  fun stream s => (some (s.peek stream).span, s)

/-- The span of the last token that was read. -/
def previousSpan : Parse Span :=
  fun _ s => (some s.previous, s)

/-- The kind of the token that follows `n` others. -/
def lookAhead (n : Nat) : Parse Token.Kind :=
  fun _ s => (some (s.kindAt n), s)

/-- Reads the next token. -/
def advance : Parse Token :=
  fun stream s => (some (s.peek stream), s.advance)

/-- Whether the next token is of the given kind. -/
def check (kind : Token.Kind) : Parse Bool := do
  return (← peekKind) = kind

/-- Whether the tokens have been read. -/
def atEnd : Parse Bool :=
  check .eof

/-- Reads the next token if it is of the given kind. -/
def eat (kind : Token.Kind) : Parse Bool := do
  if ← check kind then
    let _ ← advance
    return true
  else return false

/-- Skips newlines. -/
def skipNewlines : Parse Unit :=
  fun _ s => (some (), s.skipWhile (· == .newline))

/-- Skips newlines and semicolons. -/
def skipSeparators : Parse Unit :=
  fun _ s => (some (), s.skipWhile Token.Kind.isSeparator)

/-- Reports at a span. -/
def reportAt (code : Code) (message : String) (span : Span) (advice : Option String) : Parse Unit :=
  fun stream s => (some (), s.report stream code message span advice)

/-- Reports at the next token. -/
def report (code : Code) (message : String) : Parse Unit := do
  reportAt code message (← currentSpan) none

/-- Reports that something else than the next token was expected, and fails. -/
def unexpected {α : Type} (code : Code) (expected : String) : Parse α := do
  report code ("expected " ++ expected ++ ", got '" ++ (← peekKind).display ++ "'")
  fail

/-- Reads a token of the given kind. -/
def expect (kind : Token.Kind) : Parse Token := do
  if ← check kind then advance
  else
    let code :=
      match kind with
      | .symbol .rightParen | .symbol .rightBrace | .symbol .rightBracket =>
        Code.unclosedDelimiter
      | _ => .unexpectedToken
    unexpected code ("'" ++ kind.display ++ "'")

/-- Reads an identifier. -/
def expectIdentifier : Parse Ident := do
  match ← peekKind with
  | .identifier name => return ⟨name, (← advance).span⟩
  | _ => unexpected .unexpectedToken "identifier"

/-- Reads a name after a dot or before a colon, where reserved words are names too. -/
def expectMemberName : Parse Ident := do
  match ← peekKind with
  | .identifier name => return ⟨name, (← advance).span⟩
  | .keyword word => return ⟨word.word, (← advance).span⟩
  | _ => unexpected .unexpectedToken "name"

/-- Reads a string without holes. -/
def expectString : Parse String := do
  match ← peekKind with
  | .string text =>
    let _ ← advance
    return text
  | _ => unexpected .unexpectedToken "string literal"

/-- Ends a statement: at a separator, before a closing brace, or at the end. -/
def expectSeparator : Parse Unit := do
  match ← peekKind with
  | .eof => return
  | .symbol .rightBrace => return
  | kind =>
    if kind.isSeparator then skipSeparators
    else report .unexpectedToken ("expected newline or ';', got '" ++ kind.display ++ "'")

/-- Runs a step one level of nesting deeper, unless that is too deep. -/
def nested {α : Type} (p : Parse α) : Parse α :=
  fun stream s =>
    let inner := { s with depth := s.depth + 1 }
    let (a, after) :=
      if maxDepth < inner.depth then
        (none,
          inner.report stream .nestingLimitExceeded
            s!"maximum expression nesting depth is {maxDepth}" (inner.peek stream).span none)
      else p stream inner
    (a, { after with depth := after.depth - 1 })

/-- Whether a token can start a statement or end a block. -/
def startsStatement : Token.Kind → Bool
  | .keyword .letWord | .keyword .ifWord | .keyword .forWord | .keyword .returnWord
  | .keyword .assertWord | .keyword .throwWord | .symbol .rightBrace => true
  | _ => false

/-- Skips to where the next statement can start, after a failure. -/
def synchronize : Parse Unit :=
  fun _ s =>
    let s := s.skipWhile fun k => !(k == .eof || k.isSeparator || startsStatement k)
    (some (), s.skipWhile Token.Kind.isSeparator)

/-- Items with commas between them, up to a closing symbol, which is left to be read. A comma may
follow the last item. `budget` bounds the number of items. -/
def commaItems {α : Type} (item : Parse α) (close : Symbol) : (budget : Nat) → Parse (List α)
  | 0 => fail
  | budget + 1 => do
    skipNewlines
    let a ← item
    skipNewlines
    if ← eat (.symbol .comma) then
      skipNewlines
      if ← check (.symbol close) then return [a]
      else return a :: (← commaItems item close budget)
    else return [a]

/-- A list of items with commas between them, which may be empty. -/
def commaList {α : Type} (budget : Nat) (item : Parse α) (close : Symbol) : Parse (List α) := do
  skipNewlines
  if ← check (.symbol close) then return []
  else commaItems item close budget

/-- Operands with operators after the first operand `left`, combined to the left. A newline may
follow an operator. `budget` bounds the number of operators. -/
def chainFrom {α β : Type} (op? : Token.Kind → Option β) (operand : Parse α)
    (combine : α → β → α → α) : (budget : Nat) → (left : α) → Parse α
  | 0, left => return left
  | budget + 1, left => do
    match op? (← peekKind) with
    | none => return left
    | some op =>
      let _ ← advance
      skipNewlines
      let right ← operand
      chainFrom op? operand combine budget (combine left op right)

/-- A chain of operands and operators, combined to the left. -/
def chain {α β : Type} (budget : Nat) (op? : Token.Kind → Option β) (operand : Parse α)
    (combine : α → β → α → α) : Parse α := do
  chainFrom op? operand combine budget (← operand)

end Parse

end ParseActions
