import ParseActions.Body.Grammar
import ParseActions.Token.Lexer

/-!
# Parsing action bodies

A body is written as an expression, as a block in braces, or as the statements of a block whose
braces are left out. Reports of the lexer come before those of the parser, and a body is only given
when there are none of either.

## Main definitions

* `Parsed`: a body, or the reports on its text
* `Parsed.ofExpression`, `Parsed.ofBlock`: parsing a stream of tokens
* `Parsed.expression`, `Parsed.block`, `Parsed.statements`: parsing a source text
-/

namespace ParseActions

/-- The outcome of parsing. -/
structure Parsed where
  body : Option Body
  errors : Diagnostics

namespace Parsed

open Parse

/-- Parses a body that fills a stream, after separators; nothing but separators may follow. -/
def whole (part : String) (p : Parse Body) : Parse Body := do
  skipSeparators
  let body ← attempt p
  skipSeparators
  if body.isSome && !(← atEnd) then
    report .trailingInput ("unexpected '" ++ (← peekKind).display ++ "' after " ++ part)
  match body with
  | some body => return body
  | none => fail

/-- A bare expression. -/
def wholeExpression (grammar : Productions) : Parse Body := do
  skipSeparators
  if ← atEnd then
    report .emptyBody "action body is empty"
    fail
  else whole "expression" (.expr <$> grammar.expression)

/-- A block in braces. -/
def wholeBlock (grammar : Productions) : Parse Body :=
  whole "block" (.block <$> grammar.block)

/-- Runs a step on a stream; a body with reports is dropped. -/
def run (source : SourceText) (tokens : List Token) (p : Productions → Parse Body) : Parsed :=
  let last := (tokens.getLast?.map Token.span).getD (.point 1 1)
  let (body, state) :=
    p (productions (tokens.length + 1)) ⟨source, ⟨.eof, last⟩⟩ (State.start tokens)
  ⟨if state.errors.hasErrors then none else body, state.errors⟩

/-- Parses a stream of tokens as an expression. -/
def ofExpression (source : SourceText) (tokens : List Token) : Parsed :=
  run source tokens wholeExpression

/-- Parses a stream of tokens as a block. -/
def ofBlock (source : SourceText) (tokens : List Token) : Parsed :=
  run source tokens wholeBlock

/-- Puts the reports of the lexer before the others. -/
def afterLexer (lexical : Diagnostics) (parsed : Parsed) : Parsed :=
  if lexical.hasErrors then ⟨none, lexical.extend parsed.errors⟩ else parsed

/-- Parses a source text as an expression. -/
def expression (source : SourceText) : Parsed :=
  let (tokens, errors) := Token.lex source
  (ofExpression source tokens).afterLexer errors

/-- Parses a source text as a block. -/
def block (source : SourceText) : Parsed :=
  let (tokens, errors) := Token.lex source
  (ofBlock source tokens).afterLexer errors

/-- The tokens between a pair of braces: the opening one at the start of the text, the closing one
where it ends. -/
def inBraces (tokens : List Token) : List Token :=
  let last := tokens.getLast?.getD ⟨.eof, .point 1 1⟩
  ⟨.symbol .leftBrace, .point 1 1⟩ :: tokens.dropLast
    ++ [⟨.symbol .rightBrace, last.span⟩, last]

/-- Parses a source text as the statements of a block. -/
def statements (source : SourceText) : Parsed :=
  let (tokens, errors) := Token.lex source
  (ofBlock source (inBraces tokens)).afterLexer errors

end Parsed

end ParseActions
