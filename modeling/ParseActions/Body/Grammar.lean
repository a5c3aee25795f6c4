import ParseActions.Body.Parse

/-!
# The grammar of action bodies

From the loosest to the tightest, the operators are `or`, `and`, the coalescing operator,
comparisons, sums, products, the operators before one operand, and member access, calls and
indexing. Comparisons do not chain. A newline may follow a binary operator.

Each production is a step over the four productions it nests: an expression, an operand of an
operator before it, a block, and the conditional after `else`. A nested production starts after at
least one token of the outer one, so the number of tokens bounds the nesting.

## Main definitions

* `Productions`: the productions that nest
* `Productions.orExpr` … `Productions.primary`: the levels of expressions
* `Productions.statement`, `Productions.block`: statements
* `productions`: the grammar, tied together
-/

namespace ParseActions

/-- The productions that the others nest, and a bound on the number of tokens that are left. -/
structure Productions where
  budget : Nat
  expression : Parse Expr
  /-- An operand, with operators before it. -/
  operand : Parse Expr
  block : Parse Block
  /-- The conditional after `else`. -/
  conditional : Parse Conditional

namespace Productions

open Parse

/-! ## Operators -/

/-- The comparison that a token stands for. -/
def comparison? : Token.Kind → Option BinaryOp
  | .symbol .equalEqual => some .eq
  | .symbol .bangEqual => some .notEq
  | .symbol .less => some .less
  | .symbol .greater => some .greater
  | .symbol .lessEqual => some .lessEq
  | .symbol .greaterEqual => some .greaterEq
  | _ => none

/-- The sum or difference that a token stands for. -/
def additive? : Token.Kind → Option BinaryOp
  | .symbol .plus => some .add
  | .symbol .minus => some .sub
  | _ => none

/-- The product, quotient or remainder that a token stands for. -/
def multiplicative? : Token.Kind → Option BinaryOp
  | .symbol .star => some .mul
  | .symbol .slash => some .div
  | .symbol .percent => some .mod
  | _ => none

/-- The operator before an operand that a token stands for. -/
def unary? : Token.Kind → Option UnaryOp
  | .keyword .notWord => some .not
  | .symbol .minus => some .negate
  | _ => none

/-- Whether a token is the given one. -/
def only? (kind : Token.Kind) (op : BinaryOp) (k : Token.Kind) : Option BinaryOp :=
  if k = kind then some op else none

/-- An operator applied to two operands. -/
def binary (left : Expr) (op : BinaryOp) (right : Expr) : Expr :=
  .binary (left.span.merge right.span) op left right

/-! ## Literals -/

variable (sub : Productions)

/-- The items of a list, after its opening bracket. -/
def list (start : Span) : Parse Expr := do
  let _ ← advance
  let items ← commaList sub.budget sub.expression .rightBracket
  let _ ← expect (.symbol .rightBracket)
  return .list (start.merge (← previousSpan)) items

/-- A field of a record: a name, a colon and a value. -/
def field : Parse Field := do
  let name ← expectMemberName
  let _ ← expect (.symbol .colon)
  skipNewlines
  return .mk name (← sub.expression)

/-- The fields of a record, after its opening brace. -/
def record (start : Span) : Parse Expr := do
  let _ ← advance
  let fields ← commaList sub.budget (field sub) .rightBrace
  let _ ← expect (.symbol .rightBrace)
  return .record (start.merge (← previousSpan)) fields

/-- A piece of text in a string, if it is not empty. -/
def textPart (text : String) : List Fragment :=
  if text.isEmpty then [] else [.text text]

/-- The holes of a string and the text between them, up to the end of the string. -/
def holes : (budget : Nat) → Parse (List Fragment)
  | 0 => fail
  | budget + 1 => do
    let _ ← expect .holeStart
    let value ← sub.expression
    let _ ← expect .holeEnd
    match ← peekKind with
    | .stringPart text =>
      let _ ← advance
      return .hole value :: textPart text ++ (← holes budget)
    | .stringEnd text =>
      let _ ← advance
      return .hole value :: textPart text
    | _ =>
      report .unterminatedString "unterminated string interpolation"
      fail

/-! ## Conditionals -/

/-- Whether the token after the newlines is `else`. -/
def elseFollows : Parse Bool :=
  fun _ s => (some ((s.skipWhile (· == .newline)).kindAt 0 = .keyword .elseWord), s)

/-- A condition with its blocks. Newlines may stand before `else`. -/
def branches : Parse Conditional := do
  let start ← currentSpan
  let _ ← advance
  let condition ← sub.expression
  let thenBlock ← sub.block
  if ← elseFollows then skipNewlines
  if ← eat (.keyword .elseWord) then
    if ← check (.keyword .ifWord) then
      let next ← sub.conditional
      return .mk (start.merge (← previousSpan)) condition thenBlock (.elseIf next)
    else
      let block ← sub.block
      return .mk (start.merge (← previousSpan)) condition thenBlock (.block block)
  else return .mk (start.merge (← previousSpan)) condition thenBlock .nothing

/-! ## Expressions -/

/-- A literal, a name, a parenthesized expression or a conditional. -/
def primary : Parse Expr := do
  let start ← currentSpan
  match ← peekKind with
  | .number value =>
    let _ ← advance
    return .number start value
  | .string text =>
    let _ ← advance
    return .string start text
  | .stringStart text =>
    let _ ← advance
    let parts ← holes sub sub.budget
    return .template (start.merge (← previousSpan)) (textPart text ++ parts)
  | .keyword .trueWord =>
    let _ ← advance
    return .bool start true
  | .keyword .falseWord =>
    let _ ← advance
    return .bool start false
  | .keyword .nilWord =>
    let _ ← advance
    return .nil start
  | .symbol .leftBracket => list sub start
  | .symbol .leftBrace => record sub start
  | .symbol .leftParen =>
    let _ ← advance
    skipNewlines
    let inner ← sub.expression
    skipNewlines
    let _ ← expect (.symbol .rightParen)
    return .paren (start.merge (← previousSpan)) inner
  | .keyword .ifWord => return .conditional (← branches sub)
  | .identifier name =>
    if (← lookAhead 1) = .symbol .leftParen then
      reportAt .unexpectedToken ("'" ++ name ++ "' is not callable") start
        (some "call builtins through their module, e.g. math.max(a, b) or string.upper(s)")
      fail
    else
      let _ ← advance
      return .ident start name
  | kind =>
    report .unexpectedToken ("expected expression, got '" ++ kind.display ++ "'")
    fail

/-- Member accesses, calls and indexing after an expression. -/
def suffixes : (budget : Nat) → (object : Expr) → Parse Expr
  | 0, object => return object
  | budget + 1, object => do
    match ← peekKind with
    | .symbol .dot =>
      let _ ← advance
      let name ← expectMemberName
      if ← check (.symbol .leftParen) then
        let _ ← advance
        let args ← commaList sub.budget sub.expression .rightParen
        let _ ← expect (.symbol .rightParen)
        suffixes budget (.call (object.span.merge (← previousSpan)) object name args)
      else suffixes budget (.member (object.span.merge name.span) object name)
    | .symbol .leftBracket =>
      let _ ← advance
      skipNewlines
      let key ← sub.expression
      skipNewlines
      let _ ← expect (.symbol .rightBracket)
      suffixes budget (.index (object.span.merge (← previousSpan)) object key)
    | _ => return object

/-- An operand, with operators before it. -/
def prefixed : Parse Expr := do
  let start ← currentSpan
  match unary? (← peekKind) with
  | some op =>
    let _ ← advance
    let operand ← nested sub.operand
    return .unary (start.merge operand.span) op operand
  | none => suffixes sub sub.budget (← primary sub)

/-- Products. -/
def product : Parse Expr :=
  chain sub.budget multiplicative? (prefixed sub) binary

/-- Sums. -/
def sum : Parse Expr :=
  chain sub.budget additive? (product sub) binary

/-- At most one comparison of sums. -/
def comparison : Parse Expr := do
  let left ← sum sub
  match comparison? (← peekKind) with
  | none => return left
  | some op =>
    let _ ← advance
    skipNewlines
    let right ← sum sub
    if (comparison? (← peekKind)).isSome then
      report .unexpectedToken
        "comparison operators cannot be chained; use 'and' to combine: a < b and b < c"
    return binary left op right

/-- Comparisons, where the next one stands in for nil. -/
def coalesced : Parse Expr :=
  chain sub.budget
    (fun k => if k = .symbol .questionQuestion then some () else none)
    (comparison sub) fun left _ right => .coalesce (left.span.merge right.span) left right

/-- Conjunctions. -/
def conjunction : Parse Expr :=
  chain sub.budget (only? (.keyword .andWord) .and) (coalesced sub) binary

/-- Disjunctions. -/
def disjunction : Parse Expr :=
  chain sub.budget (only? (.keyword .orWord) .or) (conjunction sub) binary

/-! ## Statements -/

/-- A loop over the items of a value. -/
def loop : Parse Stmt := do
  let start ← currentSpan
  let _ ← advance
  let item ← expectIdentifier
  let index ← if ← eat (.symbol .comma) then some <$> expectIdentifier else pure none
  let _ ← expect (.keyword .inWord)
  let items ← sub.expression
  let body ← sub.block
  return .loop (start.merge (← previousSpan)) item index items body

/-- The binding of a name. -/
def binding : Parse Stmt := do
  let start ← currentSpan
  let _ ← advance
  let name ← expectIdentifier
  let _ ← expect (.symbol .equal)
  skipNewlines
  let value ← sub.expression
  let span := start.merge (← previousSpan)
  expectSeparator
  return .bind span name value

/-- The end of the body, with or without a value. -/
def leave : Parse Stmt := do
  let start := (← advance).span
  let kind ← peekKind
  if kind.isSeparator || kind == .eof || kind == .symbol .rightBrace then
    let span := start.merge (← previousSpan)
    expectSeparator
    return .leave span
  else
    let value ← sub.expression
    let span := start.merge (← previousSpan)
    expectSeparator
    return .leaveWith span value

/-- A condition that has to hold, with a message for the case that it does not. -/
def assertion : Parse Stmt := do
  let start ← currentSpan
  let _ ← advance
  let condition ← sub.expression
  let message ← if ← eat (.symbol .comma) then some <$> expectString else pure none
  let span := start.merge (← previousSpan)
  expectSeparator
  return .assert span condition message

/-- A value that is thrown. -/
def throwing : Parse Stmt := do
  let start ← currentSpan
  let _ ← advance
  let value ← sub.expression
  let span := start.merge (← previousSpan)
  expectSeparator
  return .throw span value

/-- A statement and the separator after it. -/
def statement : Parse Stmt := do
  skipSeparators
  match ← peekKind with
  | .eof => fail
  | .symbol .rightBrace => fail
  | .keyword .letWord => binding sub
  | .keyword .ifWord =>
    let next ← branches sub
    expectSeparator
    return .conditional next
  | .keyword .forWord =>
    let stmt ← loop sub
    expectSeparator
    return stmt
  | .keyword .returnWord => leave sub
  | .keyword .assertWord => assertion sub
  | .keyword .throwWord => throwing sub
  | _ =>
    let value ← sub.expression
    expectSeparator
    return .expr value

/-- Whether as many reports were made as are kept. -/
def tooManyReports : Parse Bool :=
  fun _ s => (some s.errors.isFull, s)

/-- The statements of a block, up to its closing brace. After a failure the next statement is looked
for. `budget` bounds the number of statements. -/
def statements : (budget : Nat) → Parse (List Stmt)
  | 0 => return []
  | budget + 1 => do
    if (← check (.symbol .rightBrace)) || (← atEnd) || (← tooManyReports) then return []
    else
      match ← attempt (statement sub) with
      | some stmt =>
        skipSeparators
        return stmt :: (← statements budget)
      | none =>
        synchronize
        skipSeparators
        statements budget

/-- A block: braces around statements. -/
def braces : Parse Block := do
  let start ← currentSpan
  let _ ← expect (.symbol .leftBrace)
  skipSeparators
  let stmts ← statements sub sub.budget
  let _ ← expect (.symbol .rightBrace)
  return .mk (start.merge (← previousSpan)) stmts

/-- The productions one level up. -/
def next : Productions where
  budget := sub.budget + 1
  expression := nested (disjunction sub)
  operand := prefixed sub
  block := braces sub
  conditional := branches sub

end Productions

/-- The productions for streams of at most `budget` tokens. -/
def productions : (budget : Nat) → Productions
  | 0 => ⟨0, Parse.fail, Parse.fail, Parse.fail, Parse.fail⟩
  | budget + 1 => (productions budget).next

end ParseActions
