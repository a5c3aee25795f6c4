import ParseActions.Text.Source

/-!
# Action bodies

The expressions, statements and blocks that make up the body of an action. Every node carries the
span of source text it was written in.

## Main definitions

* `Ident`: an identifier with its place
* `Expr`, `Stmt`, `Block`: the nodes
* `Body`: a whole body, either a bare expression or a block
-/

namespace ParseActions

/-- An identifier with its place. -/
structure Ident where
  text : String
  span : Span
  deriving DecidableEq, Inhabited

/-- The operators between two operands. -/
inductive BinaryOp where
  | add
  | sub
  | mul
  | div
  | mod
  | eq
  | notEq
  | less
  | greater
  | lessEq
  | greaterEq
  | and
  | or
  deriving DecidableEq

/-- An operator as it is written. -/
def BinaryOp.symbol : BinaryOp → String
  | add => "+"
  | sub => "-"
  | mul => "*"
  | div => "/"
  | mod => "%"
  | eq => "=="
  | notEq => "!="
  | less => "<"
  | greater => ">"
  | lessEq => "<="
  | greaterEq => ">="
  | and => "and"
  | or => "or"

/-- The operators before one operand. -/
inductive UnaryOp where
  | negate
  | not
  deriving DecidableEq

mutual

/-- Expressions. -/
inductive Expr where
  | number (span : Span) (value : Float)
  | string (span : Span) (text : String)
  /-- A string with holes. -/
  | template (span : Span) (parts : List Fragment)
  | bool (span : Span) (value : Bool)
  | nil (span : Span)
  | list (span : Span) (items : List Expr)
  | record (span : Span) (fields : List Field)
  | ident (span : Span) (name : String)
  /-- The field of an object. -/
  | member (span : Span) (object : Expr) (field : Ident)
  /-- A call `object.method(args)`. -/
  | call (span : Span) (object : Expr) (method : Ident) (args : List Expr)
  | index (span : Span) (object : Expr) (key : Expr)
  | binary (span : Span) (op : BinaryOp) (left right : Expr)
  | unary (span : Span) (op : UnaryOp) (operand : Expr)
  /-- The left value, or the right one in place of nil. -/
  | coalesce (span : Span) (left right : Expr)
  | conditional (branches : Conditional)
  | paren (span : Span) (inner : Expr)

/-- A piece of a string with holes. -/
inductive Fragment where
  | text (text : String)
  | hole (value : Expr)

/-- A field of a record that is written out. -/
inductive Field where
  | mk (name : Ident) (value : Expr)

/-- A condition, the block for the case that it holds, and what follows it. -/
inductive Conditional where
  | mk (span : Span) (condition : Expr) (thenBlock : Block) (otherwise : Otherwise)

/-- What is done when a condition does not hold. -/
inductive Otherwise where
  | nothing
  | elseIf (branches : Conditional)
  | block (block : Block)

/-- Statements. -/
inductive Stmt where
  /-- Binds a name in the innermost scope. -/
  | bind (span : Span) (name : Ident) (value : Expr)
  | conditional (branches : Conditional)
  /-- Runs a block for each item, and binds the item and its index. -/
  | loop (span : Span) (item : Ident) (index : Option Ident) (items : Expr) (body : Block)
  /-- Ends the body with nil. -/
  | leave (span : Span)
  /-- Ends the body with a value. -/
  | leaveWith (span : Span) (value : Expr)
  | assert (span : Span) (condition : Expr) (message : Option String)
  | throw (span : Span) (value : Expr)
  | expr (value : Expr)

/-- A block of statements. -/
inductive Block where
  | mk (span : Span) (stmts : List Stmt)

end

/-- The span of a conditional. -/
def Conditional.span : Conditional → Span
  | .mk span .. => span

/-- The span of an expression. -/
def Expr.span : Expr → Span
  | number span _ | string span _ | template span _ | bool span _ | nil span | list span _
  | record span _ | ident span _ | member span .. | call span .. | index span ..
  | binary span .. | unary span .. | coalesce span .. | paren span _ => span
  | conditional branches => branches.span

namespace Block

/-- The span of a block, braces included. -/
def span : Block → Span
  | mk span _ => span

/-- The statements of a block. -/
def stmts : Block → List Stmt
  | mk _ stmts => stmts

end Block

/-- The body of an action. -/
inductive Body where
  | expr (value : Expr)
  | block (value : Block)

/-- The span of a body. -/
def Body.span : Body → Span
  | expr value => value.span
  | block b => b.span

end ParseActions
