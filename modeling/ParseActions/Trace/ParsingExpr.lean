import ParseActions.Keyed
import ParseActions.Text.Literal

/-!
# Parsing expressions

The expressions of a grammar by which input is matched, and the bodies of its rules. Places in a
text, be it that of the grammar or the input of a match, are half-open ranges of bytes.

## Main definitions

* `Interval`, `Interval.contains`, `Interval.cover`
* `ParsingExpr`, `Shape`: an expression and its form
* `ParsingExpr.display`: an expression as it is written in a grammar
* `Grammar`: the bodies of rules by name
-/

namespace ParseActions

/-! ## Intervals -/

/-- The bytes from `start` up to `stop`, without `stop`. -/
structure Interval where
  start : Nat
  stop : Nat
  deriving DecidableEq, Inhabited

namespace Interval

/-- The empty interval at a place. -/
def point (place : Nat) : Interval :=
  ⟨place, place⟩

/-- The number of bytes. -/
def length (i : Interval) : Nat :=
  i.stop - i.start

/-- Whether there are no bytes. -/
def isEmpty (i : Interval) : Bool :=
  i.length == 0

/-- Whether an interval lies inside this one. -/
def contains (i j : Interval) : Bool :=
  i.start ≤ j.start && j.stop ≤ i.stop

/-- The smallest interval with both intervals in it. -/
def cover (i j : Interval) : Interval :=
  ⟨min i.start j.start, max i.stop j.stop⟩

/-- The ends of an interval. -/
def display (i : Interval) : String :=
  s!"{i.start}..{i.stop}"

end Interval

/-! ## Expressions -/

/-- How often an expression is matched. -/
inductive Repetition where
  | star
  | plus
  | optional
  deriving DecidableEq

/-- The mark of a repetition. -/
def Repetition.symbol : Repetition → String
  | star => "*"
  | plus => "+"
  | optional => "?"

mutual

/-- A parsing expression, with the place in the grammar's text where it was written, if any. -/
inductive ParsingExpr where
  | mk (shape : Shape) (source : Option Interval)

/-- The forms of parsing expressions. -/
inductive Shape where
  /-- The application of a rule. -/
  | apply (rule : String)
  | seq (factors : List ParsingExpr)
  | alt (terms : List ParsingExpr)
  | iter (inner : ParsingExpr) (op : Repetition)
  | terminal (text : String)
  /-- One of the characters from the first to the last. -/
  | range (first last : Char)
  /-- A character of a Unicode category. -/
  | category (name : String)
  /-- Matches nothing where the inner expression does not match. -/
  | not (inner : ParsingExpr)
  | lookahead (inner : ParsingExpr)
  /-- The inner expression without implicit white space. -/
  | lex (inner : ParsingExpr)

end

namespace ParsingExpr

/-- The form of an expression. -/
def shape : ParsingExpr → Shape
  | mk shape _ => shape

/-- Where an expression was written. -/
def source : ParsingExpr → Option Interval
  | mk _ source => source

/-- An expression that was not written anywhere. -/
def of (shape : Shape) : ParsingExpr :=
  mk shape none

/-- The same expression, written at a place. -/
def writtenAt (e : ParsingExpr) (place : Interval) : ParsingExpr :=
  mk e.shape (some place)

/-- The rule that is applied. -/
def rule? (e : ParsingExpr) : Option String :=
  match e.shape with
  | .apply rule => some rule
  | _ => none

/-- Whether characters are matched directly. -/
def isPrimitive (e : ParsingExpr) : Bool :=
  match e.shape with
  | .terminal _ | .range .. | .category _ => true
  | _ => false

/-- Whether other expressions are only combined. -/
def isCombinator (e : ParsingExpr) : Bool :=
  match e.shape with
  | .seq _ | .alt _ => true
  | _ => false

end ParsingExpr

mutual

/-- The expression as it is written in a grammar. -/
def ParsingExpr.display : ParsingExpr → String
  | .mk shape _ => shape.display

/-- The form as it is written in a grammar. -/
def Shape.display : Shape → String
  | .apply rule => rule
  | .seq factors => "(" ++ " ".intercalate (displayAll factors) ++ ")"
  | .alt terms => "(" ++ " | ".intercalate (displayAll terms) ++ ")"
  | .iter inner op => inner.display ++ op.symbol
  | .terminal text => Text.quoted text
  | .range first last => Text.charLiteral first ++ ".." ++ Text.charLiteral last
  | .category name => "\\p\x7b" ++ name ++ "\x7d"
  | .not inner => "~" ++ inner.display
  | .lookahead inner => "&" ++ inner.display
  | .lex inner => "#" ++ inner.display

/-- The expressions as they are written in a grammar. -/
def displayAll : List ParsingExpr → List String
  | [] => []
  | e :: rest => e.display :: displayAll rest

end

/-- The bodies of rules, in the order of their names. -/
structure Grammar where
  bodies : List (String × ParsingExpr)

namespace Grammar

/-- No rules. -/
def empty : Grammar :=
  ⟨[]⟩

/-- The grammar with a body for a rule. -/
def define (grammar : Grammar) (rule : String) (body : ParsingExpr) : Grammar :=
  ⟨Keyed.insert rule body grammar.bodies⟩

/-- The body of a rule. -/
def body? (grammar : Grammar) (rule : String) : Option ParsingExpr :=
  Keyed.find? rule grammar.bodies

end Grammar

end ParseActions
