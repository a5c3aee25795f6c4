import ParseActions.Body.Basic
import ParseActions.Value.Footprint

/-!
# Evaluation errors

Why the evaluation of a body stops before its end. A `return` is one of these reasons, too: it
unwinds to the end of the body, which then has its value.

## Main definitions

* `EvalError`: the reasons
* `EvalError.message`: their wording
-/

namespace ParseActions

/-- An operand or argument has a type that does not fit. -/
inductive Mismatch where
  | noField (object : Value.Kind) (field : String)
  | noMethod (object : Value.Kind) (method : String)
  | cannotIndex (object key : Value.Kind)
  | cannotNegate (operand : Value.Kind)
  | cannotIterate (items : Value.Kind)
  | cannotAdd (left right : Value.Kind)
  | cannotCompute (op : BinaryOp) (left right : Value.Kind)
  | cannotCompare (op : BinaryOp) (left right : Value.Kind)
  /-- The argument of a builtin, counted from zero. -/
  | argument (function : String) (place : Nat) (expected actual : Value.Kind)
  | cannotSum (item : Value.Kind)
  | cannotSort

namespace Mismatch

/-- The wording. -/
def message : Mismatch → String
  | noField object field => object.name ++ " has no field '" ++ field ++ "'"
  | noMethod object method => object.name ++ " has no method '" ++ method ++ "'"
  | cannotIndex object key => "cannot index " ++ object.name ++ " with " ++ key.name
  | cannotNegate operand => "cannot negate " ++ operand.name
  | cannotIterate items => "for loop requires list, got " ++ items.name
  | cannotAdd left right => "cannot add " ++ left.name ++ " and " ++ right.name
  | cannotCompute op left right =>
    "'" ++ op.symbol ++ "' requires numbers, got " ++ left.name ++ " and " ++ right.name
  | cannotCompare op left right =>
    "cannot compare " ++ left.name ++ " and " ++ right.name ++ " with '" ++ op.symbol ++ "'"
  | argument function place expected actual =>
    function ++ s!" argument {place + 1} must be a " ++ expected.name ++ ", got " ++ actual.name
  | cannotSum item => "list.sum requires numbers, found " ++ item.name
  | cannotSort => "list.sort requires all numbers or all strings"

end Mismatch

/-- What was looked for in nil. -/
inductive NilUse where
  | field (name : String)
  | method (name : String)
  | key (value : Value)

/-- The wording. -/
def NilUse.message : NilUse → String
  | field name => "cannot read field '" ++ name ++ "' of nil"
  | method name => "cannot call '" ++ name ++ "' on nil"
  | key value => "cannot index nil with " ++ value.display

/-- A name that no builtin has. -/
inductive UnknownName where
  | module (name : String)
  | function (owner name : String)
  | constant (owner name : String)

/-- The wording. -/
def UnknownName.message : UnknownName → String
  | module name => "unknown module '" ++ name ++ "'"
  | function owner name => owner ++ "." ++ name
  | constant owner name => owner ++ "." ++ name ++ " is not a constant"

/-- A call of a builtin that it does not take. -/
inductive Misuse where
  | arity (function : String) (least most actual : Nat)
  | noArguments (function : String)
  | repeatCount (count : Float)

/-- The wording. -/
def Misuse.message : Misuse → String
  | arity function least most actual =>
    let expected := if least = most then toString least else s!"{least} to {most}"
    function ++ " expects " ++ expected ++ " argument(s), got " ++ toString actual
  | noArguments function => function ++ " expects at least 1 argument"
  | repeatCount count => "string.repeat count " ++ Decimal.display count ++ " out of range"

/-- A bound on what a body may build. -/
inductive Bound where
  | value (what : String) (excess : Footprint.Excess)
  | range

/-- The wording. -/
def Bound.message : Bound → String
  | value what .bytes => what ++ s!" would exceed {Footprint.maxBytes} bytes"
  | value what .depth => what ++ s!" would nest deeper than {Footprint.maxDepth} levels"
  | range => "list.range is limited to 100000 items"

/-- Why an evaluation stops. -/
inductive EvalError where
  | typeMismatch (cause : Mismatch)
  | undefinedVariable (name : String)
  | nilAccess (cause : NilUse)
  | indexOutOfRange (index : Float) (length : Nat)
  | assertionFailed (text : String)
  | thrown (value : Value)
  | unknownFunction (cause : UnknownName)
  | misuse (cause : Misuse)
  | gasExhausted
  | limitExceeded (cause : Bound)
  /-- A `return`, with the value that the body will have. -/
  | returned (value : Value)

namespace EvalError

/-- The wording. -/
def message : EvalError → String
  | typeMismatch cause => "type mismatch: " ++ cause.message
  | undefinedVariable name => "undefined variable: " ++ name
  | nilAccess cause => "nil access: " ++ cause.message
  | indexOutOfRange index length =>
    "index out of range: index " ++ Decimal.display index ++ s!" out of range for length {length}"
  | assertionFailed text => "assertion failed: " ++ text
  | thrown value => value.display
  | unknownFunction cause => "unknown function: " ++ cause.message
  | misuse cause => "builtin error: " ++ cause.message
  | gasExhausted => "gas exhausted"
  | limitExceeded cause => "limit exceeded: " ++ cause.message
  | returned _ => "return"

end EvalError

/-- The footprint of what is to be built, unless it breaks a bound. -/
def Footprint.check (f : Footprint) (what : String) : Except EvalError Footprint :=
  match f.excess? with
  | none => .ok f
  | some excess => .error (.limitExceeded (.value what excess))

end ParseActions
