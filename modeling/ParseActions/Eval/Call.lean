import ParseActions.Eval.Error

/-!
# Calls of builtins

A call of a builtin names a module and a function and has a list of arguments. Missing arguments
are nil.

## Main definitions

* `Call`: a call
* `Call.arity`: the check of the number of arguments
* `Call.number`, `Call.string`, `Call.list`: the arguments by type
-/

namespace ParseActions

/-- A call `module.function(args)`. -/
structure Call where
  module : String
  function : String
  args : List Value

namespace Call

/-- The name by which messages refer to the function. -/
def name (call : Call) : String :=
  call.module ++ "." ++ call.function

/-- No function has the name of the call. -/
def unknown {α : Type} (call : Call) : Except EvalError α :=
  .error (.unknownFunction (.function call.module call.function))

/-- Checks the number of arguments. -/
def arity (call : Call) (least most : Nat) : Except EvalError Unit :=
  let n := call.args.length
  if least ≤ n ∧ n ≤ most then .ok ()
  else .error (.misuse (.arity call.name least most n))

/-- An argument, from zero. -/
def arg (call : Call) (i : Nat) : Value :=
  call.args[i]?.getD .nil

/-- An argument has another type than expected. -/
def mismatch {α : Type} (call : Call) (i : Nat) (expected : Value.Kind) : Except EvalError α :=
  .error (.typeMismatch (.argument call.name i expected (call.arg i).kind))

/-- An argument that is a number. -/
def number (call : Call) (i : Nat) : Except EvalError Float :=
  match call.arg i with
  | .number x => .ok x
  | _ => call.mismatch i .number

/-- An argument that is a string. -/
def string (call : Call) (i : Nat) : Except EvalError String :=
  match call.arg i with
  | .string s => .ok s
  | _ => call.mismatch i .string

/-- An argument that is a list. -/
def list (call : Call) (i : Nat) : Except EvalError (List Value) :=
  match call.arg i with
  | .list items => .ok items
  | _ => call.mismatch i .list

/-- An argument that is a number or nil. -/
def number? (call : Call) (i : Nat) : Except EvalError (Option Float) :=
  match call.arg i with
  | .nil => .ok none
  | _ => some <$> call.number i

/-- The place that a bound of a slice stands for in a sequence of the given length. Negative bounds
count from the end, and all bounds are moved into the sequence. -/
def clampIndex (bound : Float) (length : Nat) : Nat :=
  let last := Float.ofNat length
  let i := if bound < 0.0 then last + Double.trunc bound else Double.trunc bound
  Double.toWord (if i < 0.0 then 0.0 else if last < i then last else i)

/-- The items of a sequence from one bound to another, or to its end. -/
def slice {α : Type} (items : List α) (start : Float) (stop : Option Float) : List α :=
  let n := items.length
  let i := clampIndex start n
  let j := stop.elim n fun b => clampIndex b n
  (items.take j).drop i

end Call

end ParseActions
