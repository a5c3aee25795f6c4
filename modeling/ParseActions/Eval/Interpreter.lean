import ParseActions.Eval.Builtin
import ParseActions.Eval.Machine

/-!
# The interpreter of action bodies

Bodies are evaluated by recursion on their nodes. Every expression and every statement costs a unit
of gas, and every round of a loop one more; values that are built or copied cost gas in proportion
to their size.

## Main definitions

* `Eval.callBuiltin`: calls of builtins, which are measured, and of `core.log`, which writes
* `Expr.eval`, `Stmt.eval`, `Block.eval`: the evaluation of nodes
* `Body.eval`: the evaluation of a body, where a `return` gives its value
-/

namespace ParseActions

namespace Eval

/-! ## Operators -/

/-- The place that an index means in a sequence of the given length. -/
def place (index : Float) (length : Nat) : Except EvalError Nat :=
  if Double.isIntegral index && 0.0 ≤ index && index < Float.ofNat length then
    .ok (Double.toWord index)
  else .error (.indexOutOfRange index length)

/-- A text followed by another, if the size allows. -/
def append (s t : String) : Except EvalError Value := do
  let _ ← (Footprint.string (s.utf8ByteSize + t.utf8ByteSize)).check "string"
  return .string (s ++ t)

/-- Adds numbers, appends lists, and appends texts when one side is a string. -/
def add : (left right : Value) → Except EvalError Value
  | .number x, .number y => .ok (.number (x + y))
  | .string s, right => append s right.display
  | left, .string t => append left.display t
  | .list xs, .list ys => .ok (.list (xs ++ ys))
  | left, right => .error (.typeMismatch (.cannotAdd left.kind right.kind))

/-- Computes with two numbers. -/
def compute (op : BinaryOp) (f : Float → Float → Float) :
    (left right : Value) → Except EvalError Value
  | .number x, .number y => .ok (.number (f x y))
  | left, right => .error (.typeMismatch (.cannotCompute op left.kind right.kind))

/-- Compares two numbers or two strings; strings are compared by their bytes. -/
def compareWith (op : BinaryOp) (numbers : Float → Float → Bool)
    (strings : String → String → Bool) :
    (left right : Value) → Except EvalError Value
  | .number x, .number y => .ok (.bool (numbers x y))
  | .string s, .string t => .ok (.bool (strings s t))
  | left, right => .error (.typeMismatch (.cannotCompare op left.kind right.kind))

/-- Applies an operator to the values of both operands. -/
def binary (op : BinaryOp) (left right : Value) : Except EvalError Value :=
  match op with
  | .add => add left right
  | .sub => compute op (· - ·) left right
  | .mul => compute op (· * ·) left right
  | .div => compute op (· / ·) left right
  | .mod => compute op Double.remainder left right
  | .eq => .ok (.bool (left == right))
  | .notEq => .ok (.bool (left != right))
  | .less => compareWith op (· < ·) (· < ·) left right
  | .greater => compareWith op (· > ·) (· > ·) left right
  | .lessEq => compareWith op (· ≤ ·) (· ≤ ·) left right
  | .greaterEq => compareWith op (· ≥ ·) (· ≥ ·) left right
  | .and => .ok (.bool (left.isTruthy && right.isTruthy))
  | .or => .ok (.bool (left.isTruthy || right.isTruthy))

/-- Applies an operator to the value of its operand. -/
def unary : UnaryOp → Value → Except EvalError Value
  | .negate, .number x => .ok (.number (-x))
  | .negate, v => .error (.typeMismatch (.cannotNegate v.kind))
  | .not, v => .ok (.bool !v.isTruthy)

/-- The item, character or field that a key means. -/
def index (object key : Value) : Except EvalError Value :=
  match object, key with
  | .list items, .number i => do
    let n ← place i items.length
    return items[n]?.getD .nil
  | .string s, .number i => do
    let cs := s.toList
    let n ← place i cs.length
    return .string (cs[n]?.elim "" Char.toString)
  | .record fields, .string name => .ok ((Keyed.find? name fields).getD .nil)
  | .nil, key => .error (.nilAccess (.key key))
  | object, key => .error (.typeMismatch (.cannotIndex object.kind key.kind))

/-- The field of a value: those of a record, and the length of a list or string. -/
def member (object : Value) (field : String) : Except EvalError Value :=
  match object with
  | .record fields => .ok ((Keyed.find? field fields).getD .nil)
  | .list items =>
    if field = "length" then .ok (.number (Float.ofNat items.length))
    else .error (.typeMismatch (.noField .list field))
  | .string s =>
    if field = "length" then .ok (.number (Float.ofNat s.length))
    else .error (.typeMismatch (.noField .string field))
  | .nil => .error (.nilAccess (.field field))
  | object => .error (.typeMismatch (.noField object.kind field))

/-! ## Names and calls -/

/-- The value of a variable, which is copied. -/
def variableValue (name : String) : Eval Value := do
  match (← env).get? name with
  | none => fail (.undefinedVariable name)
  | some v =>
    charge (Footprint.of v).gas
    return v

/-- The module that an expression names, unless the name is bound. -/
def module? (object : Expr) : Eval (Option String) := do
  match object with
  | .ident _ name =>
    if !(← env).isBound name && Builtin.isModule name then return some name else return none
  | _ => return none

/-- The module whose functions are the methods of a value. -/
def methodModule (object : Value) (method : String) : Except EvalError String :=
  match object with
  | .string _ => .ok "string"
  | .list _ => .ok "list"
  | .number _ => .ok "math"
  | .record _ => .ok "record"
  | .nil => .error (.nilAccess (.method method))
  | .bool _ => .error (.typeMismatch (.noMethod .bool method))

/-- Calls a builtin. The log is written by the function `core.log`, whose value is its first
argument; the values of all other functions are measured. -/
def callBuiltin (module function : String) (args : List Value) : Eval Value := do
  if module = "core" ∧ function = "log" then
    let line := " ".intercalate (args.map Value.display)
    charge (Footprint.string line.utf8ByteSize).gas
    write line
    return args.head?.getD .nil
  else
    let v ← lift (Builtin.call module function args)
    measured v (module ++ "." ++ function)

/-- The items that a loop runs over: those of a list, or the characters of a string. -/
def loopItems : Value → Except EvalError (List Value)
  | .list items => .ok items
  | .string s => do
    let cs := s.toList
    let _ ← (Footprint.chars cs.length).check "for loop over string"
    return cs.map fun c => .string c.toString
  | v => .error (.typeMismatch (.cannotIterate v.kind))

end Eval

open Eval

mutual

/-- Evaluates an expression. -/
def Expr.eval (e : Expr) : Eval Value := do
  tick
  match e with
  | .number _ x => return .number x
  | .string _ s => return .string s
  | .bool _ b => return .bool b
  | .nil _ => return .nil
  | .template _ parts =>
    let s ← evalFragments "" parts
    charge (Footprint.string s.utf8ByteSize).gas
    return .string s
  | .list _ items =>
    let (size, values) ← evalItems .container items
    charge size.gas
    return .list values
  | .record _ fields =>
    let (size, entries) ← evalFields .container [] fields
    charge size.gas
    return .record entries
  | .ident _ name => variableValue name
  | .member _ object field =>
    match ← module? object with
    | some module =>
      match Builtin.constant? module field.text with
      | some v => return v
      | none => fail (.unknownFunction (.constant module field.text))
    | none =>
      let v ← object.eval
      lift (member v field.text)
  | .call _ object method args =>
    match ← module? object with
    | some module =>
      let values ← evalArgs args
      callBuiltin module method.text values
    | none =>
      let v ← object.eval
      let module ← lift (methodModule v method.text)
      let values ← evalArgs args
      callBuiltin module method.text (v :: values)
  | .index _ object key =>
    let v ← object.eval
    let k ← key.eval
    lift (index v k)
  | .binary _ .and left right =>
    let l ← left.eval
    if l.isTruthy then
      let r ← right.eval
      return .bool r.isTruthy
    else return .bool false
  | .binary _ .or left right =>
    let l ← left.eval
    if l.isTruthy then return .bool true
    else
      let r ← right.eval
      return .bool r.isTruthy
  | .binary _ op left right =>
    let l ← left.eval
    let r ← right.eval
    let v ← lift (Eval.binary op l r)
    if op = .add then measured v "sum" else return v
  | .unary _ op operand =>
    let v ← operand.eval
    lift (Eval.unary op v)
  | .coalesce _ left right =>
    let v ← left.eval
    if v.isNil then right.eval else return v
  | .conditional branches => branches.eval
  | .paren _ inner => inner.eval

/-- Writes the pieces of a string after `out`. The size is checked where a hole is filled. -/
def evalFragments (out : String) : List Fragment → Eval String
  | [] => return out
  | .text s :: rest => evalFragments (out ++ s) rest
  | .hole e :: rest => do
    let v ← e.eval
    let s := v.display
    let _ ← check (.string (out.utf8ByteSize + s.utf8ByteSize)) "string"
    evalFragments (out ++ s) rest

/-- Evaluates the items of a list that has the given size so far. -/
def evalItems (size : Footprint) : List Expr → Eval (Footprint × List Value)
  | [] => return (size, [])
  | e :: rest => do
    let v ← e.eval
    let size ← check (size.withItem (.of v)) "list"
    let (size, values) ← evalItems size rest
    return (size, v :: values)

/-- Evaluates the fields of a record that has the given size and fields so far. -/
def evalFields (size : Footprint) (entries : List (String × Value)) :
    List Field → Eval (Footprint × List (String × Value))
  | [] => return (size, entries)
  | .mk name e :: rest => do
    let v ← e.eval
    let size ←
      check ((size.withItem (.of v)).withItem (.string name.text.utf8ByteSize)) "record"
    evalFields size (Keyed.insert name.text v entries) rest

/-- Evaluates arguments from left to right. -/
def evalArgs : List Expr → Eval (List Value)
  | [] => return []
  | e :: rest => do
    let v ← e.eval
    let values ← evalArgs rest
    return v :: values

/-- Evaluates the branch that a condition selects, in a scope of its own. -/
def Conditional.eval : Conditional → Eval Value
  | .mk _ condition thenBlock otherwise => do
    let v ← condition.eval
    if v.isTruthy then inScope thenBlock.eval
    else
      match otherwise with
      | .nothing => return .nil
      | .elseIf branches => branches.eval
      | .block block => inScope block.eval

/-- Evaluates a statement. -/
def Stmt.eval (s : Stmt) : Eval Value := do
  tick
  match s with
  | .bind _ name value =>
    let v ← value.eval
    modifyEnv (·.define name.text v)
    return .nil
  | .conditional branches => branches.eval
  | .loop _ item index items body =>
    let v ← items.eval
    let values ← lift (loopItems v)
    let round (i : Nat) (v : Value) : Eval Value := do
      tick
      inScope do
        modifyEnv (·.define item.text v)
        match index with
        | none => pure ()
        | some index => modifyEnv (·.define index.text (.number (Float.ofNat i)))
        body.eval
    each round 0 .nil values
  | .leave _ => fail (.returned .nil)
  | .leaveWith _ value =>
    let v ← value.eval
    fail (.returned v)
  | .assert _ condition message =>
    let v ← condition.eval
    if v.isTruthy then return .nil
    else fail (.assertionFailed (message.getD "assertion failed"))
  | .throw _ value =>
    let v ← value.eval
    fail (.thrown v)
  | .expr value => value.eval

/-- Evaluates a block in the scope that it is found in; its value is that of the last statement. -/
def Block.eval : Block → Eval Value
  | .mk _ stmts => evalStmts .nil stmts

/-- Evaluates statements; `last` is the value of the last one before them. -/
def evalStmts (last : Value) : List Stmt → Eval Value
  | [] => return last
  | s :: rest => do
    let v ← s.eval
    evalStmts v rest

end

/-- Evaluates a body as it is, so that a `return` is still an error. -/
def Body.evalOpen : Body → Eval Value
  | .expr value => value.eval
  | .block b => b.eval

/-- Evaluates a body, where a `return` ends the body with its value. -/
def Body.eval (body : Body) : Eval Value :=
  fun limit m =>
    match body.evalOpen limit m with
    | (.error (.returned v), m) => (.ok v, m)
    | result => result

end ParseActions
