import ParseActions.Eval.Call
import ParseActions.Number.Reading
import ParseActions.Text.Basic
import ParseActions.Text.Case

/-!
# Builtins

The functions that bodies can call, by module. All of them are functions of their arguments alone;
the one that writes to the log is part of the interpreter.

## Main definitions

* `Builtin.modules`: the names of the modules
* `Builtin.constant?`: the constants of a module
* `Builtin.call`: the value of a call
-/

namespace ParseActions.Builtin

/-- The names of the modules. -/
def modules : List String :=
  ["core", "math", "string", "list", "record", "convert"]

/-- Whether a name is that of a module. -/
def isModule (name : String) : Bool :=
  modules.contains name

/-- The constants of the modules. -/
def constant? : (module name : String) → Option Value
  | "math", "PI" => some (.number 3.141592653589793)
  | "math", "E" => some (.number 2.718281828459045)
  | "math", "INFINITY" => some (.number Double.infinity)
  | _, _ => none

/-! ## Types and numbers -/

/-- The functions of the module `core`. -/
def callCore (call : Call) : Except EvalError Value := do
  match call.function with
  | "type_of" =>
    call.arity 1 1
    return .string (call.arg 0).kind.name
  | "is_nil" =>
    call.arity 1 1
    return .bool (call.arg 0).isNil
  | _ => call.unknown

/-- A function of one number. -/
def unary (call : Call) (f : Float → Float) : Except EvalError Value := do
  call.arity 1 1
  return .number (f (← call.number 0))

/-- The sign of a number: one, minus one, or the number itself if it is zero or NaN. -/
def sign (x : Float) : Float :=
  if x == 0.0 || x.isNaN then x else if x < 0.0 then -1.0 else 1.0

/-- Combines all arguments, which are numbers, from the left. -/
def combine (call : Call) (f : Float → Float → Float) : Except EvalError Value := do
  if call.args.isEmpty then .error (.misuse (.noArguments call.name))
  else
    let first ← call.number 0
    let rest ← (List.range' 1 (call.args.length - 1)).mapM call.number
    return .number (rest.foldl f first)

/-- The functions of the module `math`. -/
def callMath (call : Call) : Except EvalError Value := do
  match call.function with
  | "abs" => unary call Float.abs
  | "floor" => unary call Double.floor
  | "ceil" => unary call Double.ceil
  | "round" => unary call Double.round
  | "trunc" => unary call Double.trunc
  | "sqrt" => unary call Float.sqrt
  | "sign" => unary call sign
  | "pow" =>
    call.arity 2 2
    let base ← call.number 0
    return .number (base.pow (← call.number 1))
  | "min" => combine call Double.least
  | "max" => combine call Double.greatest
  | "clamp" =>
    call.arity 3 3
    let n ← call.number 0
    let low ← call.number 1
    let high ← call.number 2
    return .number (Double.least (Double.greatest n low) high)
  | _ => call.unknown

/-! ## Strings -/

/-- The string whose characters are given. -/
def text (cs : List Char) : Value :=
  .string (String.ofList cs)

/-- The characters of a string as strings, if there are not too many. -/
def charsOf (what s : String) : Except EvalError Value := do
  let cs := s.toList
  let _ ← (Footprint.chars cs.length).check what
  return .ofChars cs

/-- The pieces of a string between separators, or its characters if the separator is empty. -/
def split (s separator : String) : Except EvalError Value := do
  if separator.isEmpty then charsOf "string.split" s
  else
    let pieces := Text.splitAt separator.toList s.toList
    let _ ← (Footprint.chars pieces.length).check "string.split"
    return .list (pieces.map text)

/-- The size in bytes of a string after a replacement, from the number of matches. -/
def replacedSize (size matched pattern replacement : Nat) : Nat :=
  Footprint.saturate ((size - matched * pattern) + Footprint.saturate (matched * replacement))

/-- Replaces all occurrences of a pattern. -/
def replace (s pattern replacement : String) : Except EvalError Value := do
  let matched := Text.occurrences pattern.toList s.toList
  let size :=
    replacedSize s.utf8ByteSize matched pattern.utf8ByteSize replacement.utf8ByteSize
  let _ ← (Footprint.string size).check "string.replace"
  return text (Text.replaceAll pattern.toList replacement.toList s.toList)

/-- A string repeated. -/
def repeated (s : String) (times : Nat) : String :=
  Nat.repeat (· ++ s) times ""

/-- The functions of the module `string`. -/
def callString (call : Call) : Except EvalError Value := do
  match call.function with
  | "length" =>
    call.arity 1 1
    return .number (Float.ofNat (← call.string 0).length)
  | "upper" =>
    call.arity 1 1
    return .string (Text.upper (← call.string 0))
  | "lower" =>
    call.arity 1 1
    return .string (Text.lower (← call.string 0))
  | "trim" =>
    call.arity 1 1
    return .string (Text.trim (← call.string 0))
  | "contains" =>
    call.arity 2 2
    let s ← call.string 0
    return .bool (Text.isInfix (← call.string 1).toList s.toList)
  | "starts_with" =>
    call.arity 2 2
    let s ← call.string 0
    return .bool ((← call.string 1).toList.isPrefixOf s.toList)
  | "ends_with" =>
    call.arity 2 2
    let s ← call.string 0
    return .bool ((← call.string 1).toList.isSuffixOf s.toList)
  | "index_of" =>
    call.arity 2 2
    let s ← call.string 0
    return .number ((Text.indexOf? (← call.string 1).toList s.toList).elim (-1.0) Float.ofNat)
  | "split" =>
    call.arity 2 2
    let s ← call.string 0
    split s (← call.string 1)
  | "chars" =>
    call.arity 1 1
    charsOf "string.chars" (← call.string 0)
  | "replace" =>
    call.arity 3 3
    let s ← call.string 0
    let pattern ← call.string 1
    replace s pattern (← call.string 2)
  | "repeat" =>
    call.arity 2 2
    let count ← call.number 1
    if 0.0 ≤ count && count ≤ Float.ofNat Footprint.maxBytes then
      let s ← call.string 0
      let times := Double.toWord count
      let _ ← (Footprint.string (Footprint.saturate (s.utf8ByteSize * times))).check "string.repeat"
      return .string (repeated s times)
    else .error (.misuse (.repeatCount count))
  | "slice" =>
    call.arity 2 3
    let s ← call.string 0
    let start ← call.number 1
    return text (Call.slice s.toList start (← call.number? 2))
  | _ => call.unknown

/-! ## Lists -/

/-- The sum of numbers, from the left. -/
def sum (total : Float) : List Value → Except EvalError Float
  | [] => .ok total
  | .number x :: rest => sum (total + x) rest
  | item :: _ => .error (.typeMismatch (.cannotSum item.kind))

/-- Writes the texts of items after `out`, with separators between them, while the size allows. -/
def join (separator : String) (out : String) (first : Bool) :
    List Value → Except EvalError String
  | [] => .ok out
  | item :: rest =>
    let part := item.display
    let gap := if first then "" else separator
    match (Footprint.string (out.utf8ByteSize + gap.utf8ByteSize + part.utf8ByteSize)).check
      "list.join" with
    | .error e => .error e
    | .ok _ => join separator (out ++ gap ++ part) false rest

/-- Sorts numbers in the total order, or strings in the order of their bytes; equal items keep
their order. -/
def sort (items : List Value) : Except EvalError (List Value) :=
  if items.all fun v => v.number?.isSome then
    let keyed := items.filterMap Value.number? |>.map fun x => (Double.totalKey x, x)
    .ok ((keyed.mergeSort fun a b => a.1 ≤ b.1).map fun p => .number p.2)
  else if items.all fun v => v.string?.isSome then
    .ok (((items.filterMap Value.string?).mergeSort fun a b => a ≤ b).map .string)
  else .error (.typeMismatch .cannotSort)

/-- The most items of a range. -/
def maxRange : Nat := 100000

/-- One round of counting: the next number, after those in `out`, which are in reverse, or all of them
if the next one is not below `stop`. -/
def countStep (stop : Float) : List Value × Float → (List Value × Float) ⊕ List Value
  | (out, n) => if n < stop then .inl (.number n :: out, n + 1.0) else .inr out.reverse

/-- The numbers from one number up to another in steps of one. Counting has no end where a step does not
move the counter. -/
def count (stop first : Float) : List Value :=
  repeatM (m := Id) (countStep stop) ([], first)

/-- The whole numbers from one number up to another, without the last. -/
def range (start stop : Float) : Except EvalError Value :=
  let first := Double.trunc start
  let last := Double.trunc stop
  if Float.ofNat maxRange < last - first then .error (.limitExceeded .range)
  else .ok (.list (count last first))

/-- The functions of the module `list`. -/
def callList (call : Call) : Except EvalError Value := do
  match call.function with
  | "length" =>
    call.arity 1 1
    return .number (Float.ofNat (← call.list 0).length)
  | "is_empty" =>
    call.arity 1 1
    return .bool (← call.list 0).isEmpty
  | "first" =>
    call.arity 1 1
    return (← call.list 0).head?.getD .nil
  | "last" =>
    call.arity 1 1
    return (← call.list 0).getLast?.getD .nil
  | "get" =>
    call.arity 2 2
    let items ← call.list 0
    let i ← call.number 1
    if Double.isIntegral i && 0.0 ≤ i then return items[Double.toWord i]?.getD .nil
    else return .nil
  | "push" =>
    call.arity 2 2
    return .list ((← call.list 0) ++ [call.arg 1])
  | "concat" =>
    call.arity 2 2
    let items ← call.list 0
    return .list (items ++ (← call.list 1))
  | "reverse" =>
    call.arity 1 1
    return .list (← call.list 0).reverse
  | "contains" =>
    call.arity 2 2
    return .bool ((← call.list 0).any (· == call.arg 1))
  | "index_of" =>
    call.arity 2 2
    return .number (((← call.list 0).findIdx? (· == call.arg 1)).elim (-1.0) Float.ofNat)
  | "slice" =>
    call.arity 2 3
    let items ← call.list 0
    let start ← call.number 1
    return .list (Call.slice items start (← call.number? 2))
  | "sum" =>
    call.arity 1 1
    return .number (← sum 0.0 (← call.list 0))
  | "join" =>
    call.arity 2 2
    let separator ← call.string 1
    return .string (← join separator "" true (← call.list 0))
  | "sort" =>
    call.arity 1 1
    return .list (← sort (← call.list 0))
  | "range" =>
    call.arity 2 2
    let start ← call.number 0
    range start (← call.number 1)
  | _ => call.unknown

/-! ## Records and conversions -/

/-- The functions of the module `record`, whose first argument is a record. -/
def callRecord (call : Call) : Except EvalError Value := do
  match call.arg 0 with
  | .record fields =>
    match call.function with
    | "keys" =>
      call.arity 1 1
      return .list ((Keyed.keys fields).map .string)
    | "values" =>
      call.arity 1 1
      return .list (Keyed.values fields)
    | "has" =>
      call.arity 2 2
      return .bool (Keyed.find? (← call.string 1) fields).isSome
    | "get" =>
      call.arity 2 3
      return (Keyed.find? (← call.string 1) fields).getD (call.arg 2)
    | _ => call.unknown
  | _ => call.mismatch 0 .record

/-- The number that a value reads as; a text that writes no number is NaN. -/
def toNumber : Value → Float
  | .number x => x
  | .bool b => if b then 1.0 else 0.0
  | .string s =>
    let trimmed := Text.trim s
    if trimmed.isEmpty then 0.0 else (Double.ofText? trimmed).getD Double.nan
  | .nil => 0.0
  | .list _ | .record _ => Double.nan

/-- The functions of the module `convert`, which take one argument. -/
def callConvert (call : Call) : Except EvalError Value := do
  call.arity 1 1
  let v := call.arg 0
  match call.function with
  | "to_string" => return .string v.display
  | "to_number" => return .number (toNumber v)
  | "to_int" => return .number (Double.trunc (toNumber v))
  | "to_bool" => return .bool v.isTruthy
  | _ => call.unknown

/-- The value of a call. -/
def call (module function : String) (args : List Value) : Except EvalError Value :=
  let c : Call := ⟨module, function, args⟩
  match module with
  | "core" => callCore c
  | "math" => callMath c
  | "string" => callString c
  | "list" => callList c
  | "record" => callRecord c
  | "convert" => callConvert c
  | _ => .error (.unknownFunction (.module module))

end ParseActions.Builtin
