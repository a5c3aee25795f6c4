import ParseActions.Keyed
import ParseActions.Number.Decimal

/-!
# Values

The values that action bodies compute. The fields of a record are kept in the order of their names,
which is the order of their UTF-8 bytes.

## Main definitions

* `Value`, `Value.Kind`: values and their types
* `Value.isTruthy`: the values that count as true
* `Value.beq`: equality, where numbers are compared as numbers
* `Value.display`: the text of a value
-/

namespace ParseActions

/-- A value. -/
inductive Value where
  | nil
  | bool (b : Bool)
  | number (x : Float)
  | string (s : String)
  | list (items : List Value)
  /-- A record, by its fields in the order of their names. -/
  | record (fields : List (String × Value))
  deriving Inhabited

namespace Value

/-- The types of values. -/
inductive Kind where
  | nil
  | bool
  | number
  | string
  | list
  | record
  deriving DecidableEq

/-- The name of a type. -/
def Kind.name : Kind → String
  | nil => "nil"
  | bool => "bool"
  | number => "number"
  | string => "string"
  | list => "list"
  | record => "record"

/-- The type of a value. -/
def kind : Value → Kind
  | nil => .nil
  | bool _ => .bool
  | number _ => .number
  | string _ => .string
  | list _ => .list
  | record _ => .record

/-- Whether the value is nil. -/
def isNil : Value → Bool
  | nil => true
  | _ => false

/-- Nil, false, zero, NaN and the empty string count as false; all other values count as true. -/
def isTruthy : Value → Bool
  | nil => false
  | bool b => b
  | number x => x != 0.0 && !x.isNaN
  | string s => !s.isEmpty
  | list _ | record _ => true

/-- The number that the value is. -/
def number? : Value → Option Float
  | number x => some x
  | _ => none

/-- The string that the value is. -/
def string? : Value → Option String
  | string s => some s
  | _ => none

/-- The list that the value is. -/
def list? : Value → Option (List Value)
  | list items => some items
  | _ => none

/-- The record of the given fields, where the last field of a name counts. -/
def ofFields (fields : List (String × Value)) : Value :=
  record (Keyed.ofList fields)

/-- The list of the characters, each as a string. -/
def ofChars (cs : List Char) : Value :=
  list (cs.map fun c => string c.toString)

mutual

/-- Equality of values. Zero equals negative zero, and NaN equals nothing. -/
def beq : Value → Value → Bool
  | nil, nil => true
  | bool a, bool b => a == b
  | number x, number y => x == y
  | string s, string t => s == t
  | list xs, list ys => beqItems xs ys
  | record fs, record gs => beqFields fs gs
  | _, _ => false

/-- Equality of lists item by item. -/
def beqItems : List Value → List Value → Bool
  | [], [] => true
  | x :: xs, y :: ys => beq x y && beqItems xs ys
  | _, _ => false

/-- Equality of records field by field. -/
def beqFields : List (String × Value) → List (String × Value) → Bool
  | [], [] => true
  | (m, x) :: fs, (n, y) :: gs => m == n && beq x y && beqFields fs gs
  | _, _ => false

end

instance : BEq Value :=
  ⟨beq⟩

mutual

/-- Writes the value after a text. -/
def displayAfter (out : String) : Value → String
  | nil => out ++ "nil"
  | bool b => out ++ (if b then "true" else "false")
  | number x => out ++ Decimal.display x
  | string s => out ++ s
  | list items => displayItems (out ++ "[") true items ++ "]"
  | record fields => displayFields (out ++ "\x7b ") true fields ++ " \x7d"

/-- Writes items after a text, with commas between them. -/
def displayItems (out : String) (first : Bool) : List Value → String
  | [] => out
  | item :: items =>
    displayItems (displayAfter (if first then out else out ++ ", ") item) false items

/-- Writes fields after a text, with commas between them. -/
def displayFields (out : String) (first : Bool) : List (String × Value) → String
  | [] => out
  | (name, value) :: fields =>
    displayFields
      (displayAfter ((if first then out else out ++ ", ") ++ name ++ ": ") value) false fields

end

/-- The text of a value. -/
def display (v : Value) : String :=
  displayAfter "" v

end Value

end ParseActions
