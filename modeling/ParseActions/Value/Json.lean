import ParseActions.Json.Decode
import ParseActions.Value.Basic

/-!
# Values as JSON

Whole numbers below `9 * 10 ^ 15` become integers. The numbers that are not finite have no JSON form
and become strings.

## Main definitions

* `Value.toJson`: the document of a value
* `Value.ofJson?`: the value of a document
-/

namespace ParseActions.Value

/-- The document of a number. -/
def numberToJson (x : Float) : Json :=
  if x.isNaN then .string "NaN"
  else if x.isInf then .string (if 0.0 < x then "Infinity" else "-Infinity")
  else if Double.isIntegral x && x.abs < 9.0e15 then .int (Double.toInt x)
  else .float x

mutual

/-- The document of a value. -/
def toJson : Value → Json
  | nil => .null
  | bool b => .bool b
  | number x => numberToJson x
  | string s => .string s
  | list items => .array (itemsToJson [] items)
  | record fields => .object (fieldsToJson [] fields)

/-- The documents of items, after those in `out`, which are in reverse. -/
def itemsToJson (out : List Json) : List Value → List Json
  | [] => out.reverse
  | item :: items => itemsToJson (toJson item :: out) items

/-- The documents of fields, after those in `out`, which are in reverse. -/
def fieldsToJson (out : List (String × Json)) : List (String × Value) → List (String × Json)
  | [] => out.reverse
  | (name, value) :: fields => fieldsToJson ((name, toJson value) :: out) fields

end

mutual

/-- The value of a document, if all of it is usable. -/
def ofJson? : Json → Option Value
  | .null => some nil
  | .bool b => some (bool b)
  | .int n => some (number (if n < 0 then -(Float.ofNat n.natAbs) else Float.ofNat n.natAbs))
  | .float x => some (number x)
  | .string s => some (string s)
  | .array items => (itemsOfJson? [] items).map list
  | .object fields => (fieldsOfJson? [] fields).map ofFields
  | .unusable => none

/-- The values of documents, after those in `out`, which are in reverse. -/
def itemsOfJson? (out : List Value) : List Json → Option (List Value)
  | [] => some out.reverse
  | item :: items =>
    match ofJson? item with
    | none => none
    | some v => itemsOfJson? (v :: out) items

/-- The fields of an object, after those in `out`, which are in reverse. -/
def fieldsOfJson? (out : List (String × Value)) :
    List (String × Json) → Option (List (String × Value))
  | [] => some out.reverse
  | (name, value) :: fields =>
    match ofJson? value with
    | none => none
    | some v => fieldsOfJson? ((name, v) :: out) fields

end

end ParseActions.Value
