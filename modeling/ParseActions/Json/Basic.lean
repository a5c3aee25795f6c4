/-!
# JSON documents

JSON as a data type. Whole numbers that fit a 64-bit word, signed or unsigned, are kept apart from
the other numbers, which are doubles. A document that has been read may hold parts that are well
formed and still stand for no value; they are marked, and only matter to a reader that needs them.

## Main definitions

* `Json`: a document
* `Json.Usable`, `Json.isUsable`: no part is marked
-/

namespace ParseActions

/-- A JSON document. -/
inductive Json where
  | null
  | bool (b : Bool)
  | int (n : Int)
  | float (x : Float)
  | string (s : String)
  | array (items : List Json)
  | object (fields : List (String × Json))
  /-- Text of the right form for a value that is out of range, incomplete or nested too deep. -/
  | unusable
  deriving Inhabited

namespace Json

/-- A natural number. -/
def nat (n : Nat) : Json :=
  int n

/-- A value, or null when there is none. -/
def option {α : Type} (encode : α → Json) : Option α → Json
  | none => null
  | some a => encode a

/-- An array of encoded values. -/
def list {α : Type} (encode : α → Json) (items : List α) : Json :=
  array (items.map encode)

/-- The field of the given name, if it is present. -/
def optionalField {α : Type} (name : String) (encode : α → Json) :
    Option α → List (String × Json)
  | none => []
  | some a => [(name, encode a)]

mutual

/-- Whether every part of the document stands for a value. -/
def isUsable : Json → Bool
  | array items => areUsable items
  | object fields => fieldsUsable fields
  | unusable => false
  | _ => true

/-- Whether every part of every item stands for a value. -/
def areUsable : List Json → Bool
  | [] => true
  | item :: items => isUsable item && areUsable items

/-- Whether every part of every field stands for a value. -/
def fieldsUsable : List (String × Json) → Bool
  | [] => true
  | (_, value) :: fields => isUsable value && fieldsUsable fields

end

mutual

/-- The document with `levels` levels of nesting; what is nested deeper is marked. -/
def limit (levels : Nat) : Json → Json
  | array items =>
    match levels with
    | 0 => unusable
    | n + 1 => array (limitItems n items)
  | object fields =>
    match levels with
    | 0 => unusable
    | n + 1 => object (limitFields n fields)
  | json => json

/-- The items with the given number of levels each. -/
def limitItems (levels : Nat) : List Json → List Json
  | [] => []
  | item :: items => limit levels item :: limitItems levels items

/-- The fields with the given number of levels each. -/
def limitFields (levels : Nat) : List (String × Json) → List (String × Json)
  | [] => []
  | (name, value) :: fields => (name, limit levels value) :: limitFields levels fields

end

end Json

end ParseActions
