import ParseActions.Json.Basic

/-!
# Decoding JSON

Decoders take a document to a value of a type, or refuse it. A record is given as an object, whose
other fields are ignored, or as an array of its fields in order. A choice is an object with a tag,
or an array that starts with the tag; where a choice is part of another, a number may stand for the
tag.

## Main definitions

* `Json.Decoder`: a partial function from documents
* `Json.nat?`, `Json.text?`, `Json.char?`, `Json.list?`, `Json.option?`: decoders of basic types
* `Json.members?`: the fields of a record
* `Json.tagged?`: the tag of a choice, and the rest of it
-/

namespace ParseActions.Json

/-- A decoder either gives a value or refuses the document. -/
abbrev Decoder (α : Type) := Json → Option α

/-- A truth value. -/
def bool? : Decoder Bool
  | bool b => some b
  | _ => none

/-- A natural number up to a bound. -/
def natUpTo? (bound : Nat) : Decoder Nat
  | int n => if 0 ≤ n ∧ n ≤ bound then some n.toNat else none
  | _ => none

/-- A natural number that fits a 64-bit word. -/
def nat? : Decoder Nat :=
  natUpTo? 0xFFFFFFFFFFFFFFFF

/-- A string. -/
def text? : Decoder String
  | string s => some s
  | _ => none

/-- A string of one character. -/
def char? : Decoder Char
  | string s =>
    match s.toList with
    | [c] => some c
    | _ => none
  | _ => none

/-- An array of values. -/
def list? {α : Type} (item : Decoder α) : Decoder (List α)
  | array items => items.mapM item
  | _ => none

/-- Null, or a value. -/
def option? {α : Type} (item : Decoder α) : Decoder (Option α)
  | null => some none
  | json => (item json).map some

/-- An object whose fields may have any name. -/
def entries? {α : Type} (item : Decoder α) : Decoder (List (String × α))
  | object fields => fields.mapM fun (name, value) => (item value).map fun a => (name, a)
  | _ => none

/-! ## Records -/

/-- A field of a record that is decoded. -/
inductive Member where
  | present (value : Json)
  /-- The object has no such field. -/
  | missing
  /-- The array ended before the field. -/
  | ended

namespace Member

/-- A field that has to be there. -/
def required {α : Type} (item : Decoder α) : Member → Option α
  | present value => item value
  | _ => none

/-- A field that objects may leave out or set to null. -/
def optional {α : Type} (item : Decoder α) : Member → Option (Option α)
  | present value => option? item value
  | missing => some none
  | ended => none

/-- A field with a value to take when it is left out. -/
def orElse {α : Type} (item : Decoder α) (value : α) : Member → Option α
  | present value => item value
  | _ => some value

end Member

/-- The value of a field, refusing an object that has it twice. -/
def member? (fields : List (String × Json)) (name : String) : Option Member :=
  match fields.filter fun f => f.1 == name with
  | [] => some .missing
  | [(_, value)] => some (.present value)
  | _ => none

/-- Pairs the items of an array with the fields of a record; there may not be more items. -/
def positional? : List String → List Json → Option (List Member)
  | [], [] => some []
  | [], _ :: _ => none
  | _ :: names, [] => (positional? names []).map (.ended :: ·)
  | _ :: names, item :: items => (positional? names items).map (.present item :: ·)

/-- The fields of a record with the given field names, in that order. -/
def members? (names : List String) : Decoder (List Member)
  | object fields => names.mapM (member? fields)
  | array items => positional? names items
  | _ => none

/-! ## Choices -/

/-- A tag is given by its name, or by its place among those that have a number. -/
def tagName? (numbered : List String) : Decoder String
  | string name => some name
  | int n => if 0 ≤ n then numbered[n.toNat]? else none
  | _ => none

/-- The tag of a choice, and what is left without it. -/
def tagged? (tag : String) (numbered : List String) : Decoder (String × Json)
  | object fields =>
    match member? fields tag with
    | some (.present name) =>
      (tagName? numbered name).map (·, object (fields.filter fun f => !(f.1 == tag)))
    | _ => none
  | array (name :: items) => (tagName? numbered name).map (·, array items)
  | _ => none

/-- A choice between names alone: the name, or an object that gives the name an empty value. -/
def named? : Decoder String
  | string name => some name
  | object [(name, null)] => some name
  | object [(name, object [])] => some name
  | _ => none

end ParseActions.Json
