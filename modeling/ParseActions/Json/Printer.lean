import ParseActions.Json.Basic
import ParseActions.Number.Decimal
import ParseActions.Text.Literal

/-!
# Writing JSON

A document is written without white space, fields in their order. A double has a point or an exponent,
by which it is told from a whole number.

## Main definitions

* `Json.renderDecimal`: the notation of a positive double
* `Json.render`: the text of a document
-/

namespace ParseActions.Json

/-- A decimal in a document. It is positional, with a point also after a whole number, when its first
digit is among the sixteen places before the point or the first five after it; else it has an exponent. -/
def renderDecimal (d : Decimal) : String :=
  -- the first digit is this many places before the point
  let place : Int := (Nat.toDigits 10 d.digits).length + d.exponent
  if -5 < place ∧ place ≤ 16 then
    if 0 ≤ d.exponent then d.positional ++ ".0" else d.positional
  else d.scientific

/-- The text of a double: the even one of two decimals that are equally near, and a sign also before a
negative zero. What is not finite is written as null. -/
def renderDouble (x : Float) : String :=
  match Double.parts? x with
  | some p =>
    (if p.negative then "-" else "")
      ++ if p.mantissa = 0 then "0.0" else renderDecimal (.shortest .toEven p.mantissa p.exponent)
  | none => "null"

mutual

/-- Writes a document after a text. -/
def renderAfter (out : String) : Json → String
  | null => out ++ "null"
  | bool b => out ++ (if b then "true" else "false")
  | int n => out ++ toString n
  | float x => out ++ renderDouble x
  | string s => out ++ Text.quoted s
  | array items => renderItems (out ++ "[") true items ++ "]"
  | object fields => (renderFields (out.push '\x7b') true fields).push '\x7d'
  | unusable => out ++ "null"

/-- Writes items after a text, with commas between them. -/
def renderItems (out : String) (first : Bool) : List Json → String
  | [] => out
  | item :: items =>
    renderItems (renderAfter (if first then out else out ++ ",") item) false items

/-- Writes fields after a text, with commas between them. -/
def renderFields (out : String) (first : Bool) : List (String × Json) → String
  | [] => out
  | (name, value) :: fields =>
    renderFields
      (renderAfter ((if first then out else out ++ ",") ++ Text.quoted name ++ ":") value)
      false fields

end

/-- The text of a document. -/
def render (json : Json) : String :=
  renderAfter "" json

end ParseActions.Json
