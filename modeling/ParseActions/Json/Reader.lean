import ParseActions.Json.Basic
import ParseActions.Number.Reading

/-!
# Reading JSON

A document is read from its text. Numbers with a fraction or an exponent are read in double
arithmetic: the digits make a 64-bit significand, further digits only move the decimal point, and
the significand is multiplied or divided by a power of ten.

## Main definitions

* `Double.scaled?`: a significand times a power of ten, in double arithmetic
* `Json.read?`: a document, whose unusable parts are marked
* `Json.ofText?`: a document all of which is usable
-/

namespace ParseActions

/-- The significand times a power of ten, by multiplications and divisions of doubles; nothing when
the number is too large. -/
def Double.scaled? (significand : Nat) (exponent : Int) : Option Float :=
  go (significand.toUInt64.toFloat) exponent (exponent.natAbs / 308 + 1)
where
  /-- Divides by `10 ^ 308` while the exponent is out of reach, at most `fuel` times. -/
  go (f : Float) (e : Int) : (fuel : Nat) → Option Float
    | 0 => some f
    | fuel + 1 =>
      if e.natAbs ≤ 308 then
        if 0 ≤ e then
          let scaled := f * Double.ofDecimal 1 e
          if scaled.isInf then none else some scaled
        else some (f / Double.ofDecimal 1 (-e))
      else if f == 0.0 then some f
      else if 0 ≤ e then none
      else go (f / Double.ofDecimal 1 308) (e + 308) fuel

namespace Json

namespace Reader

/-- The text after white space. -/
def skipSpace : List Char → List Char
  | [] => []
  | c :: rest => if c = ' ' ∨ c = '\n' ∨ c = '\t' ∨ c = '\r' then skipSpace rest else c :: rest

/-- The value of a hexadecimal digit. -/
def hexDigit? (c : Char) : Option Nat :=
  if '0' ≤ c ∧ c ≤ '9' then some (c.toNat - '0'.toNat)
  else if 'a' ≤ c ∧ c ≤ 'f' then some (c.toNat - 'a'.toNat + 10)
  else if 'A' ≤ c ∧ c ≤ 'F' then some (c.toNat - 'A'.toNat + 10)
  else none

/-- The number written by four hexadecimal digits. -/
def hexUnit? (a b c d : Char) : Option Nat := do
  let a ← hexDigit? a
  let b ← hexDigit? b
  let c ← hexDigit? c
  let d ← hexDigit? d
  return ((a * 16 + b) * 16 + c) * 16 + d

/-- The character of an escape of one letter. -/
def escaped? : Char → Option Char
  | '"' => some '"'
  | '\\' => some '\\'
  | '/' => some '/'
  | 'b' => some '\x08'
  | 'f' => some '\x0c'
  | 'n' => some '\n'
  | 'r' => some '\r'
  | 't' => some '\t'
  | _ => none

/-- The contents of a string up to its closing quote, with the text after it. The contents are
missing when half a surrogate pair stands alone. -/
def string? (out : List Char) (whole : Bool) : List Char → Option (Option String × List Char)
  | [] => none
  | '"' :: rest => some (if whole then some (String.ofList out.reverse) else none, rest)
  | '\\' :: 'u' :: a :: b :: c :: d :: '\\' :: 'u' :: e :: f :: g :: h :: rest =>
    match hexUnit? a b c d with
    | none => none
    | some high =>
      if 0xD800 ≤ high ∧ high ≤ 0xDBFF then
        match hexUnit? e f g h with
        | none => none
        | some low =>
          if 0xDC00 ≤ low ∧ low ≤ 0xDFFF then
            string? (Char.ofNat (0x10000 + (high - 0xD800) * 0x400 + (low - 0xDC00)) :: out) whole
              rest
          else string? out false rest
      else if 0xDC00 ≤ high ∧ high ≤ 0xDFFF then
        string? out false ('\\' :: 'u' :: e :: f :: g :: h :: rest)
      else string? (Char.ofNat high :: out) whole ('\\' :: 'u' :: e :: f :: g :: h :: rest)
  | '\\' :: 'u' :: a :: b :: c :: d :: rest =>
    match hexUnit? a b c d with
    | none => none
    | some unit =>
      if 0xD800 ≤ unit ∧ unit ≤ 0xDFFF then string? out false rest
      else string? (Char.ofNat unit :: out) whole rest
  | '\\' :: c :: rest =>
    match escaped? c with
    | none => none
    | some c => string? (c :: out) whole rest
  | c :: rest => if c.toNat < 0x20 then none else string? (c :: out) whole rest

/-- A number taken apart: the digits before and after the point, and the exponent. -/
structure Numeral where
  negative : Bool
  whole : List Char
  fraction : List Char
  exponent : Option Int

/-- Digits are collected while the significand fits a 64-bit word; the digits that are left over are
counted. -/
def significand (n : Nat) : List Char → Nat × Nat
  | [] => (n, 0)
  | d :: ds =>
    let next := n * 10 + (d.toNat - '0'.toNat)
    if Double.maxWord < next then (n, ds.length + 1) else significand next ds

/-- The value of a numeral. -/
def Numeral.value (t : Numeral) : Json :=
  let (n, beyond) := significand 0 t.whole
  if t.fraction.isEmpty && t.exponent.isNone && beyond == 0 then
    if !t.negative then int n
    else if 0 < n ∧ n ≤ Double.signBit then int (-n)
    else float (-n.toUInt64.toFloat)
  else
    let (n, skipped) := significand n t.fraction
    let e : Int := (t.exponent.getD 0) + beyond - (t.fraction.length - skipped : Nat)
    match Double.scaled? n e with
    | none => unusable
    | some x => float (if t.negative then -x else x)

/-- A number, with the text after it. A whole part of several digits does not start with a zero, and
a point or an exponent is followed by a digit. -/
def number? (negative : Bool) (cs : List Char) : Option (Json × List Char) :=
  let whole := cs.takeWhile Char.isDigit
  let rest := cs.dropWhile Char.isDigit
  if whole.isEmpty || (whole.head? == some '0' && whole.length != 1) then none
  else
    let point := rest.head? == some '.'
    let fraction := if point then rest.tail.takeWhile Char.isDigit else []
    let rest := if point then rest.tail.dropWhile Char.isDigit else rest
    if point && fraction.isEmpty then none
    else
      match rest with
      | c :: after =>
        if c = 'e' ∨ c = 'E' then
          let minus := after.head? == some '-'
          let digits := if minus || after.head? == some '+' then after.tail else after
          let ds := digits.takeWhile Char.isDigit
          if ds.isEmpty then none
          else
            let e : Int := min (Double.digitsValue ds) 0x7FFFFFFF
            some (Numeral.value ⟨negative, whole, fraction, some (if minus then -e else e)⟩,
              digits.dropWhile Char.isDigit)
        else some (Numeral.value ⟨negative, whole, fraction, none⟩, rest)
      | [] => some (Numeral.value ⟨negative, whole, fraction, none⟩, [])

mutual

/-- A value at the start of the text, with the text after it; `fuel` bounds the steps. -/
def value? : (fuel : Nat) → List Char → Option (Json × List Char)
  | 0, _ => none
  | fuel + 1, cs =>
    match skipSpace cs with
    | '"' :: rest =>
      (string? [] true rest).map fun (s, rest) => (s.elim unusable string, rest)
    | '[' :: rest =>
      match skipSpace rest with
      | ']' :: rest => some (array [], rest)
      | rest => items? fuel [] rest
    | '{' :: rest =>
      match skipSpace rest with
      | '}' :: rest => some (object [], rest)
      | rest => fields? fuel [] true rest
    | 'n' :: 'u' :: 'l' :: 'l' :: rest => some (null, rest)
    | 't' :: 'r' :: 'u' :: 'e' :: rest => some (bool true, rest)
    | 'f' :: 'a' :: 'l' :: 's' :: 'e' :: rest => some (bool false, rest)
    | '-' :: rest => number? true rest
    | rest => number? false rest

/-- The items of an array up to its closing bracket. -/
def items? : (fuel : Nat) → List Json → List Char → Option (Json × List Char)
  | 0, _, _ => none
  | fuel + 1, out, cs =>
    match value? fuel cs with
    | none => none
    | some (item, rest) =>
      match skipSpace rest with
      | ',' :: rest => items? fuel (item :: out) rest
      | ']' :: rest => some (array (item :: out).reverse, rest)
      | _ => none

/-- The fields of an object up to its closing brace. An object with an unusable name is unusable. -/
def fields? :
    (fuel : Nat) → List (String × Json) → (whole : Bool) → List Char → Option (Json × List Char)
  | 0, _, _, _ => none
  | fuel + 1, out, whole, cs =>
    match skipSpace cs with
    | '"' :: rest =>
      match string? [] true rest with
      | none => none
      | some (name, rest) =>
        match skipSpace rest with
        | ':' :: rest =>
          match value? fuel rest with
          | none => none
          | some (item, rest) =>
            let whole := whole && name.isSome
            let out := (name.getD "", item) :: out
            match skipSpace rest with
            | ',' :: rest => fields? fuel out whole rest
            | '}' :: rest => some (if whole then object out.reverse else unusable, rest)
            | _ => none
        | _ => none
    | _ => none

end

end Reader

/-- The nesting that a document may have. -/
def maxLevels : Nat := 127

/-- The document that a text writes, whatever its nesting. -/
def readDeep? (text : String) : Option Json :=
  let cs := text.toList
  match Reader.value? (cs.length + 1) cs with
  | some (json, rest) => if (Reader.skipSpace rest).isEmpty then some json else none
  | none => none

/-- The document that a text writes, in which what is nested too deep is marked. -/
def read? (text : String) : Option Json :=
  (readDeep? text).map (limit maxLevels)

/-- The document that a text writes, if all of it is usable. -/
def ofText? (text : String) : Option Json :=
  (read? text).filter isUsable

end Json

end ParseActions
