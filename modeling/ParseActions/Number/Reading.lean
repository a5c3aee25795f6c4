import ParseActions.Number.Double

/-!
# Reading numbers

A decimal is read as the double nearest to it.

## Main definitions

* `Double.ofDecimal`: the double nearest to `digits * 10 ^ exponent`
* `Double.ofText?`: the number a text stands for, with an optional sign, fraction and exponent, or
  one of the names of infinity and NaN
-/

namespace ParseActions.Double

/-- The number a list of decimal digits stands for. -/
def digitsValue (ds : List Char) : Nat :=
  ds.foldl (fun n d => n * 10 + (d.toNat - '0'.toNat)) 0

/-- The double nearest to `digits * 10 ^ exponent`. Exponents far outside the range of doubles are
decided by the size of the number alone. -/
def ofDecimal (digits : Nat) (exponent : Int) : Float :=
  if digits = 0 then 0.0
  else
    let magnitude := ((Nat.toDigits 10 digits).length : Int) + exponent
    if 310 < magnitude then infinity
    else if magnitude < -330 then 0.0
    else
      Float.ofScientific digits (exponent < 0) exponent.natAbs

/-- The names of the numbers that are not finite, in lower case. -/
def named? (cs : List Char) : Option Float :=
  if cs = "inf".toList ∨ cs = "infinity".toList then some infinity
  else if cs = "nan".toList then some nan
  else none

/-- The exponent after a mantissa: nothing, or the letter E and a signed whole number. -/
def exponentOf? : List Char → Option Int
  | [] => some 0
  | e :: rest =>
    if e = 'e' ∨ e = 'E' then
      let (negative, ds) :=
        match rest with
        | '-' :: ds => (true, ds)
        | '+' :: ds => (false, ds)
        | ds => (false, ds)
      if ds.isEmpty || !ds.all Char.isDigit then none
      else
        let n : Int := digitsValue ds
        some (if negative then -n else n)
    else none

/-- An unsigned number: digits with an optional fraction and exponent, with a digit on at least one
side of the point; or a name. -/
def unsigned? (cs : List Char) : Option Float :=
  let whole := cs.takeWhile Char.isDigit
  let rest := cs.dropWhile Char.isDigit
  let (fraction, tail) :=
    match rest with
    | '.' :: r => (r.takeWhile Char.isDigit, r.dropWhile Char.isDigit)
    | r => ([], r)
  if whole.isEmpty && fraction.isEmpty then named? (cs.map Char.toLower)
  else
    (exponentOf? tail).map fun e =>
      ofDecimal (digitsValue (whole ++ fraction)) (e - fraction.length)

/-- The number that a text stands for. -/
def ofText? (text : String) : Option Float :=
  match text.toList with
  | '-' :: cs => (unsigned? cs).map (- ·)
  | '+' :: cs => unsigned? cs
  | cs => unsigned? cs

end ParseActions.Double
