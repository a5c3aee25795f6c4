/-!
# Doubles

The operations on doubles that the language of action bodies needs beyond those of `Float`: the
decomposition of a double into sign, mantissa and exponent, rounding to whole numbers, the remainder
of a division, and the total order. All of them work on the parts of a double in exact arithmetic.

## Main definitions

* `Double.parts?`, `Double.ofParts`: a finite double as `±m * 2 ^ q`
* `Double.trunc`, `Double.floor`, `Double.ceil`, `Double.round`: rounding to a whole number
* `Double.isIntegral`: whether there is no fraction
* `Double.remainder`: the exact remainder, with the sign of the dividend
* `Double.totalKey`: the key of the total order, in which `-0` comes before `0`
-/

namespace ParseActions.Double

/-- A finite double `±mantissa * 2 ^ exponent`. -/
structure Parts where
  negative : Bool
  mantissa : Nat
  exponent : Int
  deriving DecidableEq

/-- The least exponent of a double, which all doubles below `2 ^ (-1021)` share. -/
def leastExponent : Int := -1074

/-- The mantissa of the powers of two, which is `2 ^ 52`. -/
def leadingBit : Nat := 0x10000000000000

/-- The sign bit of a word, which is `2 ^ 63`. -/
def signBit : Nat := 0x8000000000000000

/-- Whether the sign bit is set. -/
def isNegative (x : Float) : Bool :=
  x.toBits >>> 63 != 0

/-- The parts of a finite double. -/
def parts? (x : Float) : Option Parts :=
  let bits := x.toBits.toNat
  let biased := bits / leadingBit % 2048
  let fraction := bits % leadingBit
  if biased = 2047 then none
  else if biased = 0 then some ⟨isNegative x, fraction, leastExponent⟩
  else some ⟨isNegative x, fraction + leadingBit, leastExponent + (biased - 1 : Nat)⟩

/-- The double `±mantissa * 2 ^ exponent`, where the number is one. -/
def ofParts (negative : Bool) (mantissa : Nat) (exponent : Int) : Float :=
  let q := max (exponent + mantissa.log2 - 52) leastExponent
  let m := mantissa <<< (exponent - q).toNat >>> (q - exponent).toNat
  let biased := if m < leadingBit then 0 else (q - leastExponent).toNat + 1
  let magnitude :=
    if 2047 ≤ biased then 2047 * leadingBit else biased * leadingBit + m % leadingBit
  Float.ofBits (UInt64.ofNat (if negative then signBit + magnitude else magnitude))

/-- The double that is no number. -/
def nan : Float := 0.0 / 0.0

/-- The positive infinity. -/
def infinity : Float := 1.0 / 0.0

/-- Rounds a finite double to a whole number, which `whole` chooses from the sign, the whole part,
twice the fraction and the fraction's unit. The sign stays, also on zero. -/
def roundBy (whole : (negative : Bool) → (n twice unit : Nat) → Nat) (x : Float) : Float :=
  match parts? x with
  | none => x
  | some p =>
    if 0 ≤ p.exponent then x
    else
      let unit := 1 <<< (-p.exponent).toNat
      ofParts p.negative
        (whole p.negative (p.mantissa / unit) (2 * (p.mantissa % unit)) unit) 0

/-- The double without its fraction. -/
def trunc : Float → Float :=
  roundBy fun _ n _ _ => n

/-- The greatest whole number that is not above. -/
def floor : Float → Float :=
  roundBy fun negative n twice _ => if negative && twice != 0 then n + 1 else n

/-- The least whole number that is not below. -/
def ceil : Float → Float :=
  roundBy fun negative n twice _ => if !negative && twice != 0 then n + 1 else n

/-- The nearest whole number; halves go away from zero. -/
def round : Float → Float :=
  roundBy fun _ n twice unit => if unit ≤ twice then n + 1 else n

/-- Whether the double is a whole number. -/
def isIntegral (x : Float) : Bool :=
  match parts? x with
  | none => false
  | some p => p.mantissa % 1 <<< (-p.exponent).toNat == 0

/-- The whole part of a finite double, without its sign. -/
def Parts.magnitude (p : Parts) : Nat :=
  p.mantissa <<< p.exponent.toNat >>> (-p.exponent).toNat

/-- The whole part of a finite double, and zero for the others. -/
def toInt (x : Float) : Int :=
  match parts? x with
  | none => 0
  | some p => if p.negative then -(p.magnitude : Int) else p.magnitude

/-- The greatest 64-bit word. -/
def maxWord : Nat := 0xFFFFFFFFFFFFFFFF

/-- The whole part as a 64-bit word: negative numbers and NaN give zero, and numbers that are too
large the greatest word. -/
def toWord (x : Float) : Nat :=
  match parts? x with
  | none => if 0.0 < x then maxWord else 0
  | some p => if p.negative then 0 else min p.magnitude maxWord

/-- The remainder of the division truncated toward zero, which is exact. -/
def remainder (x y : Float) : Float :=
  match parts? x, parts? y with
  | some p, some q =>
    if q.mantissa = 0 then nan
    else
      let e := min p.exponent q.exponent
      let dividend := p.mantissa <<< (p.exponent - e).toNat
      let divisor := q.mantissa <<< (q.exponent - e).toNat
      ofParts p.negative (dividend % divisor) e
  | some _, none => if y.isNaN then nan else x
  | none, _ => nan

/-- Doubles are sorted by their keys: negative before positive, `-0` before `0`, and the positive
NaNs last. -/
def totalKey (x : Float) : Int :=
  let magnitude : Nat := x.toBits.toNat % signBit
  if isNegative x then -(magnitude : Int) - 1 else magnitude

/-- The lesser of two numbers, and the second of two that are equal, such as zeros of either sign; a
NaN gives way to a number. -/
def least (x y : Float) : Float :=
  if y.isNaN || x < y then x else y

/-- The greater of two numbers, and the second of two that are equal, such as zeros of either sign;
a NaN gives way to a number. -/
def greatest (x y : Float) : Float :=
  if y.isNaN || y < x then x else y

end ParseActions.Double
