import ParseActions.Number.Double

/-!
# Decimal notation of doubles

The decimal of a double is the one with the fewest digits among those that read back as the double,
and of those the nearest. It is found exactly: for each number of digits the two neighbours of the
double on that decimal grid are compared with the interval of numbers that round to it. Which of two
that are equally near is taken is a matter of the notation.

## Main definitions

* `Decimal`: a digit string with a decimal exponent
* `Decimal.Tie`: which of two decimals that are equally near is taken
* `Decimal.shortest`: the decimal of a positive double
* `Decimal.positional`, `Decimal.scientific`: notation without and with an exponent
* `Decimal.ofDouble`: the text of any double
-/

namespace ParseActions

/-- The number `digits * 10 ^ exponent`. -/
structure Decimal where
  digits : Nat
  exponent : Int
  deriving DecidableEq

namespace Decimal

/-- The number of decimal digits. -/
def digitCount (n : Nat) : Nat :=
  (Nat.toDigits 10 n).length

/-- The numbers that round to a double `m * 2 ^ q`, in quarters of `2 ^ q`. The step below a power
of two is half as wide, and the ends belong to the interval when `m` is even. -/
structure Interval where
  low : Nat
  middle : Nat
  high : Nat
  closed : Bool

/-- The interval around a double, given by its parts. -/
def Interval.around (m : Nat) (q : Int) : Interval where
  low := if m = Double.leadingBit ∧ Double.leastExponent < q then 4 * m - 1 else 4 * m - 2
  middle := 4 * m
  high := 4 * m + 2
  closed := m % 2 == 0

/-- Whether `n / d` of a quarter lies in the interval. -/
def Interval.contains (i : Interval) (n d : Nat) : Bool :=
  if i.closed then i.low * d ≤ n && n ≤ i.high * d else i.low * d < n && n < i.high * d

/-- Which of two decimals that are equally near to a double is taken. -/
inductive Tie where
  /-- The upper one. -/
  | up
  /-- The one with an even last digit. -/
  | toEven

/-- Whether the upper one is taken of two that are equally near; `below` are the digits of the lower
one. -/
def Tie.takesAbove (below : Nat) : Tie → Bool
  | up => true
  | toEven => below % 2 == 1

/-- The decimal on the grid of multiples of `10 ^ e` that lies in the interval around
`m * 2 ^ q` and is nearest to its middle. -/
def nearestOnGrid? (tie : Tie) (m : Nat) (q : Int) (e : Int) : Option Decimal :=
  let i := Interval.around m q
  -- one quarter of the double's unit is `unit / step` grid steps
  let unit := Nat.pow 10 (-e).toNat <<< (q - 2).toNat
  let step := Nat.pow 10 e.toNat <<< (2 - q).toNat
  let below := i.middle * unit / step
  let above := below + 1
  let hitBelow := i.contains (below * step) unit
  let hitAbove := i.contains (above * step) unit
  let toAbove := above * step - i.middle * unit
  let toBelow := i.middle * unit - below * step
  let aboveNearer := toAbove < toBelow || toAbove == toBelow && tie.takesAbove below
  if hitAbove && (!hitBelow || aboveNearer) then some ⟨above, e⟩
  else if hitBelow then some ⟨below, e⟩
  else none

/-- The first decimal place that is not zero: the number is less than `10 ^ p` and not less than
`10 ^ (p - 1)`. -/
def leadingPlace (m : Nat) (q : Int) : Int :=
  digitCount ((m * Nat.pow 10 400) <<< q.toNat >>> (-q).toNat) - 400

/-- The first of the grids with `k`, `k + 1`, … digits, `fuel` of them, that has a hit. -/
def firstHit (tie : Tie) (m : Nat) (q : Int) (p : Int) : (k fuel : Nat) → Decimal
  | k, 0 => ⟨m <<< q.toNat >>> (-q).toNat, p - k⟩
  | k, fuel + 1 => (nearestOnGrid? tie m q (p - k)).getD (firstHit tie m q p (k + 1) fuel)

/-- The same number without zeros at the end of its digits, at most `fuel` of them. -/
def reduce : (fuel : Nat) → Decimal → Decimal
  | 0, d => d
  | fuel + 1, d =>
    if d.digits % 10 = 0 ∧ d.digits ≠ 0 then reduce fuel ⟨d.digits / 10, d.exponent + 1⟩ else d

/-- The decimal of the double `m * 2 ^ q` for a positive `m`; seventeen digits always suffice. -/
def shortest (tie : Tie) (m : Nat) (q : Int) : Decimal :=
  reduce 17 (firstHit tie m q (leadingPlace m q) 1 17)

/-- Notation without an exponent: zeros fill the places that the digits do not reach. -/
def positional (d : Decimal) : String :=
  let ds := Nat.toDigits 10 d.digits
  let places := (-d.exponent).toNat
  String.ofList <|
    if 0 ≤ d.exponent then ds ++ List.replicate d.exponent.toNat '0'
    else if places < ds.length then
      ds.take (ds.length - places) ++ '.' :: ds.drop (ds.length - places)
    else '0' :: '.' :: List.replicate (places - ds.length) '0' ++ ds

/-- Notation with an exponent: a point stands after the first digit if there are more. -/
def scientific (d : Decimal) : String :=
  let ds := Nat.toDigits 10 d.digits
  let fraction := if ds.length = 1 then [] else '.' :: ds.tail
  String.ofList (ds.take 1 ++ fraction ++ ['e']) ++ toString (ds.length + d.exponent - 1)

/-- The text of a double: positional, with a sign also before a negative zero, and the upper of two
decimals that are equally near. -/
def ofDouble (x : Float) : String :=
  match Double.parts? x with
  | some p =>
    (if p.negative then "-" else "")
      ++ if p.mantissa = 0 then "0" else positional (shortest .up p.mantissa p.exponent)
  | none => if x.isNaN then "NaN" else if Double.isNegative x then "-inf" else "inf"

/-- The text by which the language shows a number: whole numbers below `9 * 10 ^ 15` as integers,
and the numbers that are not finite by name. -/
def display (x : Float) : String :=
  if x.isNaN then "NaN"
  else if x.isInf then if 0.0 < x then "Infinity" else "-Infinity"
  else if Double.isIntegral x && x.abs < 9.0e15 then toString (Double.toInt x)
  else ofDouble x

end Decimal

end ParseActions
