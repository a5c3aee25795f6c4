import ParseActions.Value.Basic

/-!
# The size of values

Values are measured by the memory they take, a fixed amount for each value and the bytes of the
strings, and by the nesting of lists and records. Both are bounded, and the memory is paid for.

## Main definitions

* `Footprint`: bytes and nesting
* `Footprint.of`: the footprint of a value, measured with a stack of the values that are left
* `Footprint.tree`: the same, by recursion on the value
* `Footprint.withItem`, `Footprint.string`, `Footprint.chars`: footprints of values to be built
* `Footprint.fits`: whether the bounds are kept
-/

namespace ParseActions

/-- The memory that a value takes, and the nesting of lists and records in it. -/
structure Footprint where
  bytes : Nat
  depth : Nat
  deriving DecidableEq, Inhabited

namespace Footprint

/-- The most bytes that a value may take. -/
def maxBytes : Nat := 4194304

/-- The deepest nesting of a value. -/
def maxDepth : Nat := 64

/-- The bytes that cost one unit of gas. -/
def bytesPerGas : Nat := 1024

/-- The bytes of a value without its strings. -/
def slot : Nat := 16

/-- Sums and products of byte counts stop at the greatest 64-bit word. -/
def saturate (n : Nat) : Nat :=
  min n Double.maxWord

/-- The footprint of nothing. -/
def zero : Footprint :=
  ⟨0, 0⟩

/-- An empty list or record. -/
def container : Footprint :=
  ⟨slot, 1⟩

/-- A string of as many bytes. -/
def string (length : Nat) : Footprint :=
  ⟨saturate (slot + length), 0⟩

/-- A container with an item added to it. -/
def withItem (f item : Footprint) : Footprint :=
  ⟨saturate (f.bytes + item.bytes), max f.depth (item.depth + 1)⟩

/-- At least a list of as many strings of one character each. -/
def chars (count : Nat) : Footprint :=
  ⟨saturate (saturate (count * (slot + 4)) + slot), 1⟩

/-- The gas that building a value of this footprint costs. -/
def gas (f : Footprint) : Nat :=
  f.bytes / bytesPerGas

/-! ## Measuring values -/

mutual

/-- Adds the number of values that a value is made of. -/
def count (n : Nat) : Value → Nat
  | .list items => countItems (n + 1) items
  | .record fields => countFields (n + 1) fields
  | _ => n + 1

/-- Adds the number of values that items are made of. -/
def countItems (n : Nat) : List Value → Nat
  | [] => n
  | item :: items => countItems (count n item) items

/-- Adds the number of values that fields are made of. -/
def countFields (n : Nat) : List (String × Value) → Nat
  | [] => n
  | (_, value) :: fields => countFields (count n value) fields

end

/-- Puts values on a stack, each with the number of containers around it. The last value is on top. -/
def pushAll (level : Nat) (values : List Value) (stack : List (Value × Nat)) :
    List (Value × Nat) :=
  values.foldl (fun stack v => (v, level) :: stack) stack

/-- Measures the values on a stack, each with the number of containers around it, and adds them to
what was measured before. Each step takes the value on top; `fuel` is the number of values. -/
def measure : (fuel : Nat) → Footprint → List (Value × Nat) → Footprint
  | 0, f, _ => f
  | _, f, [] => f
  | fuel + 1, f, (v, level) :: rest =>
    let f := { f with bytes := saturate (f.bytes + slot) }
    match v with
    | .string s => measure fuel { f with bytes := saturate (f.bytes + s.utf8ByteSize) } rest
    | .list items =>
      measure fuel { f with depth := max f.depth (level + 1) } (pushAll (level + 1) items rest)
    | .record fields =>
      let names := fields.foldl (fun n field => saturate (n + field.1.utf8ByteSize)) f.bytes
      measure fuel ⟨names, max f.depth (level + 1)⟩
        (pushAll (level + 1) (fields.map Prod.snd) rest)
    | _ => measure fuel f rest

/-- The footprint of a value. -/
def of (v : Value) : Footprint :=
  measure (count 0 v) zero [(v, 0)]

mutual

/-- The footprint of a value, by recursion. -/
def tree : Value → Footprint
  | .string s => string s.utf8ByteSize
  | .list items => treeItems container items
  | .record fields => treeFields container fields
  | _ => ⟨slot, 0⟩

/-- The footprint of a container with items added to it. -/
def treeItems (f : Footprint) : List Value → Footprint
  | [] => f
  | item :: items => treeItems (f.withItem (tree item)) items

/-- The footprint of a container with fields added to it. -/
def treeFields (f : Footprint) : List (String × Value) → Footprint
  | [] => f
  | (name, value) :: fields =>
    treeFields
      (withItem ⟨saturate (f.bytes + name.utf8ByteSize), f.depth⟩ (tree value)) fields

end

/-! ## Limits -/

/-- The bound that a value breaks. -/
inductive Excess where
  | bytes
  | depth
  deriving DecidableEq

/-- The first bound that the footprint breaks. -/
def excess? (f : Footprint) : Option Excess :=
  if maxBytes < f.bytes then some .bytes
  else if maxDepth < f.depth then some .depth
  else none

/-- Both bounds are kept. -/
def Fits (f : Footprint) : Prop :=
  f.bytes ≤ maxBytes ∧ f.depth ≤ maxDepth

instance (f : Footprint) : Decidable f.Fits :=
  inferInstanceAs (Decidable (_ ∧ _))

theorem excess?_eq_none_iff {f : Footprint} : f.excess? = none ↔ f.Fits := by
  unfold excess? Fits
  split
  · simp; omega
  · split
    · simp; omega
    · simp; omega

end Footprint

end ParseActions
