import ParseActions.Proofs.Keyed
import ParseActions.Value.Footprint

/-!
# Weights and heights of values

The footprint of a value, which is measured with a stack of the values that are left, is found by
recursion on the value: the bytes are a sum, which stops at the greatest word only in the end, and the
nesting is one more than that of the deepest item. It makes no difference that the stack gives the last
item first.

## Main definitions

* `Value.weight`: the bytes of a value, however many
* `Value.height`: the nesting of lists and records in a value

## Main results

* `Footprint.of_eq`: the footprint of a value by its weight and its height
* `Footprint.foldl_withItem`: items that are added to a container one by one
* `Footprint.of_eq_tree`: the footprint of a value by recursion on it
* `Value.weight_le_of_mem`, `Value.height_le_of_mem`: an item among others
* `Value.fieldWeights_insert_le`: setting a field adds at most its name and value
-/

namespace ParseActions

open Footprint (slot saturate)

namespace Value

mutual

/-- The bytes of a value. -/
def weight : Value → Nat
  | .string s => slot + s.utf8ByteSize
  | .list items => slot + weights items
  | .record fields => slot + fieldWeights fields
  | _ => slot

/-- The bytes of items. -/
def weights : List Value → Nat
  | [] => 0
  | item :: items => weight item + weights items

/-- The bytes of fields and of their names. -/
def fieldWeights : List (String × Value) → Nat
  | [] => 0
  | (name, value) :: fields => name.utf8ByteSize + weight value + fieldWeights fields

end

mutual

/-- The nesting of lists and records in a value. -/
def height : Value → Nat
  | .list items => heights items + 1
  | .record fields => fieldHeights fields + 1
  | _ => 0

/-- The nesting in the deepest of some items. -/
def heights : List Value → Nat
  | [] => 0
  | item :: items => max (height item) (heights items)

/-- The nesting in the deepest of some fields. -/
def fieldHeights : List (String × Value) → Nat
  | [] => 0
  | (_, value) :: fields => max (height value) (fieldHeights fields)

end

end Value

namespace Footprint

open Value

theorem saturate_le (n : Nat) : saturate n ≤ Double.maxWord :=
  Nat.min_le_right _ _

theorem saturate_of_le {n : Nat} (h : n ≤ Double.maxWord) : saturate n = n :=
  Nat.min_eq_left h

theorem saturate_mono {n k : Nat} (h : n ≤ k) : saturate n ≤ saturate k := by
  simp only [saturate]
  omega

/-- A sum that has stopped once stays there. -/
@[simp] theorem saturate_saturate_add (n k : Nat) :
    saturate (saturate n + k) = saturate (n + k) := by
  simp only [saturate]
  omega

/-! ## Measuring with a stack of values -/

/-- The number of values in the values on a stack. -/
def nodesLeft : List (Value × Nat) → Nat
  | [] => 0
  | (v, _) :: rest => count 0 v + nodesLeft rest

/-- The bytes of the values on a stack. -/
def weightLeft : List (Value × Nat) → Nat
  | [] => 0
  | (v, _) :: rest => v.weight + weightLeft rest

/-- The nesting that the values on a stack give, each with the containers around it. A value that is no
container gives none. -/
def heightLeft : List (Value × Nat) → Nat
  | [] => 0
  | (v, level) :: rest => max (if v.height = 0 then 0 else level + v.height) (heightLeft rest)

mutual

theorem count_eq (n : Nat) : (v : Value) → count n v = n + count 0 v
  | .nil | .bool _ | .number _ | .string _ => by simp [count]
  | .list items => by
    rw [count, count, countItems_eq (n + 1), countItems_eq (0 + 1)]
    omega
  | .record fields => by
    rw [count, count, countFields_eq (n + 1), countFields_eq (0 + 1)]
    omega

theorem countItems_eq (n : Nat) : (items : List Value) → countItems n items = n + countItems 0 items
  | [] => by simp [countItems]
  | item :: items => by
    rw [countItems, countItems, countItems_eq (count n item), countItems_eq (count 0 item),
      count_eq n item]
    omega

theorem countFields_eq (n : Nat) :
    (fields : List (String × Value)) → countFields n fields = n + countFields 0 fields
  | [] => by simp [countFields]
  | (_, value) :: fields => by
    rw [countFields, countFields, countFields_eq (count n value), countFields_eq (count 0 value),
      count_eq n value]
    omega

end

theorem count_pos (v : Value) : 0 < count 0 v := by
  cases v with
  | list items =>
    rw [count, countItems_eq]
    omega
  | record fields =>
    rw [count, countFields_eq]
    omega
  | _ => exact Nat.one_pos

variable {level : Nat} {items : List Value} {fields : List (String × Value)}
  {rest : List (Value × Nat)}

/-- The names of fields in a record take bytes besides the values. -/
def nameBytes : List (String × Value) → Nat
  | [] => 0
  | (name, _) :: fields => name.utf8ByteSize + nameBytes fields

theorem fieldWeights_eq :
    fieldWeights fields = nameBytes fields + weights (fields.map Prod.snd) := by
  induction fields with
  | nil => rfl
  | cons field fields ih =>
    simp only [fieldWeights, ih, nameBytes, List.map_cons, weights]
    omega

theorem fieldHeights_eq : fieldHeights fields = heights (fields.map Prod.snd) := by
  induction fields with
  | nil => rfl
  | cons field fields ih => rw [fieldHeights, ih, List.map_cons, heights]

theorem countFields_eq_countItems (n : Nat) :
    countFields n fields = countItems n (fields.map Prod.snd) := by
  induction fields generalizing n with
  | nil => rfl
  | cons field fields ih => rw [countFields, ih, List.map_cons, countItems]

theorem nodesLeft_pushAll :
    nodesLeft (pushAll level items rest) = countItems 0 items + nodesLeft rest := by
  induction items generalizing rest with
  | nil => simp [pushAll, countItems]
  | cons item items ih =>
    have hpush : pushAll level (item :: items) rest = pushAll level items ((item, level) :: rest) := rfl
    rw [hpush, ih, nodesLeft, countItems, countItems_eq (count 0 item)]
    omega

theorem weightLeft_pushAll :
    weightLeft (pushAll level items rest) = weights items + weightLeft rest := by
  induction items generalizing rest with
  | nil => simp [pushAll, weights]
  | cons item items ih =>
    have hpush : pushAll level (item :: items) rest = pushAll level items ((item, level) :: rest) := rfl
    rw [hpush, ih, weightLeft, weights]
    omega

theorem heightLeft_pushAll :
    max level (heightLeft (pushAll level items rest)) =
      max (level + heights items) (heightLeft rest) := by
  induction items generalizing rest with
  | nil => simp [pushAll, heights]
  | cons item items ih =>
    have hpush : pushAll level (item :: items) rest = pushAll level items ((item, level) :: rest) := rfl
    rw [hpush, ih, heightLeft, heights]
    split <;> omega

theorem foldl_nameBytes {n : Nat} (hn : n ≤ Double.maxWord) :
    fields.foldl (fun n field => saturate (n + field.1.utf8ByteSize)) n =
      saturate (n + nameBytes fields) := by
  induction fields generalizing n with
  | nil => exact (saturate_of_le hn).symm
  | cons field fields ih =>
    rw [List.foldl_cons, ih (saturate_le _), saturate_saturate_add, Nat.add_assoc]
    rfl

/-- **Measuring** gives the sum of what is left, up to the greatest word, and the deepest nesting. -/
theorem measure_eq {fuel : Nat} {f : Footprint} {stack : List (Value × Nat)}
    (hfuel : nodesLeft stack ≤ fuel) (hf : f.bytes ≤ Double.maxWord) :
    measure fuel f stack =
      ⟨saturate (f.bytes + weightLeft stack), max f.depth (heightLeft stack)⟩ := by
  induction fuel generalizing f stack with
  | zero =>
    cases stack with
    | nil => simp [measure, weightLeft, heightLeft, saturate_of_le hf]
    | cons e rest =>
      -- a value is left, for which there is fuel
      have hpos := count_pos e.1
      rw [nodesLeft] at hfuel
      omega
  | succ fuel ih =>
    cases stack with
    | nil => simp [measure, weightLeft, heightLeft, saturate_of_le hf]
    | cons e rest =>
      obtain ⟨v, level⟩ := e
      -- a list and a record both put what is in them on the stack
      have hitems : ∀ (bytes : Nat) (items : List Value), bytes ≤ Double.maxWord →
          countItems 0 items + nodesLeft rest ≤ fuel →
          measure fuel ⟨bytes, max f.depth (level + 1)⟩ (pushAll (level + 1) items rest) =
            ⟨saturate (bytes + weights items + weightLeft rest),
              max f.depth (max (level + (heights items + 1)) (heightLeft rest))⟩ := by
        intro bytes items hbytes hle
        have hheight : max (level + 1) (heightLeft (pushAll (level + 1) items rest)) =
            max (level + 1 + heights items) (heightLeft rest) := heightLeft_pushAll
        rw [ih (by rwa [nodesLeft_pushAll]) hbytes, weightLeft_pushAll]
        simp only [Nat.max_assoc, hheight, Nat.add_assoc, Nat.add_comm 1]
      rw [nodesLeft] at hfuel
      cases v with
      | list items =>
        have hcount : count 0 (.list items) = 0 + 1 + countItems 0 items := countItems_eq _ _
        change measure fuel ⟨_, _⟩ _ = _
        rw [hitems _ _ (saturate_le _) (by omega)]
        simp [weightLeft, heightLeft, weight, height, Nat.add_assoc]
      | record fields =>
        have hcount : count 0 (.record fields) = 0 + 1 + countItems 0 (fields.map Prod.snd) := by
          rw [count, countFields_eq_countItems, countItems_eq]
        change measure fuel ⟨_, _⟩ _ = _
        rw [foldl_nameBytes (saturate_le _), hitems _ _ (saturate_le _) (by omega)]
        simp [weightLeft, heightLeft, weight, height, fieldWeights_eq, fieldHeights_eq,
          Nat.add_assoc]
      | string s =>
        have hcount : count 0 (.string s) = 1 := rfl
        change measure fuel ⟨_, _⟩ _ = _
        rw [ih (by omega) (saturate_le _)]
        simp [weightLeft, heightLeft, weight, height, Nat.add_assoc]
      | nil | bool | number =>
        change 1 + nodesLeft rest ≤ fuel + 1 at hfuel
        change measure fuel ⟨_, _⟩ _ = _
        rw [ih (by omega) (saturate_le _)]
        simp [weightLeft, heightLeft, weight, height, Nat.add_assoc]

/-- **The footprint of a value**, by recursion. -/
theorem of_eq (v : Value) : of v = ⟨saturate v.weight, v.height⟩ := by
  rw [of, measure_eq (by simp [nodesLeft]) (Nat.zero_le _)]
  simp [zero, weightLeft, heightLeft]
  omega

@[simp] theorem bytes_of (v : Value) : (of v).bytes = saturate v.weight := by
  rw [of_eq]

@[simp] theorem depth_of (v : Value) : (of v).depth = v.height := by
  rw [of_eq]

/-! ## Adding items to containers -/

/-- An item that is added takes its bytes, and its nesting counts one more. -/
theorem withItem_of (f : Footprint) (v : Value) :
    f.withItem (of v) = ⟨saturate (f.bytes + v.weight), max f.depth (v.height + 1)⟩ := by
  rw [withItem, bytes_of, depth_of, Nat.add_comm, saturate_saturate_add, Nat.add_comm v.weight]

/-- **Items that are added to a container** one by one take the sum of their bytes, up to the greatest
word, and the deepest one gives the nesting. -/
theorem foldl_withItem {f : Footprint} (hbytes : f.bytes ≤ Double.maxWord) (hdepth : 1 ≤ f.depth)
    (items : List Value) :
    items.foldl (fun f v => f.withItem (of v)) f =
      ⟨saturate (f.bytes + weights items), max f.depth (heights items + 1)⟩ := by
  induction items generalizing f with
  | nil =>
    rw [weights, heights, Nat.add_zero, saturate_of_le hbytes, Nat.max_eq_left hdepth]
    rfl
  | cons v items ih =>
    have hdepth' : 1 ≤ (f.withItem (of v)).depth := Nat.le_trans hdepth (Nat.le_max_left _ _)
    rw [List.foldl_cons, ih (saturate_le _) hdepth', withItem_of, saturate_saturate_add, weights,
      heights, Nat.add_assoc, Nat.max_assoc, Nat.add_max_add_right]

/-- A list is measured like a container to which its items are added. -/
theorem foldl_withItem_container (items : List Value) :
    items.foldl (fun f v => f.withItem (of v)) container = of (.list items) := by
  rw [foldl_withItem (by decide) (Nat.le_refl 1), of_eq, weight, height]
  exact congrArg (Footprint.mk _) (Nat.max_eq_right (Nat.le_add_left _ _))

/-! ## Recursion on the value -/

mutual

/-- **A value is measured** as by recursion on it. -/
theorem of_eq_tree : (v : Value) → of v = tree v
  | .nil | .bool _ | .number _ | .string _ => of_eq _
  | .list items => by rw [tree, treeItems_eq, foldl_withItem_container]
  | .record fields => by
    rw [tree, treeFields_eq (by decide) (Nat.le_refl 1), of_eq, weight, height]
    exact congrArg (Footprint.mk _) (Nat.max_eq_right (Nat.le_add_left _ _)).symm

theorem treeItems_eq {f : Footprint} : (items : List Value) →
    treeItems f items = items.foldl (fun f v => f.withItem (of v)) f
  | [] => rfl
  | v :: items => by rw [treeItems, ← of_eq_tree v, treeItems_eq, List.foldl_cons]

theorem treeFields_eq {f : Footprint} (hbytes : f.bytes ≤ Double.maxWord) (hdepth : 1 ≤ f.depth) :
    (fields : List (String × Value)) →
    treeFields f fields =
      ⟨saturate (f.bytes + fieldWeights fields), max f.depth (fieldHeights fields + 1)⟩
  | [] => by
    rw [treeFields, fieldWeights, fieldHeights, Nat.add_zero, saturate_of_le hbytes,
      Nat.max_eq_left hdepth]
  | (name, v) :: fields => by
    have hdepth' : 1 ≤ max f.depth (v.height + 1) := Nat.le_trans hdepth (Nat.le_max_left _ _)
    rw [treeFields, ← of_eq_tree v, withItem_of, treeFields_eq (saturate_le _) hdepth',
      saturate_saturate_add, Nat.add_assoc, saturate_saturate_add, fieldWeights, fieldHeights,
      Nat.max_assoc, Nat.add_max_add_right, Nat.add_assoc, Nat.add_assoc]

end

end Footprint

/-! ## Parts of values -/

namespace Value

open Footprint (fieldWeights_eq fieldHeights_eq)

variable {v : Value} {name : String} {items : List Value} {fields : List (String × Value)}

theorem weight_le_of_mem (h : v ∈ items) : v.weight ≤ weights items := by
  induction h with
  | head => exact Nat.le_add_right _ _
  | tail item _ ih => exact Nat.le_add_left_of_le ih

theorem height_le_of_mem (h : v ∈ items) : v.height ≤ heights items := by
  induction h with
  | head => exact Nat.le_max_left _ _
  | tail item _ ih => exact Nat.le_trans ih (Nat.le_max_right _ _)

theorem weight_le_of_mem_fields (h : (name, v) ∈ fields) : v.weight ≤ fieldWeights fields := by
  rw [fieldWeights_eq]
  exact Nat.le_add_left_of_le (weight_le_of_mem (List.mem_map_of_mem h))

theorem height_le_of_mem_fields (h : (name, v) ∈ fields) : v.height ≤ fieldHeights fields := by
  rw [fieldHeights_eq]
  exact height_le_of_mem (List.mem_map_of_mem h)

/-- Setting a field adds its name and its value at most: a field that was there goes. -/
theorem fieldWeights_insert_le :
    fieldWeights (Keyed.insert name v fields) ≤
      fieldWeights fields + (name.utf8ByteSize + v.weight) := by
  induction fields with
  | nil => simp [Keyed.insert, fieldWeights]
  | cons field fields ih =>
    obtain ⟨name', v'⟩ := field
    rw [Keyed.insert]
    split <;> (simp only [fieldWeights]; omega)

theorem fieldHeights_insert_le :
    fieldHeights (Keyed.insert name v fields) ≤ max (fieldHeights fields) v.height := by
  induction fields with
  | nil => simp [Keyed.insert, fieldHeights]
  | cons field fields ih =>
    obtain ⟨name', v'⟩ := field
    rw [Keyed.insert]
    split <;> (simp only [fieldHeights]; omega)

end Value

end ParseActions
