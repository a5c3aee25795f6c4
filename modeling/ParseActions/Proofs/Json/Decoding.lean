import ParseActions.Json.Decode
import ParseActions.Json.Reader

/-!
# Documents that are read back

A decoder reads back a value when it takes the document of the value to the value. The decoders of
basic types, of lists and of optional values read back what the encoders next to them write, given
that the decoder of the parts does. A document whose nesting is within the limit is read as it is
written.

## Main definitions

* `Json.height`: the nesting of arrays and objects
* `Json.ReadsBack`: a decoder takes the document of a value to the value
* `Json.Member.ofOption`: the field of an optional value

## Main results

* `Json.limit_eq_self`, `Json.read?_eq_of_readDeep?`: nothing is marked within the limit
* `Json.readsBack_list`, `Json.readsBack_entries`: lists, and fields of any name
* `Json.Member.orElse_ofOption`: fields that may be left out
-/

namespace ParseActions

namespace Json

/-! ## Nesting -/

mutual

/-- The nesting of arrays and objects. -/
def height : Json → Nat
  | array items => itemsHeight items + 1
  | object fields => fieldsHeight fields + 1
  | _ => 0

/-- The nesting of the item that is nested most. -/
def itemsHeight : List Json → Nat
  | [] => 0
  | item :: items => max item.height (itemsHeight items)

/-- The nesting of the field that is nested most. -/
def fieldsHeight : List (String × Json) → Nat
  | [] => 0
  | (_, value) :: fields => max value.height (fieldsHeight fields)

end

mutual

/-- **Within the limit** nothing is marked. -/
theorem limit_eq_self : {levels : Nat} → {json : Json} → json.height ≤ levels →
    limit levels json = json
  | 0, .array _, h => absurd h (by simp [height])
  | _ + 1, .array _, h => by
    rw [limit, limitItems_eq_self (Nat.le_of_succ_le_succ h)]
  | 0, .object _, h => absurd h (by simp [height])
  | _ + 1, .object _, h => by
    rw [limit, limitFields_eq_self (Nat.le_of_succ_le_succ h)]
  | _, .null, _ | _, .bool _, _ | _, .int _, _ | _, .float _, _ | _, .string _, _
  | _, .unusable, _ => by rw [limit] <;> nofun

theorem limitItems_eq_self : {levels : Nat} → {items : List Json} → itemsHeight items ≤ levels →
    limitItems levels items = items
  | _, [], _ => rfl
  | _, _ :: _, h => by
    rw [itemsHeight] at h
    rw [limitItems, limit_eq_self (Nat.max_le.mp h).1, limitItems_eq_self (Nat.max_le.mp h).2]

theorem limitFields_eq_self : {levels : Nat} → {fields : List (String × Json)} →
    fieldsHeight fields ≤ levels → limitFields levels fields = fields
  | _, [], _ => rfl
  | _, (_, _) :: _, h => by
    rw [fieldsHeight] at h
    rw [limitFields, limit_eq_self (Nat.max_le.mp h).1, limitFields_eq_self (Nat.max_le.mp h).2]

end

/-- A text whose document is nested within the limit is read as it is written. -/
theorem read?_eq_of_readDeep? {text : String} {json : Json} (h : readDeep? text = some json)
    (hheight : json.height ≤ maxLevels) : read? text = some json := by
  rw [read?, h, Option.map_some, limit_eq_self hheight]

theorem height_le_of_mem {item : Json} {items : List Json} (h : item ∈ items) :
    item.height ≤ itemsHeight items := by
  induction items with
  | nil => cases h
  | cons other items ih =>
    rw [itemsHeight]
    rcases List.mem_cons.mp h with rfl | h
    · exact Nat.le_max_left ..
    · exact Nat.le_trans (ih h) (Nat.le_max_right ..)

theorem height_le_of_field {name : String} {value : Json} {fields : List (String × Json)}
    (h : (name, value) ∈ fields) : value.height ≤ fieldsHeight fields := by
  induction fields with
  | nil => cases h
  | cons other fields ih =>
    obtain ⟨k, other⟩ := other
    rw [fieldsHeight]
    rcases List.mem_cons.mp h with h | h
    · obtain ⟨-, rfl⟩ := Prod.mk.inj h
      exact Nat.le_max_left ..
    · exact Nat.le_trans (ih h) (Nat.le_max_right ..)

/-- What is in a field is nested less than the object. -/
theorem height_lt_object {name : String} {value : Json} {fields : List (String × Json)}
    (h : (name, value) ∈ fields) : value.height < (object fields).height :=
  Nat.lt_succ_of_le (height_le_of_field h)

/-- An item is nested less than the array. -/
theorem height_lt_array {item : Json} {items : List Json} (h : item ∈ items) :
    item.height < (array items).height :=
  Nat.lt_succ_of_le (height_le_of_mem h)

/-! ## Values that are read back -/

/-- The decoder takes the document of the value to the value. -/
def ReadsBack {α : Type} (decode : Decoder α) (encode : α → Json) (a : α) : Prop :=
  decode (encode a) = some a

variable {α : Type} {decode : Decoder α} {encode : α → Json}

/-- A character is read back from the string of it alone. -/
theorem readsBack_char (c : Char) : ReadsBack char? (fun c => string c.toString) c := by
  simp [ReadsBack, char?]

/-- Numbers up to the bound are read back. -/
theorem readsBack_nat {bound n : Nat} (h : n ≤ bound) : ReadsBack (natUpTo? bound) nat n := by
  rw [ReadsBack, nat, natUpTo?, if_pos ⟨Int.natCast_nonneg n, Int.ofNat_le.mpr h⟩, Int.toNat_natCast]

/-- What is made of a value is made of the value that is read back. -/
theorem ReadsBack.map {β : Type} {a : α} (h : ReadsBack decode encode a) (f : α → β) :
    f <$> decode (encode a) = some (f a) := by
  rw [h, Option.map_eq_map, Option.map_some]

/-- What is done to all items of a list gives the list that each of them gives a part of. -/
theorem mapM_map_eq_some {β γ : Type} {f : β → Option γ} {g : γ → β} {cs : List γ}
    (h : ∀ c ∈ cs, f (g c) = some c) : (cs.map g).mapM f = some cs := by
  induction cs with
  | nil => rfl
  | cons c cs ih =>
    rw [List.map_cons, List.mapM_cons, h c List.mem_cons_self,
      ih fun d hd => h d (List.mem_cons_of_mem _ hd)]
    rfl

/-- **Lists** are read back with their items. -/
theorem readsBack_list {as : List α} (h : ∀ a ∈ as, ReadsBack decode encode a) :
    ReadsBack (list? decode) (list encode) as :=
  mapM_map_eq_some h

/-- **Fields of any name** are read back with their values. -/
theorem readsBack_entries {entries : List (String × α)}
    (h : ∀ p ∈ entries, ReadsBack decode encode p.2) :
    ReadsBack (entries? decode) (fun es => object (es.map fun (name, a) => (name, encode a)))
      entries := by
  refine mapM_map_eq_some fun p hp => ?_
  have ha : decode (encode p.2) = some p.2 := h p hp
  simp only [ha, Option.map_some]

/-! ## Fields that may be left out -/

/-- The field of an optional value, which is left out when there is none. -/
def Member.ofOption (encode : α → Json) : Option α → Member
  | none => missing
  | some a => present (encode a)

/-- **Optional fields** are read back, where no value is written as null: what was left out is
restored. -/
theorem Member.orElse_ofOption (encode : α → Json) (hnull : ∀ a, encode a ≠ null) {o : Option α}
    (h : ∀ a ∈ o, ReadsBack decode encode a) :
    (Member.ofOption encode o).orElse (option? decode) none = some o := by
  cases o with
  | none => rfl
  | some a =>
    have ha : decode (encode a) = some a := h a rfl
    rw [ofOption, orElse, option?, ha, Option.map_some]
    exact hnull a

end Json

end ParseActions
