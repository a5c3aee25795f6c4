/-!
# Keyed lists

Finite maps as lists of keys and values in the order of the keys, without repeated keys. Setting the
value of a key changes what is found under this key alone, and forgets the value that was there; removing
a key changes nothing else either.

## Main definitions

* `Keyed.insert`, `Keyed.erase`, `Keyed.find?`: the operations of a map
* `Keyed.keys`: the keys in order
* `Keyed.Sorted`: the keys are in strictly increasing order

## Main results

* `Keyed.find?_insert`, `Keyed.find?_erase`: what is found after a value was set, or a key removed
* `Keyed.insert_insert`: a value that is set twice
-/

namespace ParseActions.Keyed

variable {κ α : Type} [Ord κ]

/-- Sets the value of a key. -/
def insert (key : κ) (a : α) : List (κ × α) → List (κ × α)
  | [] => [(key, a)]
  | (k, b) :: rest =>
    match compare key k with
    | .lt => (key, a) :: (k, b) :: rest
    | .eq => (key, a) :: rest
    | .gt => (k, b) :: insert key a rest

/-- The value of a key. -/
def find? (key : κ) : List (κ × α) → Option α
  | [] => none
  | (k, a) :: rest => if compare key k == .eq then some a else find? key rest

/-- The map without a key. -/
def erase (key : κ) (m : List (κ × α)) : List (κ × α) :=
  m.filter fun (k, _) => compare key k != .eq

/-- The map of a list of keys and values, where the last value of a key counts. -/
def ofList (entries : List (κ × α)) : List (κ × α) :=
  entries.foldl (fun m (k, a) => insert k a m) []

/-- The keys in order. -/
def keys (m : List (κ × α)) : List κ :=
  m.map Prod.fst

/-- The values in the order of their keys. -/
def values (m : List (κ × α)) : List α :=
  m.map Prod.snd

/-- The keys increase strictly. -/
def Sorted (m : List (κ × α)) : Prop :=
  m.Pairwise fun p q => compare p.1 q.1 = .lt

/-! ## Laws -/

section Lawful

variable [Std.LawfulEqOrd κ]

theorem find?_cons_self (key : κ) (a : α) (m : List (κ × α)) :
    find? key ((key, a) :: m) = some a := by
  simp [find?]

theorem find?_cons_of_ne {key k : κ} (h : key ≠ k) (a : α) (m : List (κ × α)) :
    find? key ((k, a) :: m) = find? key m := by
  simp [find?, h]

@[simp] theorem find?_insert_self (key : κ) (a : α) (m : List (κ × α)) :
    find? key (insert key a m) = some a := by
  induction m with
  | nil => exact find?_cons_self key a []
  | cons p m ih =>
    obtain ⟨k, b⟩ := p
    cases h : compare key k with
    | lt => simp [insert, h, find?]
    | eq => simp [insert, h, find?]
    | gt => simp [insert, h, find?, ih]

theorem find?_insert_of_ne {key k : κ} (hne : k ≠ key) (a : α) (m : List (κ × α)) :
    find? k (insert key a m) = find? k m := by
  induction m with
  | nil => exact find?_cons_of_ne hne a []
  | cons p m ih =>
    obtain ⟨k', b⟩ := p
    cases h : compare key k' with
    | lt => simp only [insert, h, find?_cons_of_ne hne]
    | eq =>
      obtain rfl := Std.LawfulEqOrd.eq_of_compare h
      simp only [insert, h, find?_cons_of_ne hne]
    | gt => simp only [insert, h, find?, ih]

/-- **Setting a value** changes what is found under its key alone. -/
theorem find?_insert [DecidableEq κ] (key k : κ) (a : α) (m : List (κ × α)) :
    find? k (insert key a m) = if k = key then some a else find? k m := by
  by_cases h : k = key
  · rw [if_pos h, h, find?_insert_self]
  · rw [if_neg h, find?_insert_of_ne h]

theorem find?_erase_self (key : κ) (m : List (κ × α)) : find? key (erase key m) = none := by
  induction m with
  | nil => rfl
  | cons p m ih =>
    obtain ⟨k, a⟩ := p
    by_cases h : key = k
    · subst h
      simpa [erase] using ih
    · simpa [erase, h, find?_cons_of_ne h] using ih

theorem find?_erase_of_ne {key k : κ} (hne : k ≠ key) (m : List (κ × α)) :
    find? k (erase key m) = find? k m := by
  induction m with
  | nil => rfl
  | cons p m ih =>
    obtain ⟨k', a⟩ := p
    by_cases h : key = k'
    · subst h
      rw [find?_cons_of_ne hne, ← ih]
      simp [erase]
    · have hkept : erase key ((k', a) :: m) = (k', a) :: erase key m := by simp [erase, h]
      rw [hkept, find?, find?, ih]

/-- **Removing a key** changes what is found under it alone. -/
theorem find?_erase [DecidableEq κ] (key k : κ) (m : List (κ × α)) :
    find? k (erase key m) = if k = key then none else find? k m := by
  by_cases h : k = key
  · rw [if_pos h, h, find?_erase_self]
  · rw [if_neg h, find?_erase_of_ne h]

/-- A value that is set twice is the second one. -/
theorem insert_insert (key : κ) (a b : α) (m : List (κ × α)) :
    insert key b (insert key a m) = insert key b m := by
  induction m with
  | nil => simp [insert]
  | cons p m ih =>
    obtain ⟨k, c⟩ := p
    cases h : compare key k with
    | lt => simp [insert, h]
    | eq => simp [insert, h]
    | gt => simp only [insert, h, ih]

/-- What is found is in the list. -/
theorem mem_of_find? {key : κ} {a : α} {m : List (κ × α)} (h : find? key m = some a) :
    (key, a) ∈ m := by
  induction m with
  | nil => cases h
  | cons p m ih =>
    obtain ⟨k, b⟩ := p
    by_cases hk : key = k
    · subst hk
      rw [find?_cons_self, Option.some.injEq] at h
      exact h ▸ List.mem_cons_self
    · rw [find?_cons_of_ne hk] at h
      exact List.mem_cons_of_mem _ (ih h)

/-- In a list that is in order no key is repeated. -/
theorem Sorted.nodup_keys {m : List (κ × α)} (hs : Sorted m) : (keys m).Nodup := by
  refine List.pairwise_map.mpr (hs.imp fun {p q} hlt heq => ?_)
  rw [Std.LawfulEqOrd.compare_eq_iff_eq.mpr heq] at hlt
  cases hlt

end Lawful

end ParseActions.Keyed
