import ParseActions.Keyed

/-!
# Laws of keyed lists

Setting the value of a key keeps the order. In a list that is in order, setting a key to the value it has
changes nothing, and the list is the map of its entries. In the map of any list the last entry for a key
is found.

## Main results

* `Keyed.Sorted.insert`: the order is kept
* `Keyed.insert_eq_self`: a value that is set again
* `Keyed.find?_ofList`: what is found in the map of a list
* `Keyed.ofList_eq_self`: the map of the entries of a list that is in order
* `Keyed.filter_eq_find?`: what is found under a key is its only entry
-/

namespace ParseActions.Keyed

variable {κ α : Type} [Ord κ]

section Lawful

variable [Std.LawfulEqOrd κ]

section Entries

variable [DecidableEq κ] {key : κ} {a : α} {m entries before : List (κ × α)}

theorem find?_eq_lookup (key : κ) (m : List (κ × α)) : find? key m = m.lookup key := by
  induction m with
  | nil => rfl
  | cons p m ih =>
    obtain ⟨k, b⟩ := p
    by_cases hk : key = k
    · subst hk
      rw [find?_cons_self, List.lookup_cons_self]
    · rw [find?_cons_of_ne hk, ih, List.lookup_cons, beq_false_of_ne hk]

theorem mem_keys : key ∈ keys m ↔ (find? key m).isSome = true := by
  rw [find?_eq_lookup, List.lookup_isSome_iff, keys, List.mem_map]
  simp only [beq_iff_eq, @eq_comm _ key]

/-- Where no key is repeated, what is found under a key is its only entry. -/
theorem filter_eq_find? (hnodup : (keys m).Nodup) (key : κ) :
    m.filter (fun p => p.1 = key) = ((find? key m).map (key, ·)).toList := by
  induction m with
  | nil => rfl
  | cons p m ih =>
    obtain ⟨k, a⟩ := p
    obtain ⟨hk, hm⟩ := List.nodup_cons.mp hnodup
    by_cases h : k = key
    · subst h
      have hnone : find? k m = none :=
        Option.not_isSome_iff_eq_none.mp (mt mem_keys.mpr hk)
      rw [List.filter_cons_of_pos (by simp), ih hm, hnone, find?_cons_self]
      rfl
    · rw [List.filter_cons_of_neg (by simpa using h), ih hm, find?_cons_of_ne (Ne.symm h)]

/-- What is found after values were set, one after the other: the last one for the key, or else what was
found before. -/
theorem find?_foldl_insert (key : κ) (entries m : List (κ × α)) :
    find? key (entries.foldl (fun m (k, a) => insert k a m) m) =
      (entries.reverse.lookup key).or (find? key m) := by
  induction entries generalizing m with
  | nil => rfl
  | cons p entries ih =>
    obtain ⟨k, a⟩ := p
    rw [List.foldl_cons, ih, find?_insert, List.reverse_cons, List.lookup_append, Option.or_assoc]
    by_cases hk : key = k
    · rw [if_pos hk, hk, List.lookup_cons_self, Option.some_or]
    · rw [if_neg hk, List.lookup_cons, beq_false_of_ne hk, List.lookup_nil, Option.none_or]

/-- **The map of a list** has the last value of each key. -/
theorem find?_ofList (key : κ) (entries : List (κ × α)) :
    find? key (ofList entries) = entries.reverse.lookup key := by
  rw [ofList, find?_foldl_insert, find?, Option.or_none]

/-- Keys without an entry are not in the map. -/
theorem mem_keys_ofList : key ∈ keys (ofList entries) ↔ key ∈ keys entries := by
  rw [mem_keys, find?_ofList, List.lookup_isSome_iff, keys, List.mem_map]
  simp only [List.mem_reverse, beq_iff_eq, @eq_comm _ key]

theorem find?_ofList_append (key : κ) (before entries : List (κ × α)) :
    find? key (ofList (before ++ entries)) =
      (find? key (ofList entries)).or (find? key (ofList before)) := by
  rw [find?_ofList, find?_ofList, find?_ofList, List.reverse_append, List.lookup_append]

/-- Entries for other keys that come last do not count. -/
theorem find?_ofList_append_of_not_mem (h : key ∉ keys entries) :
    find? key (ofList (before ++ entries)) = find? key (ofList before) := by
  rw [← mem_keys_ofList, mem_keys, Bool.not_eq_true, Option.isSome_eq_false_iff,
    Option.isNone_iff_eq_none] at h
  rw [find?_ofList_append, h, Option.none_or]

/-- Where no key is repeated, each entry is in the map. -/
theorem find?_ofList_of_mem (hnodup : (keys entries).Nodup) (h : (key, a) ∈ entries) :
    find? key (ofList entries) = some a := by
  obtain ⟨first, last, rfl⟩ := List.append_of_mem h
  rw [find?_ofList, List.lookup_eq_some_iff]
  refine ⟨last.reverse, first.reverse, by simp, fun p hp => bne_iff_ne.mpr ?_⟩
  rintro rfl
  -- the key would be there again, after its entry
  rw [keys, List.map_append, List.map_cons, List.nodup_append] at hnodup
  exact (List.nodup_cons.mp hnodup.2.1).1 (List.mem_map.mpr ⟨p, List.mem_reverse.mp hp, rfl⟩)

/-- Where no key is repeated among the entries that come last, they are in the map. -/
theorem find?_ofList_append_of_mem (hnodup : (keys entries).Nodup) (h : (key, a) ∈ entries) :
    find? key (ofList (before ++ entries)) = some a := by
  rw [find?_ofList_append, find?_ofList_of_mem hnodup h, Option.some_or]

end Entries

end Lawful

theorem mem_insert {key : κ} {a : α} {m : List (κ × α)} {p : κ × α} (h : p ∈ insert key a m) :
    p = (key, a) ∨ p ∈ m := by
  induction m with
  | nil => exact .inl (List.mem_singleton.mp h)
  | cons q m ih =>
    obtain ⟨k, b⟩ := q
    cases hk : compare key k with
    | lt =>
      simp only [insert, hk] at h
      exact List.mem_cons.mp h
    | eq =>
      simp only [insert, hk] at h
      exact (List.mem_cons.mp h).imp_right (List.mem_cons_of_mem _)
    | gt =>
      simp only [insert, hk] at h
      rcases List.mem_cons.mp h with rfl | h
      · exact .inr List.mem_cons_self
      · exact (ih h).imp_right (List.mem_cons_of_mem _)

section Oriented

variable [Std.OrientedOrd κ]

/-- A key above all others is set at the end. -/
theorem insert_eq_append {key : κ} (a : α) {m : List (κ × α)}
    (h : ∀ p ∈ m, compare p.1 key = .lt) : insert key a m = m ++ [(key, a)] := by
  induction m with
  | nil => rfl
  | cons p m ih =>
    obtain ⟨k, b⟩ := p
    have hgt : compare key k = .gt := Std.OrientedCmp.gt_of_lt (h _ List.mem_cons_self)
    simp only [insert, hgt, List.cons_append, ih fun q hq => h q (List.mem_cons_of_mem _ hq)]

/-- **A list that is in order** is the map of its entries. -/
theorem ofList_eq_self {m : List (κ × α)} (hs : Sorted m) : ofList m = m := by
  -- the entries that are left are above those that have been set
  suffices h : ∀ done : List (κ × α), Sorted (done ++ m) →
      m.foldl (fun m p => insert p.1 p.2 m) done = done ++ m from h [] hs
  clear hs
  induction m with
  | nil => simp
  | cons p m ih =>
    obtain ⟨k, a⟩ := p
    intro done hs
    have habove : ∀ q ∈ done, compare q.1 k = .lt := fun q hq =>
      (List.pairwise_append.mp hs).2.2 q hq _ List.mem_cons_self
    rw [List.append_cons] at hs ⊢
    simp only [List.foldl_cons, insert_eq_append a habove]
    exact ih _ hs

end Oriented

section Ordered

variable [Std.TransOrd κ] [Std.LawfulEqOrd κ]

/-- **Setting a value** keeps the order. -/
theorem Sorted.insert {m : List (κ × α)} (hs : Sorted m) (key : κ) (a : α) :
    Sorted (insert key a m) := by
  induction m with
  | nil => exact List.pairwise_singleton _ _
  | cons p m ih =>
    obtain ⟨k, b⟩ := p
    obtain ⟨hlt, hm⟩ := List.pairwise_cons.mp hs
    cases h : compare key k with
    | lt =>
      simp only [Keyed.insert, h]
      refine List.pairwise_cons.mpr ⟨fun q hq => ?_, hs⟩
      rcases List.mem_cons.mp hq with rfl | hq
      · exact h
      -- the new key is below the first one, and so below all others
      · exact Std.TransCmp.lt_trans h (hlt q hq)
    | eq =>
      obtain rfl := Std.LawfulEqOrd.eq_of_compare h
      simp only [Keyed.insert, h]
      exact List.pairwise_cons.mpr ⟨hlt, hm⟩
    | gt =>
      simp only [Keyed.insert, h]
      refine List.pairwise_cons.mpr ⟨fun q hq => ?_, ih hm⟩
      rcases mem_insert hq with rfl | hq
      · exact Std.OrientedCmp.lt_of_gt h
      · exact hlt q hq

/-- Setting a key to the value it has changes nothing in a list that is in order. -/
theorem insert_eq_self {key : κ} {a : α} {m : List (κ × α)} (hs : Sorted m)
    (h : find? key m = some a) : insert key a m = m := by
  induction m with
  | nil => cases h
  | cons p m ih =>
    obtain ⟨k, b⟩ := p
    obtain ⟨hlt, hm⟩ := List.pairwise_cons.mp hs
    by_cases hk : key = k
    · subst hk
      rw [find?_cons_self, Option.some.injEq] at h
      simp [Keyed.insert, h]
    · rw [find?_cons_of_ne hk] at h
      -- the key is found behind the first one, so it is above it
      have hgt : compare key k = .gt := Std.OrientedCmp.gt_of_lt (hlt _ (mem_of_find? h))
      simp only [Keyed.insert, hgt, ih hm h]

end Ordered

end ParseActions.Keyed
