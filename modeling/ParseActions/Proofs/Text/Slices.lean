import ParseActions.Text.Basic

/-!
# Slices of a text

A slice of a text can be taken between two places that do not lie inside a character. Slices that
follow one another make up the slice from the start of the first to the end of the last.

## Main definitions

* `Text.IsBoundary`: a place between two characters, or at an end of the text

## Main results

* `Text.slice?_isSome`: slices between boundaries
* `Text.slice?_append`: slices that follow one another
-/

namespace ParseActions.Text

variable {cs xs ys : List Char} {m n start middle stop : Nat}

/-- A place in a text that does not lie inside a character or past the end. -/
def IsBoundary (cs : List Char) (place : Nat) : Prop :=
  (dropBytes? place cs).isSome

instance (cs : List Char) (place : Nat) : Decidable (IsBoundary cs place) :=
  inferInstanceAs (Decidable (_ = true))

@[simp] theorem dropBytes?_zero : dropBytes? 0 cs = some cs := by
  cases cs <;> rfl

@[simp] theorem takeBytes?_zero : takeBytes? 0 cs = some [] := by
  cases cs <;> rfl

theorem dropBytes?_cons (c : Char) (hn : c.utf8Size ≤ n) :
    dropBytes? n (c :: cs) = dropBytes? (n - c.utf8Size) cs := by
  cases n with
  | zero => exact absurd hn (Nat.not_le_of_lt c.utf8Size_pos)
  | succ n => rw [dropBytes?, if_pos hn]

theorem takeBytes?_cons (c : Char) (hn : c.utf8Size ≤ n) :
    takeBytes? n (c :: cs) = (takeBytes? (n - c.utf8Size) cs).map (c :: ·) := by
  cases n with
  | zero => exact absurd hn (Nat.not_le_of_lt c.utf8Size_pos)
  | succ n => rw [takeBytes?, if_pos hn]

/-- Bytes are dropped up to a boundary inside the text after the first character, or none are. -/
theorem dropBytes?_cons_eq_some {c : Char} (h : dropBytes? n (c :: cs) = some xs) :
    n = 0 ∧ xs = c :: cs ∨ c.utf8Size ≤ n ∧ dropBytes? (n - c.utf8Size) cs = some xs := by
  cases n with
  | zero => exact .inl ⟨rfl, (Option.some.inj h).symm⟩
  | succ n =>
    rw [dropBytes?] at h
    split at h
    · next hn => exact .inr ⟨hn, h⟩
    · cases h

theorem takeBytes?_cons_eq_some {c : Char} (h : takeBytes? n (c :: cs) = some xs) :
    n = 0 ∧ xs = [] ∨
      c.utf8Size ≤ n ∧ ∃ rest, takeBytes? (n - c.utf8Size) cs = some rest ∧ xs = c :: rest := by
  cases n with
  | zero => exact .inl ⟨rfl, (Option.some.inj h).symm⟩
  | succ n =>
    rw [takeBytes?] at h
    split at h
    · next hn =>
      obtain ⟨rest, hrest, rfl⟩ := Option.map_eq_some_iff.mp h
      exact .inr ⟨hn, rest, hrest, rfl⟩
    · cases h

/-- Places after a boundary are counted from there. -/
theorem dropBytes?_add (h : dropBytes? m cs = some xs) :
    dropBytes? (m + n) cs = dropBytes? n xs := by
  induction cs generalizing m with
  | nil =>
    cases m with
    | zero =>
      obtain rfl := Option.some.inj h
      rw [Nat.zero_add]
    | succ m => cases h
  | cons c cs ih =>
    rcases dropBytes?_cons_eq_some h with ⟨rfl, rfl⟩ | ⟨hm, h⟩
    · rw [Nat.zero_add]
    · rw [dropBytes?_cons c (by omega), ← ih h, Nat.sub_add_comm hm]

/-- What is taken up to a boundary, and then from there on. -/
theorem takeBytes?_add (h : takeBytes? m cs = some xs) :
    takeBytes? (m + n) cs = ((dropBytes? m cs).bind (takeBytes? n)).map (xs ++ ·) := by
  induction cs generalizing m xs with
  | nil =>
    cases m with
    | zero =>
      obtain rfl := Option.some.inj h
      simp
    | succ m => cases h
  | cons c cs ih =>
    rcases takeBytes?_cons_eq_some h with ⟨rfl, rfl⟩ | ⟨hm, rest, hrest, rfl⟩
    · simp
    · rw [takeBytes?_cons c (by omega), dropBytes?_cons c hm, Nat.sub_add_comm hm, ih hrest,
        Option.map_map]
      rfl

/-- As many bytes can be taken as can be dropped. -/
theorem takeBytes?_isSome : (takeBytes? n cs).isSome ↔ IsBoundary cs n := by
  induction cs generalizing n with
  | nil => cases n <;> simp [IsBoundary, takeBytes?, dropBytes?]
  | cons c cs ih =>
    by_cases hn : c.utf8Size ≤ n
    · rw [IsBoundary, takeBytes?_cons c hn, dropBytes?_cons c hn, Option.isSome_map, ih, IsBoundary]
    · cases n with
      | zero => simp [IsBoundary]
      | succ n => simp [IsBoundary, takeBytes?, dropBytes?, hn]

/-- A slice can be taken between two boundaries. -/
theorem slice?_isSome (hstart : IsBoundary cs start) (hstop : IsBoundary cs stop)
    (horder : start ≤ stop) : (slice? cs start stop).isSome := by
  obtain ⟨xs, hxs⟩ := Option.isSome_iff_exists.mp hstart
  rw [slice?, if_pos horder, hxs, Option.bind_some, takeBytes?_isSome, IsBoundary,
    ← dropBytes?_add hxs, Nat.add_sub_cancel' horder]
  exact hstop

/-- **Slices that follow one another** make up one slice. -/
theorem slice?_append (h : slice? cs start middle = some xs) (h' : slice? cs middle stop = some ys) :
    slice? cs start stop = some (xs ++ ys) := by
  rw [slice?] at h h'
  split at h
  · next horder =>
    split at h'
    · next horder' =>
      obtain ⟨rest, hrest, htake⟩ := Option.bind_eq_some_iff.mp h
      have hdrop := dropBytes?_add (n := middle - start) hrest
      rw [Nat.add_sub_cancel' horder] at hdrop
      have htakes := takeBytes?_add (n := stop - middle) htake
      rw [← hdrop, h', Option.map_some, show middle - start + (stop - middle) = stop - start by omega]
        at htakes
      rw [slice?, if_pos (Nat.le_trans horder horder'), hrest]
      exact htakes
    · cases h'
  · cases h

end ParseActions.Text
