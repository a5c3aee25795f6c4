import ParseActions.Eval.Builtin
import ParseActions.Proofs.Number.Whole

/-!
# Ranges

A range is limited by the difference of its ends, and is counted by adding one to a double until the
upper end is reached. Up to `2 ^ 53` whole doubles are one apart: every step of a count goes to the next
whole number, and the count has as many steps as the difference tells. Above, doubles are further apart,
and a step that is rounded off leaves the counter where it is. Such a count has no end, however small
the difference is.

## Main definitions

* `Builtin.Counts`: a count ends, with the given items
* `Builtin.Coarse`: a range within the limit that reaches beyond the whole numbers that are one apart

## Main results

* `Builtin.counts_of_whole`: a count between whole numbers that are one apart ends
* `Builtin.not_counts_of_whole`: a count from such a number to one above `2 ^ 53` has no end
* `Builtin.call_range_ends`: a range is over the limit, or is counted to its end within the limit
-/

namespace ParseActions.Builtin

open Double

/-- The count in steps of one up to `stop` ends with `items`, from the state of a round on. -/
inductive Counts (stop : Float) : List Value × Float → List Value → Prop where
  | last {s : List Value × Float} {items : List Value} (h : countStep stop s = .inr items) :
    Counts stop s items
  | next {s s' : List Value × Float} {items : List Value} (h : countStep stop s = .inl s')
    (hends : Counts stop s' items) : Counts stop s items

/-- The bound `2 ^ 53` up to which whole doubles are one apart. -/
def exactBound : Float := 9007199254740992.0

/-- A range that is not empty and not over the limit, and not between whole numbers that are one
apart. -/
def Coarse (start stop : Float) : Prop :=
  trunc start < trunc stop ∧ ¬ Float.ofNat maxRange < trunc stop - trunc start ∧
    (trunc start < -exactBound ∨ exactBound < trunc stop)

variable {start stop n : Float} {out items : List Value}

/-! ## Rounds -/

theorem countStep_of_lt (h : n < stop) : countStep stop (out, n) = .inl (.number n :: out, n + 1.0) :=
  if_pos h

theorem countStep_of_not_lt (h : ¬ n < stop) : countStep stop (out, n) = .inr out.reverse :=
  if_neg h

/-- A count gives what it ends with. -/
theorem count_eq_of_counts (h : Counts stop ([], n) items) : count stop n = items := by
  rw [count]
  generalize ([], n) = s at h ⊢
  induction h with
  | last h =>
    rw [repeatM_eq_of_monadTail, repeatM.body, h]
    rfl
  | next h _ ih =>
    rw [repeatM_eq_of_monadTail, repeatM.body, h]
    exact ih

/-! ## Counts between whole numbers -/

theorem whole_exactBound : Whole exactBound (2 ^ 53) :=
  have hparts : parts? exactBound = some ⟨false, 2 ^ 52, 1⟩ := by decide +kernel
  whole_of_nonneg hparts (by decide)

theorem whole_neg_exactBound : Whole (-exactBound) (-2 ^ 53) :=
  have hparts : parts? (-exactBound) = some ⟨true, 2 ^ 52, 1⟩ := by decide +kernel
  whole_of_nonneg hparts (by decide)

theorem whole_maxRange : Whole (Float.ofNat maxRange) maxRange :=
  have hparts : parts? (Float.ofNat maxRange) = some ⟨false, 100000 * 2 ^ 36, -36⟩ := by
    decide +kernel
  whole_of_mul_two_pow hparts (by decide)

/-- **A count between whole numbers** that are one apart ends, with one item for each of them. -/
theorem counts_of_whole {a b : Int} (ha : Whole n a) (hb : Whole stop b) (hlow : -2 ^ 53 ≤ a)
    (hhigh : b ≤ 2 ^ 53) (out : List Value) :
    ∃ items, Counts stop (out, n) (out.reverse ++ items) ∧ items.length = (b - a).toNat := by
  generalize hk : (b - a).toNat = k
  induction k generalizing n a out with
  | zero =>
    have hge : ¬ n < stop := fun hlt => absurd ((ha.lt_iff hb).mp hlt) (by omega)
    refine ⟨[], .last ?_, rfl⟩
    rw [countStep_of_not_lt hge, List.append_nil]
  | succ k ih =>
    have hlt : n < stop := (ha.lt_iff hb).mpr (by omega)
    obtain ⟨items, hcounts, hlength⟩ :=
      ih (ha.add_one hlow (by omega)) (by omega) (.number n :: out) (by omega)
    rw [List.reverse_cons, List.append_assoc] at hcounts
    exact ⟨.number n :: items, .next (countStep_of_lt hlt) hcounts, congrArg (· + 1) hlength⟩

/-- The step from `2 ^ 53` is rounded off. -/
theorem whole_add_one_of_eq (h : Whole n (2 ^ 53)) : Whole (n + 1.0) (2 ^ 53) := by
  have hstays : exactBound + 1.0 = exactBound := by decide +kernel
  rw [h.eq_of_ne_zero whole_exactBound (by decide), hstays]
  exact whole_exactBound

/-- **A count from a whole number to one above `2 ^ 53`** has no end: the counter goes no further than
`2 ^ 53`. -/
theorem not_counts_of_whole {a b : Int} (ha : Whole n a) (hb : Whole stop b) (hlow : -2 ^ 53 ≤ a)
    (hle : a ≤ 2 ^ 53) (hhigh : 2 ^ 53 < b) : ¬ Counts stop (out, n) items := by
  intro h
  -- the counter stays among the whole numbers up to `2 ^ 53`, all of which are below `stop`
  have hlt : n < stop := (ha.lt_iff hb).mpr (by omega)
  generalize hs : (out, n) = s at h
  induction h generalizing n a out with
  | last h =>
    rw [← hs, countStep_of_lt hlt] at h
    cases h
  | next h _ ih =>
    rw [← hs, countStep_of_lt hlt] at h
    obtain ⟨a', ha', hlow', hle'⟩ : ∃ a', Whole (n + 1.0) a' ∧ -2 ^ 53 ≤ a' ∧ a' ≤ 2 ^ 53 := by
      rcases Int.lt_or_eq_of_le hle with hbelow | rfl
      · exact ⟨a + 1, ha.add_one hlow hbelow, by omega, by omega⟩
      · exact ⟨2 ^ 53, whole_add_one_of_eq ha, by omega, by omega⟩
    exact ih ha' hlow' hle' ((ha'.lt_iff hb).mpr (by omega)) (Sum.inl.inj h)

/-- The ends of a range that is not empty and not over the limit are whole numbers. -/
theorem exists_whole_of_not_lt_sub (hlt : trunc start < trunc stop)
    (hlimit : ¬ Float.ofNat maxRange < trunc stop - trunc start) :
    (∃ a, Whole (trunc start) a) ∧ ∃ b, Whole (trunc stop) b := by
  constructor
  · cases hstart : parts? start with
    | some p => exact whole_trunc hstart
    | none =>
      rw [← trunc_of_parts?_eq_none hstart] at hstart
      exact absurd (lt_sub_of_infinite hlt (.inl hstart) whole_maxRange) hlimit
  · cases hstop : parts? stop with
    | some p => exact whole_trunc hstop
    | none =>
      rw [← trunc_of_parts?_eq_none hstop] at hstop
      exact absurd (lt_sub_of_infinite hlt (.inr hstop) whole_maxRange) hlimit

/-- What is within the limit is counted to its end. -/
theorem exists_counts (hlimit : ¬ Float.ofNat maxRange < trunc stop - trunc start)
    (h : ¬ Coarse start stop) :
    ∃ items, Counts (trunc stop) ([], trunc start) items ∧ items.length ≤ maxRange := by
  -- an end that is not above the start, or no number, ends the count at once
  by_cases hlt : trunc start < trunc stop
  case neg => exact ⟨[], .last (countStep_of_not_lt hlt), Nat.zero_le _⟩
  obtain ⟨hlow, hhigh⟩ := not_or.mp fun hbeyond => h ⟨hlt, hlimit, hbeyond⟩
  obtain ⟨⟨a, ha⟩, ⟨b, hb⟩⟩ := exists_whole_of_not_lt_sub hlt hlimit
  have hlt' : a < b := (ha.lt_iff hb).mp hlt
  have hlow' : -2 ^ 53 ≤ a :=
    Int.not_lt.mp fun hbelow => hlow ((ha.lt_iff whole_neg_exactBound).mpr hbelow)
  have hhigh' : b ≤ 2 ^ 53 :=
    Int.not_lt.mp fun habove => hhigh ((whole_exactBound.lt_iff hb).mpr habove)
  have hdiff : b - a ≤ maxRange := Int.not_lt.mp fun hlarge =>
    hlimit (ha.lt_sub hb whole_maxRange (by omega) (by omega) (by decide) (by decide) hlarge)
  obtain ⟨items, hcounts, hlength⟩ := counts_of_whole ha hb hlow' hhigh' []
  exact ⟨items, hcounts, by omega⟩

/-! ## The builtin -/

theorem call_range (start stop : Float) :
    call "list" "range" [.number start, .number stop] = range start stop :=
  rfl

/-- **A range** is over the limit, or it is counted to its end and has no more items than the limit
allows, unless it reaches beyond the whole numbers that are one apart. -/
theorem call_range_ends (h : ¬ Coarse start stop) :
    call "list" "range" [.number start, .number stop] = .error (.limitExceeded .range) ∨
      ∃ items, Counts (trunc stop) ([], trunc start) items ∧ items.length ≤ maxRange ∧
        call "list" "range" [.number start, .number stop] = .ok (.list items) := by
  rw [call_range, range]
  by_cases hlimit : Float.ofNat maxRange < trunc stop - trunc start
  · exact .inl (if_pos hlimit)
  · obtain ⟨items, hcounts, hlength⟩ := exists_counts hlimit h
    refine .inr ⟨items, hcounts, hlength, ?_⟩
    rw [← count_eq_of_counts hcounts]
    exact if_neg hlimit

theorem call_range_ends_one_four :
    ¬ Coarse 1.0 4.0 ∧
      (call "list" "range" [.number 1.0, .number 4.0] = .error (.limitExceeded .range) ∨
        ∃ items, Counts (trunc 4.0) ([], trunc 1.0) items ∧ items.length ≤ maxRange ∧
          call "list" "range" [.number 1.0, .number 4.0] = .ok (.list items)) :=
  have hclose : ¬ (trunc 1.0 < -exactBound ∨ exactBound < trunc 4.0) := by decide +kernel
  have hfine : ¬ Coarse 1.0 4.0 := fun hcoarse => hclose hcoarse.2.2
  ⟨hfine, call_range_ends hfine⟩

/-- The range from `2 ^ 53` to `2 ^ 53 + 2` is within the limit, and is never counted to its end. -/
theorem call_range_endless :
    ¬ (call "list" "range" [.number 9007199254740992.0, .number 9007199254740994.0] =
        .error (.limitExceeded .range) ∨
      ∃ items, Counts (trunc 9007199254740994.0) ([], trunc 9007199254740992.0) items ∧
        items.length ≤ maxRange ∧
        call "list" "range" [.number 9007199254740992.0, .number 9007199254740994.0] =
          .ok (.list items)) := by
  have hfirst : Whole (trunc 9007199254740992.0) (2 ^ 53) := by
    have hparts : parts? (trunc 9007199254740992.0) = some ⟨false, 2 ^ 52, 1⟩ := by decide +kernel
    exact whole_of_nonneg hparts (by decide)
  have hlast : Whole (trunc 9007199254740994.0) (2 ^ 53 + 2) := by
    have hparts : parts? (trunc 9007199254740994.0) = some ⟨false, 2 ^ 52 + 1, 1⟩ := by
      decide +kernel
    exact whole_of_nonneg hparts (by decide)
  have hlimit : ¬ Float.ofNat maxRange < trunc 9007199254740994.0 - trunc 9007199254740992.0 := by
    decide +kernel
  rintro (herror | ⟨items, hcounts, -⟩)
  · rw [call_range, range, if_neg hlimit] at herror
    cases herror
  · exact not_counts_of_whole hfirst hlast (by decide) (by decide) (by decide) hcounts

end ParseActions.Builtin
