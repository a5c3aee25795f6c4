import ParseActions.Proofs.Eval.Estimates
import ParseActions.Proofs.Number.Exact

/-!
# Slices of strings and lists

A slice is taken between two places, which its bounds stand for in a sequence of a given length. The
places depend on the bounds and the length alone, whatever the bounds are: a string has as many characters
as the list of its characters has items, so both have the same slices. A place cuts a sequence in two, and
the same bound stands for it as an end and as a start.

## Main definitions

* `Builtin.bound`: the argument for a bound that may be left open

## Main results

* `Call.slice_map`: slices of sequences of the same length
* `Call.slice_append_slice`: the slices up to a bound and from it on
* `Builtin.slices_agree_and_partition`: slices of a string by its characters, and cutting in two
-/

namespace ParseActions

/-! ## Places -/

namespace Double

variable {x : Float}

/-- A number below zero has no place. -/
theorem toWord_of_lt_zero (h : x < 0.0) : toWord x = 0 := by
  have hzero : parts? 0.0 = some ⟨false, 0, leastExponent⟩ := by decide +kernel
  cases hparts : parts? x with
  | none =>
    rw [toWord, hparts]
    exact if_neg (not_lt_of_lt hzero h)
  | some p =>
    have hneg : p.units < (⟨false, 0, leastExponent⟩ : Parts).units :=
      (lt_iff (units?_of_parts? hparts) (units?_of_parts? hzero)).mp h
    have hsign : p.negative = true := by
      by_contra hpositive
      rw [Parts.units, if_neg hpositive, Parts.units, multiple, multiple, Nat.zero_mul] at hneg
      exact absurd hneg (Int.not_lt.mpr (Int.natCast_nonneg _))
    rw [toWord, hparts]
    exact if_pos hsign

end Double

/-! ## Slices -/

namespace Call

open Double (trunc toWord toWord_of_lt_zero)

variable {α β : Type}

/-- Zero stands for the start, however long the sequence is. -/
theorem clampIndex_zero (length : Nat) : clampIndex 0.0 length = 0 := by
  have hzero : ¬ (0.0 : Float) < 0.0 := by decide +kernel
  have htrunc : trunc 0.0 = 0.0 := by decide +kernel
  have hplace : toWord 0.0 = 0 := by decide +kernel
  rw [clampIndex]
  simp only [if_neg hzero, htrunc]
  by_cases hlast : Float.ofNat length < 0.0
  · rw [if_pos hlast, toWord_of_lt_zero hlast]
  · rw [if_neg hlast, hplace]

/-- **Sequences of the same length** have their slices at the same places. -/
theorem slice_map (f : α → β) (items : List α) (start : Float) (stop : Option Float) :
    slice (items.map f) start stop = (slice items start stop).map f := by
  simp only [slice, List.length_map]
  rw [List.map_drop, List.map_take]

/-- **A sequence is cut in two** at any bound: up to it from the start, and from it to the end. -/
theorem slice_append_slice (items : List α) (bound : Float) :
    slice items 0.0 (some bound) ++ slice items bound none = items := by
  simp only [slice, clampIndex_zero, Option.elim_some, Option.elim_none]
  rw [List.drop_zero, List.take_length, List.take_append_drop]

theorem length_slice_le (items : List α) (start : Float) (stop : Option Float) :
    (slice items start stop).length ≤ items.length := by
  simp only [slice, List.length_drop, List.length_take]
  omega

end Call

/-! ## The builtins -/

namespace Builtin

open Footprint (maxBytes slot saturate)

/-- The argument for a bound, which is nil where the bound is left open. -/
def bound (stop : Option Float) : Value :=
  stop.elim .nil .number

theorem call_slice_string (s : String) (start : Float) (stop : Option Float) :
    call "string" "slice" [.string s, .number start, bound stop] =
      .ok (text (Call.slice s.toList start stop)) := by
  cases stop <;> rfl

theorem call_slice_list (items : List Value) (start : Float) (stop : Option Float) :
    call "list" "slice" [.list items, .number start, bound stop] =
      .ok (.list (Call.slice items start stop)) := by
  cases stop <;> rfl

/-- The characters of a string are given if there are not too many. -/
theorem of_call_chars {s : String} {chars : Value}
    (h : call "string" "chars" [.string s] = .ok chars) :
    chars = .ofChars s.toList ∧ slot + 4 * s.length ≤ maxBytes := by
  have hcall : call "string" "chars" [.string s] =
      ((Footprint.chars s.toList.length).check "string.chars" >>= fun _ =>
        .ok (.ofChars s.toList)) :=
    rfl
  rw [hcall] at h
  obtain ⟨f, hcheck, hchars⟩ := Except.bind_eq_ok.mp h
  refine ⟨(Except.ok.inj hchars).symm, ?_⟩
  have hword : maxBytes < Double.maxWord := by decide
  have hbytes := (Footprint.check_eq_ok hcheck).2.1
  simp only [Footprint.chars, saturate, String.length_toList] at hbytes
  simp only [slot] at *
  omega

/-- Pieces with nothing between them. -/
theorem intercalate_nil_left {α : Type} (pieces : List (List α)) :
    List.intercalate [] pieces = pieces.flatten := by
  induction pieces with
  | nil => rfl
  | cons piece pieces ih =>
    cases pieces with
    | nil => simp
    | cons next pieces =>
      rw [List.intercalate_cons_cons, ih, List.append_nil]
      rfl

/-- The characters of a string, put together again. -/
theorem intercalate_display_chars (cs : List Char) :
    "".intercalate ((cs.map fun c => Value.string c.toString).map Value.display) =
      String.ofList cs := by
  have hdisplay (c : Char) : (Value.string c.toString).display.toList = [c] := by
    show ("" ++ c.toString).toList = [c]
    rw [String.empty_append, Char.toString_eq_singleton, String.toList_singleton]
  apply String.toList_injective
  simp only [String.toList_intercalate, List.map_map, Function.comp_def, hdisplay]
  exact (intercalate_nil_left _).trans (by rw [← List.flatMap_def, List.flatMap_singleton',
    String.toList_ofList])

/-- **Characters that are joined** make up a string that is not too large, if there are not more than of
a string whose characters are given. -/
theorem call_join_chars (cs : List Char) (h : slot + 4 * cs.length ≤ maxBytes) :
    call "list" "join" [.ofChars cs, .string ""] = .ok (text cs) := by
  have hsize : (String.ofList cs).utf8ByteSize ≤ 4 * cs.length := by
    rw [String.utf8ByteSize_ofList]
    exact Text.utf8Len_le cs
  rw [Value.ofChars, call_join, intercalate_display_chars, capped_of_le (by omega)]
  rfl

/-! ## Both laws -/

/-- **Slices agree, and cut in two.** A string whose characters are given has the slice that the list of
its characters has, put together again, whatever the bounds are, and also if the end is left open. A list
or a string is its slice from the start up to any bound and the slice from that bound to the end. -/
theorem slices_agree_and_partition :
    (∀ (s : String) (start : Float) (stop : Option Float) (chars : Value),
      call "string" "chars" [.string s] = .ok chars →
        ∃ items part,
          call "list" "slice" [chars, .number start, bound stop] = .ok (.list items) ∧
          call "list" "join" [.list items, .string ""] = .ok (.string part) ∧
          call "string" "slice" [.string s, .number start, bound stop] = .ok (.string part)) ∧
    (∀ (items : List Value) (k : Float), ∃ front back,
      call "list" "slice" [.list items, .number 0.0, .number k] = .ok (.list front) ∧
        call "list" "slice" [.list items, .number k] = .ok (.list back) ∧
        call "list" "slice" [.list items, .number k, .nil] = .ok (.list back) ∧
        front ++ back = items) ∧
    ∀ (s : String) (k : Float), ∃ front back,
      call "string" "slice" [.string s, .number 0.0, .number k] = .ok (.string front) ∧
        call "string" "slice" [.string s, .number k] = .ok (.string back) ∧
        call "string" "slice" [.string s, .number k, .nil] = .ok (.string back) ∧
        front ++ back = s := by
  refine ⟨fun s start stop chars h => ?_, fun items k => ?_, fun s k => ?_⟩
  · obtain ⟨rfl, hsize⟩ := of_call_chars h
    have hlength := Call.length_slice_le s.toList start stop
    rw [String.length_toList] at hlength
    refine ⟨_, _, ?_, call_join_chars (Call.slice s.toList start stop) (by omega),
      call_slice_string s start stop⟩
    rw [Value.ofChars, call_slice_list, Call.slice_map]
  · exact ⟨_, _, call_slice_list items 0.0 (some k), call_slice_list items k none,
      call_slice_list items k none, Call.slice_append_slice items k⟩
  · refine ⟨_, _, call_slice_string s 0.0 (some k), call_slice_string s k none,
      call_slice_string s k none, ?_⟩
    rw [← String.ofList_append, Call.slice_append_slice, String.ofList_toList]

/-- The last characters of a text in which a character takes two bytes, up to a bound beyond the end. -/
theorem slices_agree_and_partition_last :
    let chars := Value.ofChars ['h', 'é', 'l', 'l', 'o']
    call "string" "chars" [.string "héllo"] = .ok chars ∧
      ∃ items part,
        call "list" "slice" [chars, .number (-3.5), bound (some 9.0)] = .ok (.list items) ∧
        call "list" "join" [.list items, .string ""] = .ok (.string part) ∧
        call "string" "slice" [.string "héllo", .number (-3.5), bound (some 9.0)] =
          .ok (.string part) :=
  have hchars : call "string" "chars" [.string "héllo"] =
      .ok (.ofChars ['h', 'é', 'l', 'l', 'o']) := rfl
  ⟨hchars, slices_agree_and_partition.1 "héllo" (-3.5) (some 9.0) _ hchars⟩

end Builtin

end ParseActions
