import ParseActions.Proofs.Eval.Sizes
import ParseActions.Proofs.Text.Parts

/-!
# Sizes that are foretold

A builtin that may make a long string out of short ones finds its size first, and builds it only if it
keeps the bound on values. The sizes are found in three ways: a replacement counts the occurrences of the
pattern, a repetition multiplies, and joining adds up parts as it goes. All three are the size of the
string that is built, so what is refused is just what would be too large. Sums and products that stop at
the greatest word are beyond the bound in any case.

## Main definitions

* `Builtin.capped`: a string, unless it is too large for a value

## Main results

* `Builtin.replacedSize_eq`: the size that is foretold of a replacement
* `Builtin.capped_bind_join`: joining, with a check for each part
* `Builtin.call_eq_capped`: replacements, repetitions and joined items are built unless too large
-/

namespace ParseActions.Builtin

open Footprint (maxBytes slot saturate)

/-- A string, unless its footprint is beyond the bound: the bytes of any value, and those of its text. -/
def capped (what text : String) : Except EvalError String :=
  if maxBytes < slot + text.utf8ByteSize then .error (.limitExceeded (.value what .bytes))
  else .ok text

variable {what text : String}

theorem capped_of_lt (h : maxBytes < slot + text.utf8ByteSize) :
    capped what text = .error (.limitExceeded (.value what .bytes)) :=
  if_pos h

theorem capped_of_le (h : slot + text.utf8ByteSize ≤ maxBytes) : capped what text = .ok text :=
  if_neg (Nat.not_lt.mpr h)

/-! ## The check of a size -/

/-- A string has no nesting, so only its bytes are checked. -/
theorem check_string (what : String) (size : Nat) :
    (Footprint.string size).check what =
      if maxBytes < slot + size then .error (.limitExceeded (.value what .bytes))
      else .ok (Footprint.string size) := by
  have hbytes : maxBytes < (Footprint.string size).bytes ↔ maxBytes < slot + size := by
    rw [← Nat.not_le, Footprint.bytes_string_le_iff, Nat.not_le]
  rw [Footprint.check, Footprint.excess?]
  by_cases hlarge : maxBytes < slot + size
  · rw [if_pos (hbytes.mpr hlarge), if_pos hlarge]
  · rw [if_neg (mt hbytes.mp hlarge), if_neg hlarge]
    rfl

/-- A string that is checked by its size is built unless it is too large. -/
theorem check_bind_eq_capped {size : Nat} (h : size = saturate text.utf8ByteSize) :
    ((Footprint.string size).check what >>= fun _ => .ok (.string text)) =
      Value.string <$> capped what text := by
  have hword : maxBytes < Double.maxWord := by decide
  have hsame : maxBytes < slot + size ↔ maxBytes < slot + text.utf8ByteSize := by
    rw [h, saturate]
    omega
  rw [check_string]
  by_cases hlarge : maxBytes < slot + text.utf8ByteSize
  · rw [if_pos (hsame.mpr hlarge), capped_of_lt hlarge]
    rfl
  · rw [if_neg (mt hsame.mp hlarge), capped_of_le (Nat.not_lt.mp hlarge)]
    rfl

/-! ## Replacements -/

/-- Taking away the occurrences of a pattern leaves no less than nothing. -/
theorem occurrences_mul_size_le (s pattern : String) :
    Text.occurrences pattern.toList s.toList * pattern.utf8ByteSize ≤ s.utf8ByteSize := by
  rw [← String.utf8Len_toList s, ← String.utf8Len_toList pattern]
  exact Text.occurrences_mul_utf8Len_le pattern.toList s.toList

/-- **The size that is foretold** of a text after a replacement is its size, up to the greatest word. -/
theorem replacedSize_eq (s pattern replacement : String) :
    replacedSize s.utf8ByteSize (Text.occurrences pattern.toList s.toList) pattern.utf8ByteSize
        replacement.utf8ByteSize =
      saturate (String.ofList
        (Text.replaceAll pattern.toList replacement.toList s.toList)).utf8ByteSize := by
  have hsize := Text.utf8Len_replaceAll pattern.toList replacement.toList s.toList
  have hle := Text.occurrences_mul_utf8Len_le pattern.toList s.toList
  rw [replacedSize, ← String.utf8Len_toList s, ← String.utf8Len_toList pattern,
    ← String.utf8Len_toList replacement, String.utf8ByteSize_ofList]
  simp only [saturate]
  omega

theorem call_replace (s pattern replacement : String) :
    call "string" "replace" [.string s, .string pattern, .string replacement] =
      Value.string <$> capped "string.replace"
        (String.ofList (Text.replaceAll pattern.toList replacement.toList s.toList)) :=
  check_bind_eq_capped (replacedSize_eq s pattern replacement)

/-! ## Repetitions -/

theorem repeated_eq_join (s : String) (times : Nat) :
    repeated s times = String.join (List.replicate times s) := by
  apply String.toList_injective
  induction times with
  | zero => rfl
  | succ times ih =>
    have hstep : repeated s (times + 1) = repeated s times ++ s := rfl
    rw [hstep, String.toList_append, ih, String.toList_join, String.toList_join,
      List.replicate_succ', List.flatMap_append, List.flatMap_singleton]

theorem call_repeat (s : String) (count : Float) :
    call "string" "repeat" [.string s, .number count] =
      if 0.0 ≤ count ∧ count ≤ Float.ofNat maxBytes then
        Value.string <$> capped "string.repeat"
          (String.join (List.replicate (Double.toWord count) s))
      else .error (.misuse (.repeatCount count)) := by
  have hsize : saturate (s.utf8ByteSize * Double.toWord count) =
      saturate (repeated s (Double.toWord count)).utf8ByteSize := by
    rw [utf8ByteSize_repeated, Nat.mul_comm]
  have hcall : call "string" "repeat" [.string s, .number count] =
      if (0.0 ≤ count && count ≤ Float.ofNat maxBytes) then
        (Footprint.string (saturate (s.utf8ByteSize * Double.toWord count))).check "string.repeat"
          >>= fun _ => .ok (.string (repeated s (Double.toWord count)))
      else .error (.misuse (.repeatCount count)) :=
    rfl
  simp only [Bool.and_eq_true, decide_eq_true_iff] at hcall
  rw [hcall, check_bind_eq_capped hsize, repeated_eq_join]

/-! ## Joined items -/

/-- What is put after a text does not make it smaller. -/
theorem utf8ByteSize_le_intercalate (separator out : String) (parts : List String) :
    out.utf8ByteSize ≤ (separator.intercalate (out :: parts)).utf8ByteSize := by
  cases parts with
  | nil => rw [String.intercalate_singleton]
  | cons part parts =>
    rw [String.intercalate_cons_cons, String.utf8ByteSize_append, String.utf8ByteSize_append]
    omega

/-- A part that is put after a text, with the separator before all parts but the first, is checked
together with the text. -/
theorem join_cons (separator out : String) (first : Bool) (item : Value) (items : List Value) :
    join separator out first (item :: items) =
      (capped "list.join" (out ++ (if first then "" else separator) ++ item.display) >>=
        fun next => join separator next false items) := by
  generalize hgap : (if first then "" else separator) = gap
  have hsize : (out ++ gap ++ item.display).utf8ByteSize =
      out.utf8ByteSize + gap.utf8ByteSize + item.display.utf8ByteSize := by
    rw [String.utf8ByteSize_append, String.utf8ByteSize_append]
  rw [join, hgap, check_string, ← hsize]
  by_cases hlarge : maxBytes < slot + (out ++ gap ++ item.display).utf8ByteSize
  · rw [if_pos hlarge, capped_of_lt hlarge]
    rfl
  · rw [if_neg hlarge, capped_of_le (Nat.not_lt.mp hlarge)]
    rfl

/-- **Joining** after a text: a part is refused just when all of them together are too large. -/
theorem capped_bind_join (separator out : String) (items : List Value) :
    (capped "list.join" out >>= fun out => join separator out false items) =
      capped "list.join" (separator.intercalate (out :: items.map Value.display)) := by
  induction items generalizing out with
  | nil =>
    rw [List.map_nil, String.intercalate_singleton]
    exact bind_pure _
  | cons item items ih =>
    have htext : separator.intercalate (out :: (item :: items).map Value.display) =
        separator.intercalate ((out ++ separator ++ item.display) :: items.map Value.display) := by
      rw [List.map_cons, String.intercalate_cons_cons, String.intercalate_cons_append]
    by_cases hlarge : maxBytes < slot + out.utf8ByteSize
    · -- what is put after the text only adds to it
      have hmore := utf8ByteSize_le_intercalate separator out ((item :: items).map Value.display)
      rw [capped_of_lt hlarge, capped_of_lt (by omega)]
      rfl
    · rw [htext, ← ih, capped_of_le (Nat.not_lt.mp hlarge)]
      exact join_cons separator out false item items

theorem call_join (items : List Value) (separator : String) :
    call "list" "join" [.list items, .string separator] =
      Value.string <$> capped "list.join" (separator.intercalate (items.map Value.display)) := by
  show Value.string <$> join separator "" true items = _
  apply congrArg (Value.string <$> ·)
  cases items with
  | nil => rw [join, List.map_nil, String.intercalate_nil, capped_of_le (by decide)]
  | cons item items =>
    rw [join_cons, if_pos rfl, String.append_empty, String.empty_append, List.map_cons]
    exact capped_bind_join separator item.display items

/-! ## All three -/

/-- **Strings are refused just when they are too large.** What a replacement, a repetition or joined
items give is the string that they stand for, unless its footprint, the bytes of a value and those of the
text, is beyond the bound. The size that is foretold of a replacement is that of the text, whatever the
pattern, and taking away the occurrences of the pattern leaves no less than nothing. -/
theorem call_eq_capped :
    (∀ s pattern replacement : String,
      let matched := Text.occurrences pattern.toList s.toList
      let replaced :=
        String.ofList (Text.replaceAll pattern.toList replacement.toList s.toList)
      matched * pattern.utf8ByteSize ≤ s.utf8ByteSize ∧
        replacedSize s.utf8ByteSize matched pattern.utf8ByteSize replacement.utf8ByteSize =
          saturate replaced.utf8ByteSize ∧
        call "string" "replace" [.string s, .string pattern, .string replacement] =
          Value.string <$> capped "string.replace" replaced) ∧
    (∀ (s : String) (count : Float),
      call "string" "repeat" [.string s, .number count] =
        if 0.0 ≤ count ∧ count ≤ Float.ofNat maxBytes then
          Value.string <$> capped "string.repeat"
            (String.join (List.replicate (Double.toWord count) s))
        else .error (.misuse (.repeatCount count))) ∧
    ∀ (items : List Value) (separator : String),
      call "list" "join" [.list items, .string separator] =
        Value.string <$> capped "list.join"
          (separator.intercalate (items.map Value.display)) := by
  refine ⟨fun s pattern replacement => ?_, call_repeat, call_join⟩
  exact ⟨occurrences_mul_size_le s pattern, replacedSize_eq s pattern replacement,
    call_replace s pattern replacement⟩

end ParseActions.Builtin
