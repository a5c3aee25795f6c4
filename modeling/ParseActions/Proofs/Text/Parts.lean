import Mathlib.Data.String.Basic
import ParseActions.Text.Basic

/-!
# Parts of a text

Parts that are put together with a mark between them can be told apart again when one of them does not
contain the mark: then it ends at the first mark, or begins after the last. The digits of a number
contain no mark that is not a digit, and they decide the number.

A text is its pieces between the occurrences of a pattern, with the pattern between them; with another
text between them it is the text after a replacement. So the size of the latter is known before it is
built, from the number of occurrences alone: each takes away the size of the pattern and adds that of
the replacement.

## Main results

* `Text.append_cons_inj_first`, `Text.append_cons_inj_last`: parts around the first or the last mark
* `Text.toDigits_inj`: a number is decided by its digits
* `Text.append_number_inj`: a number behind an underscore
* `Text.intercalate_splitAt`: the pieces of a text, put together again
* `Text.utf8Len_intercalate`: the size of pieces with a text between them
* `Text.utf8Len_replaceAll`: the size of a text after a replacement
-/

namespace ParseActions.Text

/-! ## Parts around a mark -/

section Marks

variable {α : Type} {a : α} {xs xs' ys ys' : List α} {j k : Nat}

/-- What stands before the first mark and what stands after it are decided by the whole. -/
theorem append_cons_inj_first (hxs : a ∉ xs) (hxs' : a ∉ xs')
    (h : xs ++ a :: ys = xs' ++ a :: ys') : xs = xs' ∧ ys = ys' := by
  rcases List.append_eq_append_iff.mp h with ⟨more, rfl, hrest⟩ | ⟨more, rfl, hrest⟩
  · cases more with
    | nil => exact ⟨by simp, (List.cons.inj hrest).2⟩
    | cons b more =>
      obtain ⟨rfl, -⟩ := List.cons.inj hrest
      exact absurd (by simp) hxs'
  · cases more with
    | nil => exact ⟨by simp, (List.cons.inj hrest).2.symm⟩
    | cons b more =>
      obtain ⟨rfl, -⟩ := List.cons.inj hrest
      exact absurd (by simp) hxs

/-- So are what stands before the last mark and what stands after it. -/
theorem append_cons_inj_last (hys : a ∉ ys) (hys' : a ∉ ys')
    (h : xs ++ a :: ys = xs' ++ a :: ys') : xs = xs' ∧ ys = ys' := by
  -- the last mark is the first one from behind
  have hreverse : ys.reverse ++ a :: xs.reverse = ys'.reverse ++ a :: xs'.reverse := by
    simpa using congrArg List.reverse h
  obtain ⟨hafter, hbefore⟩ := append_cons_inj_first (mt List.mem_reverse.mp hys)
    (mt List.mem_reverse.mp hys') hreverse
  exact ⟨List.reverse_inj.mp hbefore, List.reverse_inj.mp hafter⟩

/-- A number is decided by its digits. -/
theorem toDigits_inj (h : Nat.toDigits 10 j = Nat.toDigits 10 k) : j = k := by
  rw [← Nat.ofDigitChars_ten_toDigits (n := j), h, Nat.ofDigitChars_ten_toDigits]

/-- A number behind an underscore, and what stands before it, are decided by the whole. -/
theorem append_number_inj {cs cs' : List Char}
    (h : cs ++ '_' :: Nat.toDigits 10 j = cs' ++ '_' :: Nat.toDigits 10 k) : cs = cs' ∧ j = k := by
  obtain ⟨hbefore, hdigits⟩ := append_cons_inj_last (by simp) (by simp) h
  exact ⟨hbefore, toDigits_inj hdigits⟩

end Marks

open String (utf8Len utf8Len_nil utf8Len_cons utf8Len_append)

variable {pattern : List Char}

/-! ## Pieces put together again -/

/-- Two pieces at the end may be put together first. -/
theorem intercalate_append_pair {α : Type} (between : List α) (pieces : List (List α))
    (left right : List α) :
    between.intercalate (pieces ++ [left, right]) =
      between.intercalate (pieces ++ [left ++ between ++ right]) := by
  induction pieces with
  | nil => rw [List.nil_append, List.nil_append, List.intercalate_cons_cons,
      List.intercalate_singleton, List.intercalate_singleton]
  | cons piece pieces ih =>
    rw [List.cons_append, List.cons_append, List.intercalate_cons_of_ne_nil (by simp),
      List.intercalate_cons_of_ne_nil (by simp), ih]

/-- What is left of a text belongs to the current piece, whatever pieces there will be. The characters
that are skipped belong to an occurrence before it. -/
theorem intercalate_piecesFrom (hne : pattern ≠ []) {skip : Nat} {done : List (List Char)}
    {piece text : List Char} (hskip : skip ≤ text.length) :
    pattern.intercalate (piecesFrom pattern skip done piece text) =
      pattern.intercalate (done.reverse ++ [piece.reverse ++ text.drop skip]) := by
  induction text generalizing skip done piece with
  | nil => rw [piecesFrom, List.reverse_cons, List.drop_nil, List.append_nil]
  | cons c rest ih =>
    cases skip with
    | succ skip => rw [piecesFrom, List.drop_succ_cons, ih (Nat.le_of_succ_le_succ hskip)]
    | zero =>
      rw [piecesFrom]
      by_cases hfound : pattern.isPrefixOf (c :: rest) = true
      · -- the rest of the occurrence is skipped: put back, it is what stands between the pieces
        have hprefix := List.isPrefixOf_iff_prefix.mp hfound
        have htext := List.prefix_iff_eq_append.mp hprefix
        obtain ⟨d, more, rfl⟩ := List.exists_cons_of_ne_nil hne
        have hlength : more.length ≤ rest.length := Nat.le_of_succ_le_succ hprefix.length_le
        rw [if_pos hfound, List.length_cons, Nat.add_sub_cancel, ih hlength, List.reverse_cons,
          List.append_assoc, List.singleton_append, intercalate_append_pair, List.drop_zero,
          List.append_assoc, List.reverse_nil, List.nil_append]
        rw [List.length_cons, List.drop_succ_cons] at htext
        rw [htext]
      · rw [if_neg hfound, ih (Nat.zero_le _), List.reverse_cons, List.append_assoc,
          List.singleton_append, List.drop_zero, List.drop_zero]

/-- **A text is its pieces** with the pattern between them. -/
theorem intercalate_splitAt (hne : pattern ≠ []) (text : List Char) :
    pattern.intercalate (splitAt pattern text) = text := by
  rw [splitAt, intercalate_piecesFrom hne (Nat.zero_le _), List.reverse_nil, List.nil_append,
    List.intercalate_singleton, List.reverse_nil, List.nil_append, List.drop_zero]

/-! ## Sizes -/

theorem utf8Len_le (cs : List Char) : utf8Len cs ≤ 4 * cs.length := by
  induction cs with
  | nil => exact Nat.le_refl 0
  | cons c cs ih =>
    have hchar := c.utf8Size_le_four
    rw [utf8Len_cons, List.length_cons]
    omega

/-- **The size of pieces with a text between them**, which stands once less than there are pieces. -/
theorem utf8Len_intercalate (between : List Char) (pieces : List (List Char)) :
    utf8Len (between.intercalate pieces) =
      utf8Len pieces.flatten + (pieces.length - 1) * utf8Len between := by
  induction pieces with
  | nil => simp
  | cons piece pieces ih =>
    cases pieces with
    | nil => simp
    | cons next pieces =>
      have hflat : utf8Len (piece :: next :: pieces).flatten =
          utf8Len piece + utf8Len (next :: pieces).flatten :=
        utf8Len_append piece (next :: pieces).flatten
      rw [List.length_cons, Nat.add_sub_cancel] at ih
      rw [List.intercalate_cons_cons, utf8Len_append, utf8Len_append, ih, hflat, List.length_cons,
        List.length_cons, Nat.add_sub_cancel, Nat.succ_mul]
      omega

/-- A text before each character adds its size for each of them. -/
theorem utf8Len_flatMap_cons (replacement text : List Char) :
    utf8Len (text.flatMap fun c => c :: replacement) =
      utf8Len text + text.length * utf8Len replacement := by
  induction text with
  | nil => simp
  | cons c text ih =>
    rw [List.flatMap_cons, utf8Len_append, ih, utf8Len_cons, utf8Len_cons, List.length_cons,
      Nat.succ_mul]
    omega

/-- **The size of a text after a replacement**: each occurrence of the pattern gives way to the
replacement. -/
theorem utf8Len_replaceAll (pattern replacement text : List Char) :
    utf8Len (replaceAll pattern replacement text) + occurrences pattern text * utf8Len pattern =
      utf8Len text + occurrences pattern text * utf8Len replacement := by
  rw [replaceAll, occurrences]
  by_cases hempty : pattern.isEmpty = true
  · rw [if_pos hempty, if_pos hempty, List.isEmpty_iff.mp hempty, utf8Len_nil, Nat.mul_zero,
      Nat.add_zero, utf8Len_append, utf8Len_flatMap_cons, Nat.succ_mul]
    omega
  · -- the text itself has the pattern between its pieces
    have hsize := utf8Len_intercalate pattern (splitAt pattern text)
    rw [intercalate_splitAt (mt List.isEmpty_iff.mpr hempty)] at hsize
    rw [if_neg hempty, if_neg hempty, utf8Len_intercalate, hsize]
    omega

/-- The occurrences of a pattern are parts of the text that do not overlap. -/
theorem occurrences_mul_utf8Len_le (pattern text : List Char) :
    occurrences pattern text * utf8Len pattern ≤ utf8Len text := by
  -- without anything in their place the text is shorter by their size
  have hsize := utf8Len_replaceAll pattern [] text
  rw [utf8Len_nil, Nat.mul_zero, Nat.add_zero] at hsize
  omega

end ParseActions.Text
