import Mathlib.Data.String.Basic
import ParseActions.Proofs.Text.Slices
import ParseActions.Text.Source

/-!
# Lines and places

The lines of a text are its pieces between newlines. They are found by byte offsets, while places are
counted character by character; the two agree. A place that is reached by reading from the first
character has a line that is found, and stands on a character of that line or after the last one.

## Main definitions

* `SourceText.pieces`: the pieces of a text between its newlines
* `SourceText.HasPlace`: a line of a text and a column on it
* `SourceText.Stands`: a line and a column where a rest of the text starts

## Main results

* `SourceText.line?_succ`, `SourceText.lineCount_eq`: lines by their byte offsets
* `SourceText.Stands.newline`, `SourceText.Stands.char`: reading a character
* `SourceText.Stands.hasPlace`: where a rest of the text starts, there is a place
-/

namespace ParseActions

namespace Text

variable {xs ys : List Char}

theorem dropBytes?_utf8Len (xs ys : List Char) :
    dropBytes? (String.utf8Len xs) (xs ++ ys) = some ys := by
  induction xs with
  | nil => exact dropBytes?_zero
  | cons c xs ih =>
    rw [String.utf8Len_cons, List.cons_append, dropBytes?_cons c (Nat.le_add_left _ _),
      Nat.add_sub_cancel, ih]

theorem takeBytes?_utf8Len (xs ys : List Char) :
    takeBytes? (String.utf8Len xs) (xs ++ ys) = some xs := by
  induction xs with
  | nil => exact takeBytes?_zero
  | cons c xs ih =>
    rw [String.utf8Len_cons, List.cons_append, takeBytes?_cons c (Nat.le_add_left _ _),
      Nat.add_sub_cancel, ih, Option.map_some]

/-- The characters from a boundary on are a slice. -/
theorem slice?_utf8Len {cs : List Char} {start : Nat} (h : dropBytes? start cs = some (xs ++ ys)) :
    slice? cs start (start + String.utf8Len xs) = some xs := by
  rw [slice?, if_pos (Nat.le_add_right _ _), h, Nat.add_sub_cancel_left, Option.bind_some,
    takeBytes?_utf8Len]

end Text

namespace SourceText

/-! ## Pieces between newlines -/

/-- The pieces of a text between its newlines; there is always at least one. -/
def splitLines : List Char → List (List Char)
  | [] => [[]]
  | c :: rest =>
    if c = '\n' then [] :: splitLines rest
    else
      match splitLines rest with
      | [] => [[c]]
      | piece :: pieces => (c :: piece) :: pieces

/-- The pieces of the text between newlines. -/
def pieces (source : SourceText) : List (List Char) :=
  splitLines source.text.toList

theorem splitLines_newline (rest : List Char) : splitLines ('\n' :: rest) = [] :: splitLines rest := by
  rw [splitLines, if_pos rfl]

theorem exists_splitLines (cs : List Char) : ∃ first more, splitLines cs = first :: more := by
  refine List.exists_cons_of_ne_nil ?_
  cases cs with
  | nil => exact List.cons_ne_nil _ _
  | cons c rest =>
    rw [splitLines]
    split
    · exact List.cons_ne_nil _ _
    · split <;> exact List.cons_ne_nil _ _

theorem splitLines_char {c : Char} {rest first : List Char} {more : List (List Char)} (hc : c ≠ '\n')
    (h : splitLines rest = first :: more) : splitLines (c :: rest) = (c :: first) :: more := by
  rw [splitLines, if_neg hc, h]

/-- A text is a single piece, or it starts with a piece that a newline ends. -/
theorem splitLines_cases (cs : List Char) :
    splitLines cs = [cs] ∧ '\n' ∉ cs ∨
      ∃ first rest, cs = first ++ '\n' :: rest ∧ splitLines cs = first :: splitLines rest ∧
        '\n' ∉ first := by
  induction cs with
  | nil => exact .inl ⟨rfl, List.not_mem_nil⟩
  | cons c cs ih =>
    by_cases hc : c = '\n'
    · subst hc
      exact .inr ⟨[], cs, rfl, splitLines_newline cs, List.not_mem_nil⟩
    · have hmem : ∀ {piece : List Char}, '\n' ∉ piece → '\n' ∉ c :: piece := fun hpiece hin =>
        (List.mem_cons.mp hin).elim (fun h => hc h.symm) hpiece
      rcases ih with ⟨hsplit, hcs⟩ | ⟨first, rest, rfl, hsplit, hfirst⟩
      · exact .inl ⟨splitLines_char hc hsplit, hmem hcs⟩
      · exact .inr ⟨c :: first, rest, rfl, splitLines_char hc hsplit, hmem hfirst⟩

/-! ## Byte offsets of lines -/

theorem startsAfter_of_not_mem {cs : List Char} (h : '\n' ∉ cs) (start : Nat) :
    startsAfter start cs = [] := by
  induction cs generalizing start with
  | nil => rfl
  | cons c cs ih =>
    obtain ⟨hc, hcs⟩ := List.ne_and_not_mem_of_not_mem_cons h
    rw [startsAfter, if_neg (Ne.symm hc), ih hcs]

theorem startsAfter_append {first : List Char} (h : '\n' ∉ first) (start : Nat) (rest : List Char) :
    startsAfter start (first ++ '\n' :: rest) =
      (start + String.utf8Len first + 1) :: startsAfter (start + String.utf8Len first + 1) rest := by
  induction first generalizing start with
  | nil => rfl
  | cons c first ih =>
    obtain ⟨hc, hfirst⟩ := List.ne_and_not_mem_of_not_mem_cons h
    rw [List.cons_append, startsAfter, if_neg (Ne.symm hc), ih hfirst, String.utf8Len_cons,
      Nat.add_assoc start, Nat.add_comm c.utf8Size]

/-- A piece is the slice from where it starts to the newline before the next one, or to the end. -/
theorem slice?_of_startsAfter {all cs : List Char} {start : Nat} (n : Nat)
    (h : Text.dropBytes? start all = some cs) :
    let starts := start :: startsAfter start cs
    (starts[n]?.bind fun first =>
      Text.slice? all first (starts[n + 1]?.elim (start + String.utf8Len cs) (· - 1))) =
      (splitLines cs)[n]? := by
  intro starts
  -- the first line is found at once; the text after it has one line less
  induction n generalizing start cs with
  | zero =>
    rcases splitLines_cases cs with ⟨hsplit, hcs⟩ | ⟨first, rest, rfl, hsplit, hfirst⟩
    · rw [show starts = [start] from congrArg _ (startsAfter_of_not_mem hcs start), hsplit]
      exact Text.slice?_utf8Len (by rwa [List.append_nil])
    · rw [show starts = _ from congrArg _ (startsAfter_append hfirst start rest), hsplit]
      exact Text.slice?_utf8Len h
  | succ n ih =>
    rcases splitLines_cases cs with ⟨hsplit, hcs⟩ | ⟨first, rest, rfl, hsplit, hfirst⟩
    · rw [show starts = [start] from congrArg _ (startsAfter_of_not_mem hcs start), hsplit]
      rfl
    · have hline : String.utf8Len (first ++ ['\n']) = String.utf8Len first + 1 :=
        String.utf8Len_append first ['\n']
      have hrest : Text.dropBytes? (start + String.utf8Len first + 1) all = some rest := by
        rw [Nat.add_assoc, Text.dropBytes?_add h, List.append_cons, ← hline]
        exact Text.dropBytes?_utf8Len _ rest
      have hlength : start + String.utf8Len (first ++ '\n' :: rest) =
          start + String.utf8Len first + 1 + String.utf8Len rest := by
        rw [List.append_cons, String.utf8Len_append, hline]
        omega
      rw [show starts = _ from congrArg _ (startsAfter_append hfirst start rest), hsplit, hlength]
      exact ih hrest

/-- The number of lines is that of the pieces. -/
theorem length_startsAfter (start : Nat) (cs : List Char) :
    (startsAfter start cs).length + 1 = (splitLines cs).length := by
  induction cs generalizing start with
  | nil => rfl
  | cons c cs ih =>
    rw [startsAfter]
    by_cases hc : c = '\n'
    · subst hc
      rw [if_pos rfl, splitLines_newline, List.length_cons, ih, List.length_cons]
    · obtain ⟨first, more, hsplit⟩ := exists_splitLines cs
      rw [if_neg hc, ih, hsplit, splitLines_char hc hsplit]
      rfl

variable {source : SourceText}

theorem lineCount_eq : source.lineCount = source.pieces.length :=
  length_startsAfter 0 _

/-- **Lines are found by byte offsets**: the slice of a line is its piece, and no slice is taken inside
a character. -/
theorem line?_succ (n : Nat) :
    source.line? (n + 1) = source.pieces[n]?.map fun piece => String.ofList (dropReturns piece) := by
  have hsize : source.text.utf8ByteSize = 0 + String.utf8Len source.text.toList := by
    rw [Nat.zero_add, String.utf8Len_toList]
  have hslice := slice?_of_startsAfter n (Text.dropBytes?_zero : _ = some source.text.toList)
  rw [pieces, ← hslice, ← hsize, line?, lineStarts, Option.map_bind]
  simp only [Function.comp_def, Option.map_eq_bind]
  rfl

/-! ## Places -/

/-- A line of the text, from one, and a column on it, from one up to the place after its last
character. A carriage return is a character of its line. -/
structure HasPlace (source : SourceText) (place : Nat × Nat) : Prop where
  line_pos : 1 ≤ place.1
  line_le : place.1 ≤ source.lineCount
  column_pos : 1 ≤ place.2
  column_le : ∃ piece, source.pieces[place.1 - 1]? = some piece ∧ place.2 ≤ piece.length + 1

theorem HasPlace.line? {place : Nat × Nat} (h : source.HasPlace place) :
    ∃ line, source.line? place.1 = some line := by
  obtain ⟨piece, hpiece, -⟩ := h.column_le
  obtain ⟨n, hn⟩ := Nat.exists_eq_add_one.mpr h.line_pos
  rw [hn, Nat.add_sub_cancel] at hpiece
  exact ⟨_, by rw [hn, line?_succ, hpiece, Option.map_some]⟩

/-- The rest of the text starts at a line and a column: some lines come before, and as many characters
of its own line as there are columns before. -/
def Stands (source : SourceText) (line column : Nat) (rest : List Char) : Prop :=
  ∃ (lines : List (List Char)) (before after : List Char) (more : List (List Char)),
    source.pieces = lines ++ (before ++ after) :: more ∧ splitLines rest = after :: more ∧
      line = lines.length + 1 ∧ column = before.length + 1

variable {line column : Nat} {c : Char} {rest : List Char}

theorem stands_start (source : SourceText) : source.Stands 1 1 source.text.toList := by
  obtain ⟨first, more, hsplit⟩ := exists_splitLines source.text.toList
  exact ⟨[], [], first, more, hsplit, hsplit, rfl, rfl⟩

/-- After a newline the next line starts. -/
theorem Stands.newline (h : source.Stands line column ('\n' :: rest)) :
    source.Stands (line + 1) 1 rest := by
  obtain ⟨lines, before, after, more, hpieces, hsplit, rfl, rfl⟩ := h
  obtain ⟨first, others, hrest⟩ := exists_splitLines rest
  rw [splitLines_newline, List.cons.injEq, hrest] at hsplit
  obtain ⟨rfl, rfl⟩ := hsplit
  refine ⟨lines ++ [before], [], first, others, ?_, hrest, ?_, rfl⟩
  · rw [hpieces, List.append_nil, List.append_assoc]
    rfl
  · rw [List.length_append, List.length_singleton]

/-- Another character is one more of its line. -/
theorem Stands.char (h : source.Stands line column (c :: rest)) (hc : c ≠ '\n') :
    source.Stands line (column + 1) rest := by
  obtain ⟨lines, before, after, more, hpieces, hsplit, rfl, rfl⟩ := h
  obtain ⟨first, others, hrest⟩ := exists_splitLines rest
  rw [splitLines_char hc hrest, List.cons.injEq] at hsplit
  obtain ⟨rfl, rfl⟩ := hsplit
  refine ⟨lines, before ++ [c], first, others, ?_, hrest, rfl, ?_⟩
  · rw [hpieces, List.append_assoc]
    rfl
  · rw [List.length_append, List.length_singleton]

/-- **Where a rest of the text starts, there is a place.** -/
theorem Stands.hasPlace (h : source.Stands line column rest) : source.HasPlace (line, column) := by
  obtain ⟨lines, before, after, more, hpieces, -, rfl, rfl⟩ := h
  refine ⟨Nat.le_add_left _ _, ?_, Nat.le_add_left _ _, before ++ after, ?_, ?_⟩
  · rw [lineCount_eq, hpieces, List.length_append, List.length_cons]
    exact Nat.add_le_add_left (Nat.le_add_left _ _) _
  · rw [hpieces, Nat.add_sub_cancel, List.getElem?_append_right (Nat.le_refl _), Nat.sub_self]
    rfl
  · rw [List.length_append]
    exact Nat.add_le_add_right (Nat.le_add_right _ _) 1

theorem hasPlace_start (source : SourceText) : source.HasPlace (1, 1) :=
  (stands_start source).hasPlace

end SourceText

end ParseActions
