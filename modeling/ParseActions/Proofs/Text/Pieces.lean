import Mathlib.Data.List.DropRight
import ParseActions.Proofs.Text.Lines

/-!
# Lines put together again

A text has one more line than newlines. A line is cut out between two byte offsets, and the carriage
returns at its end are dropped. Neither offset lies inside a character or past the end of the text, so
every line is found, and with newlines between them the lines of a text without carriage returns are the
text.

## Main definitions

* `SourceText.lines`: the lines in order
* `SourceText.extent?`: the byte offsets between which a line is cut out

## Main results

* `Text.isBoundary_iff_isValid`: the boundaries of a text are the valid positions of the string
* `SourceText.splitLines_eq_splitOn`, `SourceText.lineCount_eq_count`: pieces, and how many there are
* `SourceText.dropReturns_eq_iff`: a piece is its line and carriage returns
* `SourceText.mapM_line?`, `SourceText.intercalate_lines`: the lines read in turn, and put together again
* `SourceText.lines_split_text`: the lines of a text, where they are cut out, and what they make up
-/

namespace ParseActions

/-! ## Slices and valid positions -/

namespace Text

variable {cs xs ys : List Char} {n start stop : Nat}

/-- Bytes can be dropped where they are those of the first characters. -/
theorem dropBytes?_eq_some_iff :
    dropBytes? n cs = some ys ↔ ∃ xs, cs = xs ++ ys ∧ String.utf8Len xs = n := by
  constructor
  · intro h
    induction cs generalizing n with
    | nil =>
      cases n with
      | zero => exact ⟨[], Option.some.inj h, rfl⟩
      | succ n => cases h
    | cons c cs ih =>
      rcases dropBytes?_cons_eq_some h with ⟨rfl, rfl⟩ | ⟨hn, h⟩
      · exact ⟨[], rfl, rfl⟩
      · obtain ⟨xs, rfl, hxs⟩ := ih h
        exact ⟨c :: xs, rfl, by rw [String.utf8Len_cons, hxs, Nat.sub_add_cancel hn]⟩
  · rintro ⟨xs, rfl, rfl⟩
    exact dropBytes?_utf8Len xs ys

/-- **Boundaries are valid positions** of the string. -/
theorem isBoundary_iff_isValid {s : String} :
    IsBoundary s.toList n ↔ (String.Pos.Raw.mk n).IsValid s := by
  rw [IsBoundary, Option.isSome_iff_exists, String.Pos.Raw.isValid_iff_exists_append]
  constructor
  · rintro ⟨ys, h⟩
    obtain ⟨xs, hcs, rfl⟩ := dropBytes?_eq_some_iff.mp h
    refine ⟨String.ofList xs, String.ofList ys, ?_, ?_⟩
    · rw [← String.ofList_append, ← hcs, String.ofList_toList]
    · rw [String.Pos.Raw.ext_iff, String.byteIdx_rawEndPos, String.utf8ByteSize_ofList]
  · rintro ⟨s₁, s₂, rfl, h⟩
    obtain rfl : n = s₁.utf8ByteSize := congrArg String.Pos.Raw.byteIdx h
    exact ⟨s₂.toList, dropBytes?_eq_some_iff.mpr
      ⟨s₁.toList, String.toList_append, String.utf8Len_toList s₁⟩⟩

/-- A slice is taken between boundaries only. -/
theorem isBoundary_of_slice? (h : slice? cs start stop = some xs) :
    start ≤ stop ∧ IsBoundary cs start ∧ IsBoundary cs stop := by
  rw [slice?] at h
  split at h
  · next horder =>
    obtain ⟨rest, hrest, htake⟩ := Option.bind_eq_some_iff.mp h
    refine ⟨horder, Option.isSome_of_eq_some hrest, ?_⟩
    have hstop : IsBoundary rest (stop - start) :=
      takeBytes?_isSome.mp (Option.isSome_of_eq_some htake)
    rwa [IsBoundary, ← dropBytes?_add hrest, Nat.add_sub_cancel' horder] at hstop
  · cases h

end Text

namespace SourceText

/-! ## Pieces -/

/-- The pieces are what a list of characters is split into at newlines. -/
theorem splitLines_eq_splitOn (cs : List Char) : splitLines cs = cs.splitOn '\n' := by
  induction cs with
  | nil => rfl
  | cons c cs ih =>
    rw [List.splitOn_cons_eq_if_modifyHead, ← ih]
    by_cases hc : c = '\n'
    · subst hc
      exact splitLines_newline cs
    · obtain ⟨first, more, hsplit⟩ := exists_splitLines cs
      rw [if_neg (by simpa using hc), hsplit, splitLines_char hc hsplit]
      rfl

/-- Every character of a piece is one of the text. -/
theorem mem_of_mem_splitLines {cs piece : List Char} {c : Char} (hpiece : piece ∈ splitLines cs)
    (hc : c ∈ piece) : c ∈ cs := by
  induction cs generalizing piece with
  | nil =>
    obtain rfl := List.mem_singleton.mp hpiece
    exact hc
  | cons d cs ih =>
    by_cases hd : d = '\n'
    · subst hd
      rw [splitLines_newline] at hpiece
      rcases List.mem_cons.mp hpiece with rfl | hpiece
      · cases hc
      · exact List.mem_cons_of_mem _ (ih hpiece hc)
    · obtain ⟨first, more, hsplit⟩ := exists_splitLines cs
      rw [splitLines_char hd hsplit] at hpiece
      rw [hsplit] at ih
      rcases List.mem_cons.mp hpiece with rfl | hpiece
      · exact (List.mem_cons.mp hc).elim (fun h => h ▸ List.mem_cons_self)
          fun h => List.mem_cons_of_mem _ (ih List.mem_cons_self h)
      · exact List.mem_cons_of_mem _ (ih (List.mem_cons_of_mem _ hpiece) hc)

/-- A line starts after every newline. -/
theorem length_startsAfter_eq_count (start : Nat) (cs : List Char) :
    (startsAfter start cs).length = cs.count '\n' := by
  induction cs generalizing start with
  | nil => rfl
  | cons c cs ih =>
    rw [startsAfter, List.count_cons]
    by_cases hc : c = '\n'
    · rw [if_pos hc, if_pos (by simpa using hc), List.length_cons, ih]
    · rw [if_neg hc, if_neg (by simpa using hc), ih]
      rfl

variable {source : SourceText}

/-- **There is one more line than newlines.** -/
theorem lineCount_eq_count : source.lineCount = source.text.toList.count '\n' + 1 := by
  rw [lineCount, lineStarts, List.length_cons, length_startsAfter_eq_count]

/-! ## Carriage returns -/

variable {piece line : List Char}

theorem dropReturns_eq_rdropWhile : dropReturns piece = piece.rdropWhile (· == '\r') :=
  rfl

/-- What is left of a piece, and as many carriage returns as were dropped. -/
theorem exists_append_returns (piece : List Char) :
    ∃ k, piece = dropReturns piece ++ List.replicate k '\r' ∧
      (dropReturns piece).getLast? ≠ some '\r' := by
  -- the carriage returns go one by one from the end
  induction piece using List.reverseRecOn with
  | nil => exact ⟨0, rfl, nofun⟩
  | append_singleton piece c ih =>
    by_cases hc : c = '\r'
    · subst hc
      obtain ⟨k, hpiece, hlast⟩ := ih
      rw [dropReturns_eq_rdropWhile, List.rdropWhile_concat_pos _ _ _ rfl]
      refine ⟨k + 1, ?_, hlast⟩
      rw [List.replicate_succ', ← List.append_assoc, ← dropReturns_eq_rdropWhile, ← hpiece]
    · rw [dropReturns_eq_rdropWhile, List.rdropWhile_concat_neg _ _ _ (by simpa using hc)]
      exact ⟨0, (List.append_nil _).symm, by simpa using hc⟩

/-- **A piece is its line and carriage returns**, and no line ends in one. -/
theorem dropReturns_eq_iff :
    dropReturns piece = line ↔
      ∃ k, piece = line ++ List.replicate k '\r' ∧ line.getLast? ≠ some '\r' := by
  constructor
  · rintro rfl
    exact exists_append_returns piece
  · rintro ⟨k, rfl, hlast⟩
    rw [dropReturns_eq_rdropWhile]
    induction k with
    | zero =>
      rw [List.replicate_zero, List.append_nil, List.rdropWhile_eq_self_iff]
      intro hne hreturn
      exact hlast (by rw [List.getLast?_eq_some_getLast hne, beq_iff_eq.mp hreturn])
    | succ k ih =>
      rw [List.replicate_succ', ← List.append_assoc, List.rdropWhile_concat_pos _ _ _ rfl, ih]

/-- A piece without carriage returns is a line. -/
theorem dropReturns_of_not_mem (h : '\r' ∉ piece) : dropReturns piece = piece :=
  dropReturns_eq_iff.mpr ⟨0, (List.append_nil _).symm, fun hlast => h (List.mem_of_getLast? hlast)⟩

/-! ## Lines by their numbers -/

/-- The piece of a line ends in the carriage returns that are not part of it. -/
theorem line?_succ_eq_some_iff {n : Nat} {line : String} :
    source.line? (n + 1) = some line ↔
      ∃ k, (source.text.toList.splitOn '\n')[n]? = some (line.toList ++ List.replicate k '\r') ∧
        line.toList.getLast? ≠ some '\r' := by
  rw [line?_succ, pieces, splitLines_eq_splitOn, Option.map_eq_some_iff]
  constructor
  · rintro ⟨piece, hpiece, rfl⟩
    obtain ⟨k, hreturns, hlast⟩ := exists_append_returns piece
    exact ⟨k, by rw [String.toList_ofList, ← hreturns, hpiece], by rwa [String.toList_ofList]⟩
  · rintro ⟨k, hpiece, hlast⟩
    exact ⟨_, hpiece, by rw [dropReturns_eq_iff.mpr ⟨k, rfl, hlast⟩, String.ofList_toList]⟩

/-- Carriage returns are dropped at the end of a line only. -/
example : line? ⟨"Sum.value", "é\r\r\n日\r本\r"⟩ 1 = some "é" ∧
    line? ⟨"Sum.value", "é\r\r\n日\r本\r"⟩ 2 = some "日\r本" := by decide

/-- The lines in order. -/
def lines (source : SourceText) : List String :=
  source.pieces.map fun piece => String.ofList (dropReturns piece)

theorem line?_succ_eq_getElem? (n : Nat) : source.line? (n + 1) = source.lines[n]? := by
  rw [line?_succ, lines, List.getElem?_map]

theorem length_lines : source.lines.length = source.lineCount := by
  rw [lines, List.length_map, lineCount_eq]

/-- **There is a line for every number from one to their count**, and for no other. -/
theorem isSome_line?_iff {n : Nat} : (source.line? n).isSome ↔ 1 ≤ n ∧ n ≤ source.lineCount := by
  cases n with
  | zero => exact ⟨nofun, fun h => absurd h.1 (Nat.not_succ_le_zero 0)⟩
  | succ n =>
    rw [line?_succ_eq_getElem?, ← length_lines, isSome_getElem?, Nat.succ_le_iff]
    exact ⟨fun h => ⟨Nat.le_add_left _ _, h⟩, And.right⟩

/-- What is looked up by all numbers in turn, from the first one, is the list. -/
theorem mapM_range'_of_lookup {α : Type} {lookup : Nat → Option α} {as : List α} {first : Nat}
    (h : ∀ n, lookup (first + n) = as[n]?) : (List.range' first as.length).mapM lookup = some as := by
  induction as generalizing first with
  | nil => rfl
  | cons a as ih =>
    have hrest : (List.range' (first + 1) as.length).mapM lookup = some as :=
      ih fun n => by rw [Nat.add_assoc, Nat.add_comm 1, h, List.getElem?_cons_succ]
    have hfirst : lookup first = some a := h 0
    rw [List.length_cons, List.range'_succ, List.mapM_cons, hfirst, hrest]
    rfl

/-- Every line is found when they are read in turn. -/
theorem mapM_line? : (List.range' 1 source.lineCount).mapM source.line? = some source.lines := by
  rw [← length_lines]
  exact mapM_range'_of_lookup fun n => by rw [Nat.add_comm, line?_succ_eq_getElem?]

/-- **The lines put together again** are the text, when there are no carriage returns to drop. -/
theorem intercalate_lines (h : '\r' ∉ source.text.toList) :
    "\n".intercalate source.lines = source.text := by
  have hlines : source.lines.map String.toList = source.pieces := by
    rw [lines, List.map_map]
    refine (List.map_congr_left fun piece hpiece => ?_).trans (List.map_id _)
    rw [Function.comp_apply, String.toList_ofList]
    exact dropReturns_of_not_mem (mt (mem_of_mem_splitLines hpiece) h)
  -- nothing was dropped: the lines are what the text is split into
  rw [← String.toList_inj, String.toList_intercalate, hlines, pieces, splitLines_eq_splitOn]
  exact List.intercalate_splitOn '\n'

/-! ## Where a line is cut out -/

/-- The byte offsets between which the line of the given number is cut out: where it starts, and where
the newline before the next one stands or the text ends. -/
def extent? (source : SourceText) : Nat → Option (Nat × Nat)
  | 0 => none
  | n + 1 => source.lineStarts[n]?.map fun start =>
    (start, source.lineStarts[n + 1]?.elim source.text.utf8ByteSize (· - 1))

/-- A line is the slice of its extent, without the carriage returns at its end. -/
theorem line?_eq_slice? (n : Nat) :
    source.line? n = (source.extent? n).bind fun extent =>
      (Text.slice? source.text.toList extent.1 extent.2).map fun piece =>
        String.ofList (dropReturns piece) := by
  cases n with
  | zero => rfl
  | succ n =>
    rw [line?, extent?, Option.bind_map]
    simp only [Function.comp_def, Option.map_eq_bind]
    rfl

/-- The lines there are, and no others, are cut out. -/
theorem isSome_extent?_iff {n : Nat} : (source.extent? n).isSome ↔ (source.line? n).isSome := by
  cases n with
  | zero => exact Iff.rfl
  | succ n =>
    rw [extent?, Option.isSome_map, line?_succ_eq_getElem?, isSome_getElem?, isSome_getElem?,
      length_lines, lineCount]

/-- **No slice is taken out of range or inside a character.** -/
theorem slice?_of_extent? {n start stop : Nat} (h : source.extent? n = some (start, stop)) :
    start ≤ stop ∧ (String.Pos.Raw.mk start).IsValid source.text ∧
      (String.Pos.Raw.mk stop).IsValid source.text ∧
        source.line? n = (Text.slice? source.text.toList start stop).map fun piece =>
          String.ofList (dropReturns piece) := by
  have hline : source.line? n = _ := line?_eq_slice? n
  rw [h, Option.bind_some] at hline
  -- the line is found, so its slice is there, and its ends are where a slice can be taken
  have hsome : (source.line? n).isSome := isSome_extent?_iff.mp (Option.isSome_of_eq_some h)
  rw [hline, Option.isSome_map] at hsome
  obtain ⟨piece, hpiece⟩ := Option.isSome_iff_exists.mp hsome
  obtain ⟨horder, hstart, hstop⟩ := Text.isBoundary_of_slice? hpiece
  exact ⟨horder, Text.isBoundary_iff_isValid.mp hstart, Text.isBoundary_iff_isValid.mp hstop, hline⟩

/-- **The lines of a text.** They have the numbers from one to their count, which is one more than there
are newlines; each is its piece without the carriage returns at the end; and without carriage returns in
the text they make it up again. A line is cut out between two valid positions of the text. -/
theorem lines_split_text (source : SourceText) :
    (∀ n, (source.line? n).isSome ↔ 1 ≤ n ∧ n ≤ source.lineCount) ∧
      source.lineCount = source.text.toList.count '\n' + 1 ∧
      (∀ n line, source.line? (n + 1) = some line ↔
        ∃ k, (source.text.toList.splitOn '\n')[n]? = some (line.toList ++ List.replicate k '\r') ∧
          line.toList.getLast? ≠ some '\r') ∧
      ('\r' ∉ source.text.toList →
        ((List.range' 1 source.lineCount).mapM source.line?).map ("\n".intercalate ·) =
          some source.text) ∧
      ∀ n start stop, source.extent? n = some (start, stop) →
        start ≤ stop ∧ (String.Pos.Raw.mk start).IsValid source.text ∧
          (String.Pos.Raw.mk stop).IsValid source.text ∧
            source.line? n = (Text.slice? source.text.toList start stop).map fun piece =>
              String.ofList (dropReturns piece) := by
  refine ⟨fun n => isSome_line?_iff, lineCount_eq_count, fun n line => line?_succ_eq_some_iff,
    fun h => ?_, fun n start stop => slice?_of_extent?⟩
  rw [mapM_line?, Option.map_some, intercalate_lines h]

/-- Characters of several bytes, an empty line and a newline at the end. -/
theorem lines_split_text_accents :
    let source : SourceText := ⟨"Sum.value", "é\n\n日本\n"⟩
    '\r' ∉ source.text.toList ∧
      ((List.range' 1 source.lineCount).mapM source.line?).map ("\n".intercalate ·) =
        some source.text ∧
      source.extent? 3 = some (4, 10) ∧ (String.Pos.Raw.mk 4).IsValid source.text ∧
        (String.Pos.Raw.mk 10).IsValid source.text := by
  intro source
  have hreturn : '\r' ∉ source.text.toList := by decide
  have hextent : source.extent? 3 = some (4, 10) := by decide
  obtain ⟨-, -, -, hjoin, hcut⟩ := lines_split_text source
  obtain ⟨-, hstart, hstop, -⟩ := hcut 3 4 10 hextent
  exact ⟨hreturn, hjoin hreturn, hextent, hstart, hstop⟩

end SourceText

end ParseActions
