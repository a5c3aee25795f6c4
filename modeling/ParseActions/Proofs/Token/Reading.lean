import Mathlib.Logic.Relation
import ParseActions.Proofs.Token.Scan

/-!
# Reading characters

The scanner goes forward: a place and the text from there on are reached from others by reading
characters. The text gets shorter with each of them, and the place later.

## Main definitions

* `Scanner.Read`: one character is read
* `Scanner.Reaches`, `Scanner.Passes`: characters are read, at least one of them

## Main results

* `Scanner.reaches_skip`: blanks
* `Scanner.passes_stringText`, `Scanner.passes_scanNumber`, `Scanner.passes_scanName`: tokens
-/

namespace ParseActions

namespace Scanner

open Relation

/-- A place and the text from there on. -/
abbrev Text : Type :=
  Position × List Char

/-- One character is read. -/
inductive Read : Text → Text → Prop where
  | char (place : Position) (c : Char) (rest : List Char) :
      Read (place, c :: rest) (place.after c, rest)

/-- Characters are read. -/
abbrev Reaches : Text → Text → Prop :=
  ReflTransGen Read

/-- Characters are read, at least one. -/
abbrev Passes : Text → Text → Prop :=
  TransGen Read

/-- The text that is left to scan. -/
def text (s : Scanner) : Text :=
  (s.place, s.rest)

variable {source : SourceText} {s : Scanner} {place : Position} {c : Char} {cs rest : List Char}

theorem reaches_cons {a : Text} (h : Reaches (place.after c, rest) a) :
    Reaches (place, c :: rest) a :=
  .head (.char place c rest) h

theorem passes_cons {a : Text} (h : Reaches (place.after c, rest) a) :
    Passes (place, c :: rest) a :=
  .head' (.char place c rest) h

/-- The text gets shorter. -/
theorem length_lt_of_passes {a b : Text} (h : Passes a b) : b.2.length < a.2.length := by
  induction h with
  | single h =>
    obtain ⟨_, _, rest⟩ := h
    exact Nat.lt_succ_self rest.length
  | tail _ h ih =>
    obtain ⟨_, _, rest⟩ := h
    exact Nat.lt_of_succ_lt ih

theorem length_le_of_reaches {a b : Text} (h : Reaches a b) : b.2.length ≤ a.2.length := by
  rcases reflTransGen_iff_eq_or_transGen.mp h with rfl | h
  · exact Nat.le_refl _
  · exact Nat.le_of_lt (length_lt_of_passes h)

/-! ## Characters and blanks -/

theorem reaches_advance (n : Nat) (s : Scanner) : Reaches s.text (s.advance n).text := by
  induction n generalizing s with
  | zero => exact .refl
  | succ n ih =>
    obtain ⟨rest, place, modes, pending, errors⟩ := s
    cases rest with
    | nil => exact .refl
    | cons c rest => exact reaches_cons (ih ⟨rest, place.after c, modes, pending, errors⟩)

theorem passes_advance (n : Nat) (h : s.rest = c :: rest) :
    Passes s.text (s.advance (n + 1)).text := by
  obtain ⟨tokens, place, modes, pending, errors⟩ := s
  obtain rfl : tokens = c :: rest := h
  exact passes_cons (reaches_advance n ⟨rest, place.after c, modes, pending, errors⟩)

theorem reaches_spanWhile (p : Char → Bool) (place : Position) (cs : List Char) :
    Reaches (place, cs) ((spanWhile p place cs).2.2, (spanWhile p place cs).2.1) := by
  induction cs generalizing place with
  | nil => exact .refl
  | cons c cs ih =>
    rw [spanWhile]
    split
    · exact reaches_cons (ih _)
    · exact .refl

theorem reaches_skipBlanks (b : Blank) (place : Position) (cs : List Char) :
    Reaches (place, cs) ((skipBlanks b place cs).2.1, (skipBlanks b place cs).1) := by
  fun_induction skipBlanks b place cs
  case case1 | case2 | case6 | case7 => exact .refl
  -- the two characters that open or close a comment
  case case3 ih | case4 ih | case9 ih => exact reaches_cons (reaches_cons ih)
  case case5 ih | case8 ih | case10 ih => exact reaches_cons ih

/-- **Blanks** are read. -/
theorem reaches_skip : Reaches s.text (s.skip source).text := by
  have hread := reaches_skipBlanks .spaces s.place s.rest
  rw [skip]
  dsimp only
  split
  · exact hread
  · exact hread

/-! ## Tokens -/

/-- The text of a string is read, and then a quote or the start of a hole. -/
theorem passes_stringText (source : SourceText) (out : List Char) (errors : Diagnostics)
    (place : Position) (cs : List Char)
    (h : (stringText source out errors place cs).stop ≠ .unterminated) :
    ∃ rest, Reaches (place, cs) ((stringText source out errors place cs).stopPlace, rest) ∧
      Passes ((stringText source out errors place cs).stopPlace, rest)
        ((stringText source out errors place cs).place,
          (stringText source out errors place cs).rest) := by
  fun_induction stringText source out errors place cs
  -- the text ends, an escape is cut off, or the line ends
  case case1 | case4 | case7 => exact absurd rfl h
  -- a quote, or the start of a hole
  case case2 => exact ⟨_, .refl, passes_cons .refl⟩
  case case3 => exact ⟨_, .refl, passes_cons (reaches_cons .refl)⟩
  case case5 ih | case6 ih =>
    obtain ⟨rest, hreach, hpass⟩ := ih h
    exact ⟨rest, reaches_cons (reaches_cons hreach), hpass⟩
  case case8 ih =>
    obtain ⟨rest, hreach, hpass⟩ := ih h
    exact ⟨rest, reaches_cons hreach, hpass⟩

/-- The text of a string is read as far as it goes, also if it does not end. -/
theorem reaches_stringText (source : SourceText) (out : List Char) (errors : Diagnostics)
    (place : Position) (cs : List Char) :
    Reaches (place, cs) ((stringText source out errors place cs).place,
      (stringText source out errors place cs).rest) := by
  fun_induction stringText source out errors place cs
  case case1 | case7 => exact .refl
  case case2 | case4 => exact reaches_cons .refl
  case case3 => exact reaches_cons (reaches_cons .refl)
  case case5 ih | case6 ih => exact reaches_cons (reaches_cons ih)
  case case8 ih => exact reaches_cons ih

theorem passes_scanNumber (h : s.rest = c :: rest) (hc : c.isDigit = true) :
    Passes s.text s.scanNumber.2.text := by
  have hwhole : Passes s.text ((spanWhile Char.isDigit s.place s.rest).2.2,
      (spanWhile Char.isDigit s.place s.rest).2.1) := by
    rw [text, h, spanWhile, if_pos hc]
    exact passes_cons (reaches_spanWhile _ _ _)
  rw [scanNumber]
  dsimp only [text]
  split
  · next d more hmore =>
    split
    · refine hwhole.trans_left ?_
      rw [hmore]
      exact reaches_cons (reaches_spanWhile _ _ _)
    · exact hwhole
  · exact hwhole

theorem passes_scanName (h : s.rest = c :: rest) : Passes s.text (s.scanName c).2.text := by
  have hmore := reaches_spanWhile isNameChar (s.place.after c) rest
  rw [text, h]
  refine passes_cons ?_
  simpa [scanName, h, text] using hmore

theorem length_pos_of_symbol? {kind : Token.Kind} {n : Nat} (h : symbol? cs = some (kind, n)) :
    0 < n := by
  rw [symbol?.eq_def] at h
  split at h <;> cases h <;> decide

@[simp] theorem text_scanSymbol (kind : Token.Kind) (n : Nat) (s : Scanner) :
    (scanSymbol kind n s).2.text = (s.advance n).text := by
  rw [scanSymbol.eq_def]
  dsimp only
  split <;> rfl

end Scanner

end ParseActions
