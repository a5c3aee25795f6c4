import Mathlib.Data.Prod.Lex
import Mathlib.Order.MinMax
import ParseActions.Text.Source

/-!
# Positions in order

Positions are ordered by line, then by column. The span that covers two spans starts at the first of
their starts and ends at the last of their ends, also where they are reversed or one lies in the other;
so it is their join in the order of containment. Where one span starts and ends no later than another,
it goes from the start of the first to the end of the second.

## Main definitions

* `Span.Proper`: spans that are not reversed, with lines and columns from one

## Main results

* `Span.start_merge`, `Span.stop_merge`: merging spans in order
* `Span.toLex_start_merge`, `Span.toLex_stop_merge`: merging any two spans
* `Span.merge_join`: the smallest span that covers two spans
-/

namespace ParseActions

namespace Span

variable {p q r : Nat × Nat} {s t : Span}

theorem Before.refl (p : Nat × Nat) : Before p p :=
  .inr ⟨rfl, Nat.le_refl _⟩

theorem Before.trans (h : Before p q) (h' : Before q r) : Before p r := by
  simp only [Before] at *
  omega

/-- A span that does not end before it starts, with lines and columns from one. -/
structure Proper (s : Span) : Prop where
  line : 1 ≤ s.startLine
  column : 1 ≤ s.startColumn
  order : Before s.start s.stop

theorem start_merge (h : Before s.start t.start) : (s.merge t).start = s.start := by
  simp only [Before, start] at h
  simp only [start, merge, Prod.mk.injEq]
  constructor
  · omega
  · split
    · rfl
    · split <;> omega

theorem stop_merge (h : Before s.stop t.stop) : (s.merge t).stop = t.stop := by
  simp only [Before, stop] at h
  simp only [stop, merge, Prod.mk.injEq]
  constructor
  · omega
  · split
    · omega
    · split <;> omega

/-- Spans with one start are proper alike, if they are not reversed. -/
theorem Proper.of_start_eq (h : s.Proper) (hstart : t.start = s.start)
    (horder : Before t.start t.stop) : t.Proper := by
  obtain ⟨hline, hcolumn⟩ := Prod.mk.inj hstart
  exact ⟨hline ▸ h.line, hcolumn ▸ h.column, horder⟩

/-! ## The join of two spans -/

/-- The order of positions is the lexicographic one. -/
theorem before_iff_toLex_le : Before p q ↔ toLex p ≤ toLex q :=
  Prod.Lex.toLex_le_toLex.symm

theorem covers_iff :
    s.Covers t ↔ toLex s.start ≤ toLex t.start ∧ toLex t.stop ≤ toLex s.stop := by
  rw [Covers, before_iff_toLex_le, before_iff_toLex_le]

/-- A span is known by its start and its end. -/
theorem eq_of_ends (hstart : toLex s.start = toLex t.start) (hstop : toLex s.stop = toLex t.stop) :
    s = t := by
  obtain ⟨hline, hcolumn⟩ := Prod.mk.inj (toLex_inj.mp hstart)
  obtain ⟨hline', hcolumn'⟩ := Prod.mk.inj (toLex_inj.mp hstop)
  cases s
  cases t
  simp_all

theorem merge_comm (s t : Span) : s.merge t = t.merge s := by
  simp only [merge, Span.mk.injEq]
  refine ⟨Nat.min_comm _ _, ?_, Nat.max_comm _ _, ?_⟩
  -- at most one of the two comparisons of lines holds
  · split <;> split <;> omega
  · split <;> split <;> omega

/-- The column that is taken belongs to the line that is taken, so the start is the lesser of both. -/
theorem toLex_start_merge (s t : Span) :
    toLex (s.merge t).start = min (toLex s.start) (toLex t.start) := by
  rcases le_total (toLex s.start) (toLex t.start) with h | h
  · rw [min_eq_left h, start_merge (before_iff_toLex_le.mpr h)]
  · rw [min_eq_right h, merge_comm, start_merge (before_iff_toLex_le.mpr h)]

/-- Likewise the end is the greater of both. -/
theorem toLex_stop_merge (s t : Span) :
    toLex (s.merge t).stop = max (toLex s.stop) (toLex t.stop) := by
  rcases le_total (toLex s.stop) (toLex t.stop) with h | h
  · rw [max_eq_right h, stop_merge (before_iff_toLex_le.mpr h)]
  · rw [max_eq_left h, merge_comm, stop_merge (before_iff_toLex_le.mpr h)]

theorem merge_assoc (a b c : Span) : (a.merge b).merge c = a.merge (b.merge c) := by
  apply eq_of_ends
  · simp only [toLex_start_merge, min_assoc]
  · simp only [toLex_stop_merge, max_assoc]

theorem merge_self (s : Span) : s.merge s = s := by
  apply eq_of_ends
  · rw [toLex_start_merge, min_self]
  · rw [toLex_stop_merge, max_self]

theorem Covers.refl (s : Span) : s.Covers s :=
  ⟨.refl _, .refl _⟩

/-- What covers the merged span is what covers both spans. -/
theorem covers_merge_iff {r : Span} : r.Covers (s.merge t) ↔ r.Covers s ∧ r.Covers t := by
  simp only [covers_iff, toLex_start_merge, toLex_stop_merge, le_min_iff, max_le_iff]
  exact and_and_and_comm

/-- **Merging gives the smallest span that covers both.** Whatever the lines and columns are, it starts
at the first of the starts and ends at the last of the ends, in the lexicographic order of line and
column. So the order of merging does not matter, nor does repetition; both spans are covered, and by
whatever covers both the merged span is covered. -/
theorem merge_join (a b c : Span) :
    toLex (a.merge b).start = min (toLex a.start) (toLex b.start) ∧
      toLex (a.merge b).stop = max (toLex a.stop) (toLex b.stop) ∧
      a.merge b = b.merge a ∧ (a.merge b).merge c = a.merge (b.merge c) ∧ a.merge a = a ∧
      ((a.merge b).Covers a ∧ (a.merge b).Covers b) ∧
      (c.Covers (a.merge b) ↔ c.Covers a ∧ c.Covers b) :=
  ⟨toLex_start_merge a b, toLex_stop_merge a b, merge_comm a b, merge_assoc a b c, merge_self a,
    covers_merge_iff.mp (Covers.refl _), covers_merge_iff⟩

/-- A span on later lines with a smaller column, and one that lies in another. -/
example : merge ⟨1, 9, 2, 3⟩ ⟨3, 1, 3, 2⟩ = ⟨1, 9, 3, 2⟩ ∧
    merge ⟨2, 4, 2, 5⟩ ⟨1, 7, 3, 1⟩ = ⟨1, 7, 3, 1⟩ := by decide

end Span

end ParseActions
