import ParseActions.Text.Basic

/-!
# Source text and spans

The text of one action body, under the name by which diagnostics refer to it. Lines end before newline
characters and are numbered from one; a carriage return before a line's end is not part of the line. A
line is looked up by the byte offsets at which it and the next one start.

A span is a stretch of source text given by its first and last position. Lines and columns count
from one. Spans are ordered by containment, and `merge` is the join of that order.

## Main definitions

* `Span.point`: the span of a single position
* `Span.merge`: the smallest span that covers two spans
* `Span.Covers`: containment, in the order of (line, column)
* `SourceText.lineStarts`: the byte offsets at which the lines start
* `SourceText.line?`: a line by its number
-/

namespace ParseActions

/-- A stretch of source text, from its start position to its end position. -/
structure Span where
  startLine : Nat
  startColumn : Nat
  endLine : Nat
  endColumn : Nat
  deriving DecidableEq, Inhabited

namespace Span

/-- The span of a single position. -/
def point (line column : Nat) : Span :=
  ⟨line, column, line, column⟩

/-- The start of the span. -/
def start (s : Span) : Nat × Nat :=
  (s.startLine, s.startColumn)

/-- The end of the span. -/
def stop (s : Span) : Nat × Nat :=
  (s.endLine, s.endColumn)

/-- Positions are compared by line, then by column. -/
def Before (p q : Nat × Nat) : Prop :=
  p.1 < q.1 ∨ (p.1 = q.1 ∧ p.2 ≤ q.2)

instance (p q : Nat × Nat) : Decidable (Before p q) :=
  inferInstanceAs (Decidable (_ ∨ _))

/-- `s` covers `t` when it starts no later and ends no earlier. -/
def Covers (s t : Span) : Prop :=
  Before s.start t.start ∧ Before t.stop s.stop

instance (s t : Span) : Decidable (Covers s t) :=
  inferInstanceAs (Decidable (_ ∧ _))

/-- The smallest span that covers both spans. -/
def merge (s t : Span) : Span where
  startLine := min s.startLine t.startLine
  startColumn :=
    if s.startLine < t.startLine then s.startColumn
    else if t.startLine < s.startLine then t.startColumn
    else min s.startColumn t.startColumn
  endLine := max s.endLine t.endLine
  endColumn :=
    if s.endLine > t.endLine then s.endColumn
    else if t.endLine > s.endLine then t.endColumn
    else max s.endColumn t.endColumn

/-- A span is shown by its start. -/
def display (s : Span) : String :=
  s!"{s.startLine}:{s.startColumn}"

end Span

/-- The text of an action body and the name it is reported under. -/
structure SourceText where
  name : String
  text : String

namespace SourceText

/-- The byte offsets after the newlines of a text that starts at the byte offset `start`. -/
def startsAfter (start : Nat) : List Char → List Nat
  | [] => []
  | c :: rest =>
    let next := start + c.utf8Size
    if c = '\n' then next :: startsAfter next rest else startsAfter next rest

/-- The byte offsets at which the lines start; there is always at least one. -/
def lineStarts (source : SourceText) : List Nat :=
  0 :: startsAfter 0 source.text.toList

/-- A piece without the carriage returns at its end. -/
def dropReturns (piece : List Char) : List Char :=
  (piece.reverse.dropWhile (· == '\r')).reverse

/-- The number of lines. -/
def lineCount (source : SourceText) : Nat :=
  source.lineStarts.length

/-- The line of the given number, counted from one. -/
def line? (source : SourceText) : Nat → Option String
  | 0 => none
  | n + 1 => do
    let start ← source.lineStarts[n]?
    let stop := source.lineStarts[n + 1]?.elim source.text.utf8ByteSize (· - 1)
    let piece ← Text.slice? source.text.toList start stop
    return String.ofList (dropReturns piece)

end SourceText

end ParseActions
