import ParseActions.Text.Source

/-!
# Diagnostics

What is reported against an action body: a code, a message, the place, and the source line there.
A pass over a body keeps the first `maxKept` diagnostics and counts all of them.

## Main definitions

* `Code`, `Category`: the number of a diagnostic and the family it belongs to
* `Diagnostic`: one report
* `Diagnostics.push`, `Diagnostics.extend`: collecting reports
-/

namespace ParseActions

/-- The family of a diagnostic, which its code decides. -/
inductive Category where
  | syntactic
  | binding
  | structural
  deriving DecidableEq

namespace Category

/-- The word by which a family is shown. -/
def name : Category → String
  | syntactic => "syntax"
  | binding => "binding"
  | structural => "structure"

/-- The family of the given word. -/
def ofName? : String → Option Category
  | "syntax" => some syntactic
  | "binding" => some binding
  | "structure" => some structural
  | _ => none

end Category

/-- The number of a diagnostic. -/
structure Code where
  number : Nat
  deriving DecidableEq, Inhabited

namespace Code

def unexpectedToken : Code := ⟨100⟩
def unclosedDelimiter : Code := ⟨101⟩
def unterminatedString : Code := ⟨102⟩
def invalidEscape : Code := ⟨103⟩
def trailingInput : Code := ⟨104⟩
def invalidArgumentName : Code := ⟨200⟩
def duplicateArgumentName : Code := ⟨201⟩
def tooManyArguments : Code := ⟨202⟩
def nestingLimitExceeded : Code := ⟨300⟩
def emptyBody : Code := ⟨301⟩

/-- Codes of one hundred form a family each; all others are structural. -/
def category (code : Code) : Category :=
  if 100 ≤ code.number ∧ code.number ≤ 199 then .syntactic
  else if 200 ≤ code.number ∧ code.number ≤ 299 then .binding
  else .structural

/-- A code is shown as its number after the letter E. -/
def display (code : Code) : String :=
  s!"E{code.number}"

end Code

/-- One report against an action body. -/
structure Diagnostic where
  /-- The name of the body. -/
  file : String
  code : Code
  category : Category
  message : String
  span : Span
  /-- The line of the body at which the span starts. -/
  sourceLine : String
  /-- How the author may mend it. -/
  suggestion : Option String
  deriving DecidableEq

namespace Diagnostic

/-- The report of a code at a span, in the family of the code. -/
def make (file : String) (code : Code) (message : String) (span : Span) (sourceLine : String) :
    Diagnostic :=
  ⟨file, code, code.category, message, span, sourceLine, none⟩

/-- The same report with advice on how to mend it. -/
def suggesting (d : Diagnostic) (advice : String) : Diagnostic :=
  { d with suggestion := some advice }

/-- A diagnostic on one line: place, code, family and message. -/
def display (d : Diagnostic) : String :=
  s!"{d.span.display}: {d.code.display} [{d.category.name}] {d.message}"

end Diagnostic

/-- The diagnostics of one pass: the first of them, and how many there were. -/
structure Diagnostics where
  kept : List Diagnostic
  total : Nat
  deriving DecidableEq, Inhabited

namespace Diagnostics

/-- The number of diagnostics that are kept. -/
def maxKept : Nat := 20

/-- No diagnostics. -/
def empty : Diagnostics :=
  ⟨[], 0⟩

/-- Whether anything was reported. -/
def hasErrors (ds : Diagnostics) : Bool :=
  0 < ds.total

/-- Whether as many were reported as are kept. -/
def isFull (ds : Diagnostics) : Bool :=
  maxKept ≤ ds.total

/-- Counts a diagnostic, and keeps it while there is room. -/
def push (ds : Diagnostics) (d : Diagnostic) : Diagnostics where
  kept := if ds.kept.length < maxKept then ds.kept ++ [d] else ds.kept
  total := ds.total + 1

/-- Adds what another pass kept. -/
def extend (ds other : Diagnostics) : Diagnostics :=
  other.kept.foldl push ds

/-- The first diagnostic. -/
def first? (ds : Diagnostics) : Option Diagnostic :=
  ds.kept.head?

/-- The kept diagnostics, one a line. -/
def display (ds : Diagnostics) : String :=
  "\n".intercalate (ds.kept.map Diagnostic.display)

end Diagnostics

end ParseActions
