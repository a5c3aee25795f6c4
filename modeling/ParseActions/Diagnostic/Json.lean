import ParseActions.Diagnostic
import ParseActions.Json.Decode

/-!
# Diagnostics as JSON

A diagnostic is an object in which the fields of its span stand beside the others.

## Main definitions

* `Span.toJson`, `Diagnostic.toJson`, `Diagnostics.toJson`
* `Diagnostic.ofJson?`, `Diagnostics.ofJson?`
-/

namespace ParseActions

/-- The greatest number of a line or column. -/
def maxPlace : Nat := 0xFFFFFFFF

/-- The fields of a span. -/
def Span.fields (s : Span) : List (String × Json) :=
  [("line", .nat s.startLine), ("column", .nat s.startColumn), ("end_line", .nat s.endLine),
    ("end_column", .nat s.endColumn)]

/-- A span as an object. -/
def Span.toJson (s : Span) : Json :=
  .object s.fields

/-- Reads a diagnostic. -/
def Diagnostic.ofJson? (json : Json) : Option Diagnostic := do
  let .object fields := json | none
  let place (name : String) : Option Nat := do
    (← Json.member? fields name).required (Json.natUpTo? maxPlace)
  let word (name : String) : Option String := do
    (← Json.member? fields name).required Json.text?
  let code ← (← Json.member? fields "code").required (Json.natUpTo? 0xFFFF)
  return {
    file := ← word "file"
    code := ⟨code⟩
    category := ← Category.ofName? (← word "category")
    message := ← word "message"
    span := ⟨← place "line", ← place "column", ← place "end_line", ← place "end_column"⟩
    sourceLine := ← word "source_line"
    suggestion := ← (← Json.member? fields "suggestion").optional Json.text? }

/-- A diagnostic as an object. -/
def Diagnostic.toJson (d : Diagnostic) : Json :=
  .object <|
    [("file", .string d.file), ("code", .nat d.code.number),
      ("category", .string d.category.name), ("message", .string d.message)]
    ++ d.span.fields
    ++ [("source_line", .string d.sourceLine)]
    ++ Json.optionalField "suggestion" .string d.suggestion

namespace Diagnostics

/-- Diagnostics as an object. -/
def toJson (ds : Diagnostics) : Json :=
  .object [("errors", .list Diagnostic.toJson ds.kept), ("total_errors", .nat ds.total)]

/-- Reads diagnostics. -/
def ofJson? (json : Json) : Option Diagnostics := do
  let [kept, total] ← Json.members? ["errors", "total_errors"] json | none
  return ⟨← kept.required (Json.list? Diagnostic.ofJson?), ← total.required Json.nat?⟩

end Diagnostics

end ParseActions
