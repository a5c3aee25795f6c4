import ParseActions.Action.Signature
import ParseActions.Action.Source
import ParseActions.Memo.Basic
import ParseActions.Trace.Json
import ParseActions.Value.Json

/-!
# Drawings

What a walk hands to the renderer: a request for each step that is shown, with a panel for the
actions of rules, and a report on the whole walk. The label of a step is how its expression is written,
or a sign for white space. Long labels are shortened.

## Main definitions

* `TraceNode.label`: the label of a step
* `TraceNode.isLabeled`: whether the label is shown
* `ActionPanel`, `DrawRequest`: what is shown of a step
* `WalkEvent`: the requests, and the ends of the steps that were descended into
* `WalkReport`: the summary of a walk
-/

namespace ParseActions

/-! ## Labels -/

namespace Label

/-- The label of white space that is skipped. -/
def whitespace : String := "\u25e6"

/-- The input of white space as it is shown. -/
def whitespaceInput : String := "\u00b7"

/-- What stands for the rest of a shortened label. -/
def ellipsis : String := "\u2026"

/-- The first `length` characters of a text and an ellipsis, if the text has more characters and
contains a space. -/
def shortened (length : Nat) (text : String) : String :=
  let cs := text.toList
  if length < cs.length ∧ ' ' ∈ cs then String.ofList (cs.take length) ++ ellipsis else text

end Label

namespace TraceNode

/-- The label of a step. -/
def label (node : TraceNode) (length : Nat) : String :=
  if node.isWhitespace then Label.whitespace else Label.shortened length node.display

/-- Whether a step has a label: it is not hidden, does more than combine others, and applies a rule
that matched or an expression that was written in the grammar. -/
def isLabeled (node : TraceNode) : Bool :=
  if node.isBlackhole || node.expr.isCombinator then false
  else if node.rule?.isSome then node.succeeded
  else node.expr.source.isSome

end TraceNode

/-! ## Requests and reports -/

/-- The editor of the action for a rule, and the result of the action at a step. -/
structure ActionPanel where
  action : String
  key : NodeKey
  rule : String
  /-- What the editor holds. -/
  source : ActionSource
  arguments : List Parameter
  outcome : Outcome
  passThrough : Bool
  todo : Bool
  /-- Whether the author has to do something here. -/
  marked : Bool
  editorOpen : Bool

/-- What is shown of a step. -/
structure DrawRequest where
  node : TraceId
  depth : Nat
  key : Option NodeKey
  label : String
  succeeded : Bool
  labeled : Bool
  leaf : Bool
  primitive : Bool
  whitespace : Bool
  /-- The input that a leaf consumed, which is empty for other steps. -/
  input : Option String
  /-- Whether the step was zoomed into last. -/
  zoomTarget : Bool
  panel : Option ActionPanel

/-- What a walk hands over. -/
inductive WalkEvent where
  | draw (request : DrawRequest)
  /-- The steps below a step have been visited. -/
  | leave (id : TraceId)

/-- The request of an event. -/
def WalkEvent.request? : WalkEvent → Option DrawRequest
  | draw request => some request
  | leave _ => none

/-- An error as it is shown to the author. -/
structure SurfacedError where
  origin : NodeKey
  message : String
  deriving DecidableEq

/-- An error as it is shown. -/
def RaisedError.surfaced (e : RaisedError) : SurfacedError :=
  ⟨e.origin, e.error.message⟩

/-- The summary of a walk. -/
structure WalkReport where
  focus : TraceId
  action : Option String
  /-- The number of requests. -/
  drawn : Nat
  evaluations : Nat
  todo : List NodeKey
  passThrough : List NodeKey
  /-- The errors that were shown where they arose, one for each origin. -/
  errors : List SurfacedError
  /-- The error of the step that the walk began at. -/
  escaped : Option SurfacedError

/-! ## JSON -/

/-- A key as a string. -/
def NodeKey.toJson (key : NodeKey) : Json :=
  .string key.display

/-- A parameter as an object. -/
def Parameter.toJson (p : Parameter) : Json :=
  .object [("display", .string p.display), ("default_name", .string p.name)]

/-- The result of a node as an object. -/
def Outcome.toJson (key : NodeKey) : Outcome → Json
  | succeeded v => .object [("kind", .string "value"), ("value", v.toJson)]
  | failed => .object [("kind", .string "failure")]
  | errored e =>
    .object [("kind", .string "error"), ("message", .string e.error.message),
      ("origin", e.origin.toJson), ("is_origin", .bool (e.origin = key))]
  | pending => .object [("kind", .string "pending")]

/-- A panel as an object. -/
def ActionPanel.toJson (p : ActionPanel) : Json :=
  .object [("action", .string p.action), ("key", p.key.toJson), ("rule", .string p.rule),
    ("source", p.source.toJson), ("arguments", .list Parameter.toJson p.arguments),
    ("result", p.outcome.toJson p.key), ("pass_through", .bool p.passThrough),
    ("todo", .bool p.todo), ("marked", .bool p.marked), ("editor_open", .bool p.editorOpen)]

/-- A request as an object. -/
def DrawRequest.toJson (r : DrawRequest) : Json :=
  .object [("node", r.node.toJson), ("depth", .nat r.depth), ("key", .option NodeKey.toJson r.key),
    ("label", .string r.label), ("succeeded", .bool r.succeeded), ("labeled", .bool r.labeled),
    ("leaf", .bool r.leaf), ("primitive", .bool r.primitive), ("whitespace", .bool r.whitespace),
    ("input", .option .string r.input), ("zoom_target", .bool r.zoomTarget),
    ("panel", .option ActionPanel.toJson r.panel)]

/-- An error as an object. -/
def SurfacedError.toJson (e : SurfacedError) : Json :=
  .object [("origin", e.origin.toJson), ("message", .string e.message)]

/-- A report as an object. -/
def WalkReport.toJson (r : WalkReport) : Json :=
  .object [("focus", r.focus.toJson), ("action", .option .string r.action), ("drawn", .nat r.drawn),
    ("evaluations", .nat r.evaluations), ("todo", .list NodeKey.toJson r.todo),
    ("pass_through", .list NodeKey.toJson r.passThrough),
    ("errors", .list SurfacedError.toJson r.errors),
    ("escaped", .option SurfacedError.toJson r.escaped)]

end ParseActions
