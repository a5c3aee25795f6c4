import ParseActions.Memo.Evaluation
import ParseActions.Session.Config
import ParseActions.Trace.Visit
import ParseActions.Walk.Drawing

/-!
# Walks

A walk begins at a step of a trace. It forgets all results, evaluates the active action at this
step, and then visits the steps from there on and asks for each to be drawn. A step that applies a
rule has a panel with the result of the action; the result is computed if the first evaluation did
not get there.

## Main definitions

* `Walk`: what a walk does not change
* `Walk.panel`: the panel of a step
* `Walk.run`: the whole walk
-/

namespace ParseActions

/-- What a walk does not change. -/
structure Walk where
  trace : Trace
  config : Config
  /-- The active action. -/
  action : Option Action
  /-- What the editors hold that is not saved, by rule. -/
  edits : List (String × ActionSource)
  zoomTarget : Option TraceId

namespace Walk

/-- What a walk changes. -/
structure State where
  memo : Memo
  /-- The key of the node whose action was edited last, until it has a value. -/
  lastEdited : Option NodeKey
  events : Array WalkEvent
  /-- The errors that were shown where they arose. -/
  errors : List SurfacedError

/-- What a walk gives. -/
structure Result where
  report : WalkReport
  memo : Memo
  lastEdited : Option NodeKey
  events : List WalkEvent

variable (w : Walk)

/-- The evaluation of an action. -/
def evaluation (action : Action) : Evaluation :=
  ⟨w.trace, action, w.config.gasLimit⟩

/-- The outcome of a node: the one that is recorded, or that of an evaluation. -/
def outcomeOf (action : Action) (id : CstId) (key : NodeKey) (m : Memo) : Outcome × Memo :=
  match m.get? key with
  | some outcome => (outcome, m)
  | none => (w.evaluation action).evaluate id m

/-- Whether no child of a node has a recorded outcome. -/
def noChildRecorded (action : Action) (node : CstNode) (m : Memo) : Bool :=
  node.children.all fun id =>
    (w.trace.cstNode? id).all fun child => !m.has (.of child action.name)

/-- Whether an outcome needs the author's attention: an error of the node itself, or a failure that
is not one of the nodes below it. -/
def isMarked (action : Action) (node : CstNode) (key : NodeKey) (m : Memo) : Outcome → Bool
  | .errored e => e.origin = key
  | .failed => key ∈ m.todo || w.noChildRecorded action node m
  | .succeeded _ | .pending => false

/-- What the editor of a rule holds: what is not saved, or else what is installed. -/
def sourceOf (action : Action) (rule : String) : ActionSource :=
  ((Keyed.find? rule w.edits).or (action.source? rule)).getD .empty

/-- The panel of a step that applies a rule, under an action. -/
def rulePanel (action : Action) (id : TraceId) (rule : String) (cst : CstId) (node : CstNode)
    (s : State) : ActionPanel × State :=
  let key := NodeKey.of node action.name
  let (outcome, m) := w.outcomeOf action cst key s.memo
  let marked := w.isMarked action node key m outcome
  let lastEdited :=
    if outcome.value?.isSome ∧ s.lastEdited = some key then none else s.lastEdited
  let panel : ActionPanel := {
    action := action.name
    key := key
    rule := rule
    source := w.sourceOf action rule
    arguments := (w.trace.matchedBody? id).elim [] ParsingExpr.signature
    outcome := outcome
    passThrough := key ∈ m.passThrough
    todo := key ∈ m.todo
    marked := marked
    editorOpen := marked && lastEdited = some key }
  (panel, { s with memo := m, lastEdited := lastEdited })

/-- The panel of a step. Only steps that applied a rule other than that for white space have one,
and only while an action is active. -/
def panel (id : TraceId) (node : TraceNode) (s : State) : Option ActionPanel × State :=
  match w.action, node.rule?, node.cst with
  | some action, some rule, some cst =>
    if !node.succeeded || rule == "spaces" then (none, s)
    else
      match w.trace.cstNode? cst with
      | none => (none, s)
      | some cstNode =>
        let (panel, s) := w.rulePanel action id rule cst cstNode s
        (some panel, s)
  | _, _, _ => (none, s)

/-- The key of the result at a step. -/
def key? (node : TraceNode) : Option NodeKey := do
  let action ← w.action
  let cst ← w.trace.cstNode? (← node.cst)
  return .of cst action.name

/-- Whether nothing is drawn below a step. -/
def isLeaf (node : TraceNode) : Bool :=
  node.expr.isPrimitive || node.isBlackhole || node.isWhitespace || node.children.isEmpty

/-- The input that a step consumed. -/
def consumed (node : TraceNode) : Option String :=
  if !node.succeeded || node.replacedBy.isSome then none
  else if !isLeaf node then some ""
  else if node.isWhitespace then some Label.whitespaceInput
  else some (w.trace.text node.interval)

/-- Adds an error that a panel shows at its origin, unless one of this origin was shown. -/
def surface (errors : List SurfacedError) (panel : ActionPanel) : List SurfacedError :=
  match panel.outcome with
  | .errored e =>
    if e.origin = panel.key ∧ !errors.any (fun shown => shown.origin == e.origin) then
      errors ++ [e.surfaced]
    else errors
  | _ => errors

/-- Whether a step is passed over: it failed and failures are not shown, or it is white space of no
length. -/
def isHidden (node : TraceNode) : Bool :=
  (!w.config.showFailures && !node.succeeded) || (node.isWhitespace && node.interval.isEmpty)

/-- Asks for a step to be drawn. -/
def draw (visit : Visit) (node : TraceNode) (s : State) : State :=
  let (panel, s) := w.panel visit.node node s
  let request : DrawRequest := {
    node := visit.node
    depth := visit.depth
    key := w.key? node
    label := node.label w.config.labelLength
    succeeded := node.succeeded
    labeled := node.isLabeled
    leaf := isLeaf node
    primitive := node.expr.isPrimitive
    whitespace := node.isWhitespace
    input := w.consumed node
    zoomTarget := w.zoomTarget = some visit.node
    panel := panel }
  { s with
    events := s.events.push (.draw request)
    errors := panel.elim s.errors (surface s.errors) }

/-- Draws the steps that are not passed over, and goes on below those that are not leaves. -/
def visitor : Visitor State where
  enter visit s :=
    match w.trace.node? visit.node with
    | none => (.skip, s)
    | some node =>
      if w.isHidden node then (.skip, s)
      else (if isLeaf node then .skip else .descend, w.draw visit node s)
  leave visit s := { s with events := s.events.push (.leave visit.node) }

/-- The evaluation of the active action at the step that the walk begins at. -/
def evaluateFocus (focus : TraceId) : Option Outcome × Memo :=
  match w.action, (w.trace.node? focus).bind TraceNode.cst with
  | some action, some cst =>
    let (outcome, m) := (w.evaluation action).evaluate cst .empty
    (some outcome, m)
  | _, _ => (none, .empty)

/-- Walks from a step on. -/
def run (focus : TraceId) (lastEdited : Option NodeKey) : Result :=
  let (outcome, m) := w.evaluateFocus focus
  let s := w.trace.walk w.visitor focus ⟨m, lastEdited, #[], []⟩
  let events := s.events.toList
  let report : WalkReport := {
    focus := focus
    action := w.action.map Action.name
    drawn := (events.filterMap WalkEvent.request?).length
    evaluations := s.memo.evaluations
    todo := s.memo.todo
    passThrough := s.memo.passThrough
    errors := s.errors
    escaped := (outcome.bind Outcome.error?).map RaisedError.surfaced }
  ⟨report, s.memo, s.lastEdited, events⟩

end Walk

end ParseActions
