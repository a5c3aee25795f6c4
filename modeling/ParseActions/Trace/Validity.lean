import ParseActions.Graph.Basic
import ParseActions.Trace.Basic

/-!
# Valid traces

A trace is valid when its places exist, its intervals lie in the input and inside one another, and
no node is below itself. Validation reports the first fault.

## Main definitions

* `TraceError`: the faults of a trace
* `Trace.validate`: the first fault of a trace
* `Trace.Valid`: a trace without faults
-/

namespace ParseActions

/-- A node in one of the two arenas. -/
inductive NodeName where
  | step (id : TraceId)
  | tree (id : CstId)
  deriving DecidableEq

/-- A node is named by its place. -/
def NodeName.display : NodeName → String
  | step id => id.display
  | tree id => id.display

/-- What is wrong with a trace. -/
inductive TraceError where
  /-- The text is not the document of a trace. -/
  | unreadable
  | empty
  | danglingStep (id : TraceId)
  | danglingTree (id : CstId)
  | outsideInput (node : NodeName) (interval : Interval) (length : Nat)
  | childOutsideParent (parent : NodeName) (outer : Interval) (child : NodeName) (inner : Interval)
  | stepCycle (id : TraceId)
  | treeCycle (id : CstId)
  deriving DecidableEq

/-- The wording. -/
def TraceError.message : TraceError → String
  | unreadable => "invalid trace JSON: "
  | empty => "trace has no nodes"
  | danglingStep id => s!"trace node {id.display} does not exist"
  | danglingTree id => s!"CST node {id.display} does not exist"
  | outsideInput node interval length =>
    s!"interval {interval.display} of {node.display} lies outside the input (length {length})"
  | childOutsideParent parent outer child inner =>
    s!"child {child.display} ({inner.display}) escapes parent {parent.display} ({outer.display})"
  | stepCycle id => s!"trace node {id.display} is reachable from itself"
  | treeCycle id => s!"CST node {id.display} is reachable from itself"

namespace Trace

/-- The number of bytes of the input. -/
def inputLength (t : Trace) : Nat :=
  t.input.utf8ByteSize

/-- The steps below a step, by number. -/
def stepGraph (t : Trace) (n : Nat) : List Nat :=
  (t.children ⟨n⟩).map TraceId.index

/-- The nodes below a node of the syntax tree, by number. -/
def treeGraph (t : Trace) (n : Nat) : List Nat :=
  (t.cstChildren ⟨n⟩).map CstId.index

/-- Checks that a step exists. -/
def checkStep (t : Trace) (id : TraceId) : Except TraceError TraceNode :=
  match t.node? id with
  | some node => .ok node
  | none => .error (.danglingStep id)

/-- Checks that a node of the syntax tree exists. -/
def checkTree (t : Trace) (id : CstId) : Except TraceError CstNode :=
  match t.cstNode? id with
  | some node => .ok node
  | none => .error (.danglingTree id)

/-- Checks that an interval is one of the input. -/
def checkInterval (t : Trace) (node : NodeName) (i : Interval) : Except TraceError Unit :=
  if i.stop < i.start ∨ t.inputLength < i.stop then
    .error (.outsideInput node i t.inputLength)
  else .ok ()

/-- Checks a step: its interval, its references, and that what succeeded below it lies inside it. -/
def checkNode (t : Trace) (id : TraceId) (node : TraceNode) : Except TraceError Unit := do
  t.checkInterval (.step id) node.interval
  node.replacedBy.forM fun other => do let _ ← t.checkStep other
  node.cst.forM fun other => do let _ ← t.checkTree other
  node.children.forM fun child => do
    let below ← t.checkStep child
    if node.succeeded && below.succeeded && !node.interval.contains below.interval then
      .error (.childOutsideParent (.step id) node.interval (.step child) below.interval)

/-- Checks a node of the syntax tree: its interval, and that what is below it lies inside it. -/
def checkCstNode (t : Trace) (id : CstId) (node : CstNode) : Except TraceError Unit := do
  t.checkInterval (.tree id) node.interval
  node.children.forM fun child => do
    let below ← t.checkTree child
    if !node.interval.contains below.interval then
      .error (.childOutsideParent (.tree id) node.interval (.tree child) below.interval)

/-- Checks that no node is below itself. -/
def checkAcyclic (t : Trace) : Except TraceError Unit :=
  match Graph.firstCycle? t.nodes.size t.stepGraph with
  | some n => .error (.stepCycle ⟨n⟩)
  | none =>
    match Graph.firstCycle? t.cst.size t.treeGraph with
    | some n => .error (.treeCycle ⟨n⟩)
    | none => .ok ()

/-- The first fault of a trace. -/
def validate (t : Trace) : Except TraceError Unit := do
  if t.nodes.isEmpty then .error .empty
  let _ ← t.checkStep t.root
  t.nodes.toList.zipIdx.forM fun (node, n) => t.checkNode ⟨n⟩ node
  t.cst.toList.zipIdx.forM fun (node, n) => t.checkCstNode ⟨n⟩ node
  t.checkAcyclic

/-- The trace, if it has no faults. -/
def validated (t : Trace) : Except TraceError Trace := do
  t.validate
  return t

/-- An interval of the input. -/
def InInput (t : Trace) (i : Interval) : Prop :=
  i.start ≤ i.stop ∧ i.stop ≤ t.inputLength

/-- A trace without faults. -/
structure Valid (t : Trace) : Prop where
  root : t.root.index < t.nodes.size
  steps : ∀ node ∈ t.nodes, t.InInput node.interval
  replaced : ∀ node ∈ t.nodes, ∀ id ∈ node.replacedBy, id.index < t.nodes.size
  linked : ∀ node ∈ t.nodes, ∀ id ∈ node.cst, id.index < t.cst.size
  children : ∀ node ∈ t.nodes, ∀ id ∈ node.children, id.index < t.nodes.size
  nested : ∀ node ∈ t.nodes, ∀ id ∈ node.children, ∀ below ∈ t.node? id,
    node.succeeded → below.succeeded → node.interval.contains below.interval
  tree : ∀ node ∈ t.cst, t.InInput node.interval
  treeChildren : ∀ node ∈ t.cst, ∀ id ∈ node.children, id.index < t.cst.size
  treeNested : ∀ node ∈ t.cst, ∀ id ∈ node.children, ∀ below ∈ t.cstNode? id,
    node.interval.contains below.interval
  acyclic : Graph.Acyclic t.nodes.size t.stepGraph
  treeAcyclic : Graph.Acyclic t.cst.size t.treeGraph

end Trace

end ParseActions
