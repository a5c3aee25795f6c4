import ParseActions.Text.Basic
import ParseActions.Trace.ParsingExpr

/-!
# Traces

The record of one match of a grammar against an input. It has two arenas of nodes that refer to each
other by their places: the steps that the matcher took, failed attempts among them, and the concrete
syntax tree of the steps that succeeded. A step that made a node of the tree refers to it.

## Main definitions

* `TraceId`, `CstId`: places in the arenas
* `CstNode`, `TraceNode`, `Trace`
* `Trace.text`: the input between two places
-/

namespace ParseActions

/-- The place of a step in its trace. -/
structure TraceId where
  index : Nat
  deriving DecidableEq, Inhabited

/-- The place of a node in the syntax tree of its trace. -/
structure CstId where
  index : Nat
  deriving DecidableEq, Inhabited

/-- A step is named by its place. -/
def TraceId.display (id : TraceId) : String :=
  s!"t{id.index}"

/-- A node of the syntax tree is named by its place. -/
def CstId.display (id : CstId) : String :=
  s!"c{id.index}"

/-- The kinds of nodes of a syntax tree. -/
inductive CstKind where
  /-- The application of a rule. -/
  | nonterminal (rule : String)
  | terminal
  /-- The matches of a repetition. -/
  | iter
  deriving DecidableEq, Inhabited

/-- The name by which actions and results refer to nodes of a kind. -/
def CstKind.constructor : CstKind → String
  | nonterminal rule => rule
  | terminal => "_terminal"
  | iter => "_iter"

/-- A node of a syntax tree. -/
structure CstNode where
  kind : CstKind
  interval : Interval
  children : List CstId
  deriving DecidableEq, Inhabited

namespace CstNode

/-- The name by which actions and results refer to the node. -/
def constructor (node : CstNode) : String :=
  node.kind.constructor

/-- The rule that a node applies. -/
def rule? (node : CstNode) : Option String :=
  match node.kind with
  | .nonterminal rule => some rule
  | _ => none

/-- Whether the node applies a rule. -/
def isNonterminal (node : CstNode) : Bool :=
  node.rule?.isSome

end CstNode

/-- A step of the matcher: an expression that was tried at a place. -/
structure TraceNode where
  expr : ParsingExpr
  interval : Interval
  children : List TraceId
  succeeded : Bool
  /-- The step whose result is used in place of this one. -/
  replacedBy : Option TraceId
  display : String
  /-- The node of the syntax tree that the step made. -/
  cst : Option CstId

namespace TraceNode

/-- The rule that is applied. -/
def rule? (node : TraceNode) : Option String :=
  node.expr.rule?

/-- Whether the step skips implicit white space. -/
def isWhitespace (node : TraceNode) : Bool :=
  node.rule? == some "spaces"

/-- Whether the step is not shown: it was replaced, or matches a space or nothing. -/
def isBlackhole (node : TraceNode) : Bool :=
  node.replacedBy.isSome || node.display == "space" || node.display == "empty"

end TraceNode

/-- A trace. -/
structure Trace where
  input : String
  grammar : Grammar
  nodes : Array TraceNode
  cst : Array CstNode
  root : TraceId

namespace Trace

/-- A step by its place. -/
def node? (t : Trace) (id : TraceId) : Option TraceNode :=
  t.nodes[id.index]?

/-- A node of the syntax tree by its place. -/
def cstNode? (t : Trace) (id : CstId) : Option CstNode :=
  t.cst[id.index]?

/-- The steps below a step. -/
def children (t : Trace) (id : TraceId) : List TraceId :=
  ((t.node? id).map TraceNode.children).getD []

/-- The nodes below a node of the syntax tree. -/
def cstChildren (t : Trace) (id : CstId) : List CstId :=
  ((t.cstNode? id).map CstNode.children).getD []

/-- Whether the match succeeded. -/
def succeeded (t : Trace) : Bool :=
  (t.node? t.root).any TraceNode.succeeded

/-- The input in an interval, which is empty where the interval is not one of the input. -/
def text (t : Trace) (i : Interval) : String :=
  String.ofList ((Text.slice? t.input.toList i.start i.stop).getD [])

end Trace

end ParseActions
