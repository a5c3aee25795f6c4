import ParseActions.Action.Basic
import ParseActions.Memo.Basic

/-!
# Evaluating nodes

A node whose rule has a body is evaluated by running the body on the results of its children; a
child that failed counts as nil, and then the node fails all the same. Without a body, a terminal is
its text and a repetition the list of its results; the application of a rule to a single child
passes the result of the child on, and any other one fails and is listed as still to be written.

The nodes whose children are being evaluated wait on a stack.

## Main definitions

* `Evaluation`: a trace, the action that is evaluated, and the limit of gas for each body
* `Evaluation.enter`, `Evaluation.accept`, `Evaluation.close`: what is done with a node
* `Evaluation.step`, `Evaluation.loop`: the loop over the stack, round by round
* `Evaluation.evaluate`: the outcome of a node
-/

namespace ParseActions

/-- What an evaluation does not change. -/
structure Evaluation where
  trace : Trace
  action : Action
  /-- The gas that each run of a body may use. -/
  limit : Nat

namespace Evaluation

/-- How the results of children make the result of a node. -/
inductive Mode where
  | body (a : RuleAction)
  | passThrough
  | collect

/-- The results of children so far. -/
structure Gathered where
  values : Array Value
  /-- Whether a child failed. -/
  failed : Bool

/-- No results. -/
def Gathered.none : Gathered :=
  ⟨#[], false⟩

/-- The first look at a node. -/
inductive Opening where
  /-- The outcome does not need the children, or is known. -/
  | done (outcome : Outcome)
  /-- The children are to be evaluated. -/
  | opened (node : CstNode) (mode : Mode)

variable (c : Evaluation)

/-- The key of a node. -/
def keyOf (node : CstNode) : NodeKey :=
  .of node c.action.name

/-- Records an outcome and gives it. -/
def record (key : NodeKey) (outcome : Outcome) (m : Memo) : Outcome × Memo :=
  (outcome, m.set key outcome)

/-- The outcome that is used again. Operations do not use outcomes again, and nothing uses the
outcome of a node whose evaluation has not ended. -/
def known? (key : NodeKey) (m : Memo) : Option Outcome :=
  match c.action.kind, m.get? key with
  | .operation, _ => none
  | .property, some .pending => none
  | .property, outcome => outcome

/-- Opens a node that is evaluated. -/
def openNode (node : CstNode) (m : Memo) : Opening × Memo :=
  let key := c.keyOf node
  match c.action.body? node.constructor, node.kind with
  | some a, _ => (.opened node (.body a), m)
  | none, .terminal =>
    let (outcome, m) := record key (.succeeded (.string (c.trace.text node.interval))) m
    (.done outcome, m)
  | none, .iter => (.opened node .collect, m)
  | none, .nonterminal _ =>
    if node.children.length = 1 then (.opened node .passThrough, m.addPassThrough key)
    else
      let (outcome, m) := record key .failed (m.addTodo key)
      (.done outcome, m)

/-- Opens a node, unless its outcome is known. A node that does not exist fails. -/
def enter (id : CstId) (m : Memo) : Opening × Memo :=
  match c.trace.cstNode? id with
  | none => (.done .failed, m)
  | some node =>
    match c.known? (c.keyOf node) m with
    | some outcome => (.done outcome, m)
    | none => c.openNode node (m.start (c.keyOf node))

/-- Takes the outcome of a child: either it decides the outcome of the node, or there is one result
more. -/
def accept (mode : Mode) (results : Gathered) (permissive : Bool) :
    Outcome → Except Outcome Gathered
  | .errored e => .error ((Outcome.errored e).propagated permissive)
  | .succeeded v =>
    match mode with
    | .passThrough => .error (.succeeded v)
    | _ => .ok { results with values := results.values.push v }
  | child =>
    match mode with
    | .passThrough => .error child
    | .body _ => .ok { results with values := results.values.push .nil }
    | .collect => .ok { results with failed := true }

/-- The description of a node that its body finds as `this`. -/
def describe (node : CstNode) (args : List Value) : Value :=
  .ofFields [
    ("rule", .string node.constructor),
    ("source", .string (c.trace.text node.interval)),
    ("start", .number (Float.ofNat node.interval.start)),
    ("end", .number (Float.ofNat node.interval.stop)),
    ("args", .list args)]

/-- Whether a child is known to have failed. -/
def anyChildFailed (node : CstNode) (m : Memo) : Bool :=
  node.children.any fun id => (c.trace.cstNode? id).any fun child => m.isFailed (c.keyOf child)

/-- Runs the body for a node on the results of its children. -/
def runBody (a : RuleAction) (node : CstNode) (args : List Value) (m : Memo) : Outcome :=
  match (a.run (a.environment args (c.describe node args)) c.limit).result with
  | .ok value => if c.anyChildFailed node m then .failed else .succeeded value
  | .error e => (Outcome.errored ⟨c.keyOf node, e⟩).propagated m.permissive

/-- The outcome of a node, which a child has decided or the results of all children make. -/
def conclude (node : CstNode) (mode : Mode) (results : Except Outcome Gathered) (m : Memo) :
    Outcome :=
  match results, mode with
  | .error outcome, _ => outcome
  | .ok results, .body a => c.runBody a node results.values.toList m
  | .ok results, .collect =>
    if results.failed then .failed else .succeeded (.list results.values.toList)
  | .ok _, .passThrough => .failed

/-- Concludes a node and records its outcome. -/
def close (node : CstNode) (mode : Mode) (results : Except Outcome Gathered) (m : Memo) :
    Outcome × Memo :=
  record (c.keyOf node) (c.conclude node mode results m) m

/-! ## The loop over a stack -/

/-- A node whose children are being evaluated. -/
structure Frame where
  node : CstNode
  mode : Mode
  results : Gathered
  /-- The children that are left. -/
  rest : List CstId

namespace Frame

/-- A node none of whose children has been evaluated. -/
def start (node : CstNode) (mode : Mode) : Frame :=
  ⟨node, mode, .none, node.children⟩

/-- The results of a node with the outcome of the child that was evaluated last, if there is one. -/
def gathered (f : Frame) (child : Option Outcome) (m : Memo) : Except Outcome Gathered :=
  match child with
  | none => .ok f.results
  | some outcome => accept f.mode f.results m.permissive outcome

end Frame

/-- What the loop changes: the nodes that wait for their children, the topmost one first, the
outcome of the node that was evaluated last, unless the topmost one has just been opened, and the
memo. -/
structure Work where
  stack : List Frame
  child : Option Outcome
  memo : Memo

/-- The nodes that wait when one on top of them has been evaluated. -/
def Work.after (stack : List Frame) (result : Outcome × Memo) : Work :=
  ⟨stack, some result.1, result.2⟩

/-- Enters a node, which waits on top of the stack if it was opened. -/
def descend (id : CstId) (m : Memo) (stack : List Frame) : Work :=
  match c.enter id m with
  | (.opened node mode, m) => ⟨.start node mode :: stack, none, m⟩
  | (.done outcome, m) => .after stack (outcome, m)

/-- One round of the loop: the next child of the topmost node is entered, or the topmost node is
closed. The loop ends when no node waits. -/
def step : Work → Work ⊕ (Outcome × Memo)
  | ⟨[], child, m⟩ => .inr (child.getD .failed, m)
  | ⟨f :: stack, child, m⟩ =>
    match f.gathered child m, f.rest with
    | .ok results, id :: rest => .inl (c.descend id m ({ f with results, rest } :: stack))
    | results, _ => .inl (.after stack (c.close f.node f.mode results m))

instance : Nonempty (Outcome × Memo) :=
  ⟨(.failed, .empty)⟩

/-- The loop. -/
def loop (work : Work) : Outcome × Memo :=
  repeatM (m := Id) c.step work

/-- The outcome of a node. -/
def evaluate (id : CstId) (m : Memo) : Outcome × Memo :=
  c.loop (c.descend id m [])

end Evaluation

end ParseActions
