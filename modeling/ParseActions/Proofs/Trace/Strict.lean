import ParseActions.Proofs.Graph.Strict
import ParseActions.Proofs.Trace.Validity

/-!
# Validation reads no place that is not there

Validation looks whether places are there before it reads them. A strict validation reads them
without a way out: it halts at the first place that is not there. It never halts so, and finds the
fault that validation finds.

## Main definitions

* `Trace.Halt`: how a strict validation ends early
* `Trace.validateStrictly`: the strict validation

## Main results

* `Trace.validateStrictly_eq`: the strict validation finds what validation finds
-/

namespace ParseActions

namespace Trace

/-- How a strict validation ends early: at a fault of the trace, or where it reads a place that is
not there. -/
inductive Halt where
  | fault (e : TraceError)
  | outside

/-- Reads a place of an arena. -/
def read {α : Type} (arena : Array α) (place : Nat) : Except Halt α :=
  match arena[place]? with
  | some a => .ok a
  | none => .error .outside

/-- Checks a step, and reads the steps below it when they were found to exist. -/
def checkNodeStrictly (t : Trace) (id : TraceId) (node : TraceNode) : Except Halt Unit := do
  (t.checkInterval (.step id) node.interval).mapError .fault
  node.replacedBy.forM fun other => do let _ ← (t.checkStep other).mapError .fault
  node.cst.forM fun other => do let _ ← (t.checkTree other).mapError .fault
  node.children.forM fun child => do
    let _ ← (t.checkStep child).mapError .fault
    let below ← read t.nodes child.index
    if node.succeeded && below.succeeded && !node.interval.contains below.interval then
      .error (.fault
        (.childOutsideParent (.step id) node.interval (.step child) below.interval))

/-- Checks a node of the syntax tree, and reads the nodes below it when they were found to exist. -/
def checkCstNodeStrictly (t : Trace) (id : CstId) (node : CstNode) : Except Halt Unit := do
  (t.checkInterval (.tree id) node.interval).mapError .fault
  node.children.forM fun child => do
    let _ ← (t.checkTree child).mapError .fault
    let below ← read t.cst child.index
    if !node.interval.contains below.interval then
      .error (.fault
        (.childOutsideParent (.tree id) node.interval (.tree child) below.interval))

/-- The steps below a step, by number, if the step exists. -/
def stepChildren? (t : Trace) (n : Nat) : Option (List Nat) :=
  t.nodes[n]?.map fun node => node.children.map TraceId.index

/-- The nodes below a node of the syntax tree, by number, if the node exists. -/
def treeChildren? (t : Trace) (n : Nat) : Option (List Nat) :=
  t.cst[n]?.map fun node => node.children.map CstId.index

/-- Searches both arenas for cycles. -/
def checkAcyclicStrictly (t : Trace) : Except Halt Unit :=
  match Graph.firstCycleStrictly t.nodes.size t.stepChildren? with
  | none => .error .outside
  | some (some n) => .error (.fault (.stepCycle ⟨n⟩))
  | some none =>
    match Graph.firstCycleStrictly t.cst.size t.treeChildren? with
    | none => .error .outside
    | some (some n) => .error (.fault (.treeCycle ⟨n⟩))
    | some none => .ok ()

/-- The first fault of a trace, unless a place is read that is not there. -/
def validateStrictly (t : Trace) : Except Halt Unit := do
  if t.nodes.isEmpty then .error (.fault .empty)
  let _ ← (t.checkStep t.root).mapError .fault
  t.nodes.toList.zipIdx.forM fun (node, n) => t.checkNodeStrictly ⟨n⟩ node
  t.cst.toList.zipIdx.forM fun (node, n) => t.checkCstNodeStrictly ⟨n⟩ node
  t.checkAcyclicStrictly

variable {t : Trace}

/-- A step that was found to exist is read. -/
theorem read_nodes {id : TraceId} {node : TraceNode} (h : t.checkStep id = .ok node) :
    read t.nodes id.index = .ok node := by
  have hnode : t.nodes[id.index]? = some node := checkStep_eq_ok.mp h
  rw [read, hnode]

/-- A node of the syntax tree that was found to exist is read. -/
theorem read_cst {id : CstId} {node : CstNode} (h : t.checkTree id = .ok node) :
    read t.cst id.index = .ok node := by
  have hnode : t.cst[id.index]? = some node := checkTree_eq_ok.mp h
  rw [read, hnode]

/-- The strict check of a step finds what the check finds. -/
theorem checkNodeStrictly_eq (id : TraceId) (node : TraceNode) :
    t.checkNodeStrictly id node = (t.checkNode id node).mapError .fault := by
  rw [checkNodeStrictly, checkNode]
  simp only [Except.mapError_bind, Except.mapError_option_forM, Except.mapError_list_forM]
  refine Except.bind_congr_ok fun _ _ => Except.bind_congr_ok fun _ _ =>
    Except.bind_congr_ok fun _ _ => congrArg _ (funext fun child => ?_)
  cases hstep : t.checkStep child with
  | error e => rfl
  | ok below =>
    simp only [Except.mapError, bind, Except.bind, read_nodes hstep]
    split
    · rfl
    · rfl

/-- The strict check of a node of the syntax tree finds what the check finds. -/
theorem checkCstNodeStrictly_eq (id : CstId) (node : CstNode) :
    t.checkCstNodeStrictly id node = (t.checkCstNode id node).mapError .fault := by
  rw [checkCstNodeStrictly, checkCstNode]
  simp only [Except.mapError_bind, Except.mapError_list_forM]
  refine Except.bind_congr_ok fun _ _ => congrArg _ (funext fun child => ?_)
  cases htree : t.checkTree child with
  | error e => rfl
  | ok below =>
    simp only [Except.mapError, bind, Except.bind, read_cst htree]
    split
    · rfl
    · rfl

/-- Where the children of all nodes are nodes, the strict search for cycles finds what the search
finds. -/
theorem checkAcyclicStrictly_eq
    (hsteps : ∀ node ∈ t.nodes, ∀ id ∈ node.children, id.index < t.nodes.size)
    (htree : ∀ node ∈ t.cst, ∀ id ∈ node.children, id.index < t.cst.size) :
    t.checkAcyclicStrictly = t.checkAcyclic.mapError .fault := by
  have hstepChildren : ∀ n < t.nodes.size, t.stepChildren? n = some (t.stepGraph n) := by
    intro n hn
    have hnode : t.node? ⟨n⟩ = some t.nodes[n] := Array.getElem?_eq_getElem hn
    rw [stepGraph, children, hnode, stepChildren?, Array.getElem?_eq_getElem hn]
    rfl
  have htreeChildren : ∀ n < t.cst.size, t.treeChildren? n = some (t.treeGraph n) := by
    intro n hn
    have hnode : t.cstNode? ⟨n⟩ = some t.cst[n] := Array.getElem?_eq_getElem hn
    rw [treeGraph, cstChildren, hnode, treeChildren?, Array.getElem?_eq_getElem hn]
    rfl
  rw [checkAcyclicStrictly, checkAcyclic,
    Graph.firstCycleStrictly_eq (stepGraph_lt hsteps) hstepChildren,
    Graph.firstCycleStrictly_eq (treeGraph_lt htree) htreeChildren]
  cases Graph.firstCycle? t.nodes.size t.stepGraph with
  | some n => rfl
  | none =>
    cases Graph.firstCycle? t.cst.size t.treeGraph with
    | some n => rfl
    | none => rfl

/-- **The strict validation reads no place that is not there**, and finds the fault that validation
finds. -/
theorem validateStrictly_eq (t : Trace) :
    t.validateStrictly = t.validate.mapError .fault := by
  rw [validateStrictly, validate]
  split
  · rfl
  · simp only [Except.mapError_bind, Except.mapError_list_forM, checkNodeStrictly_eq,
      checkCstNodeStrictly_eq]
    refine Except.bind_congr_ok fun _ _ => Except.bind_congr_ok fun _ hnodes =>
      Except.bind_congr_ok fun _ hcst => ?_
    -- the search for cycles comes after the checks, which found that all children exist
    rw [← Except.mapError_list_forM, Except.mapError_eq_ok, Except.list_forM_eq_ok] at hnodes hcst
    exact checkAcyclicStrictly_eq (children_lt_of_checkNode hnodes)
      (children_lt_of_checkCstNode hcst)

end Trace

end ParseActions
