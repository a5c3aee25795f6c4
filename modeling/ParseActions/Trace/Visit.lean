import ParseActions.Graph.Basic
import ParseActions.Trace.Basic

/-!
# Visiting traces

A trace is visited depth first. A visitor has a state; it is told when a node is entered, decides
whether the nodes below it are visited, and is told when a node that was descended into is left. The
visit keeps the open nodes on a stack. A node may be visited several times, once for each way to it.

## Main definitions

* `Visit`, `Visitor`: what a visitor is told, and what it does
* `Trace.walk`: the visit with a stack
* `Trace.visit`: the visit by recursion
-/

namespace ParseActions

/-- A visited node, the node above it, and its distance from the start. -/
structure Visit where
  node : TraceId
  parent : Option TraceId
  depth : Nat
  deriving DecidableEq

/-- Whether the nodes below a node are visited. -/
inductive Descent where
  | descend
  | skip
  deriving DecidableEq

/-- What is done when nodes are entered and left, on a state. -/
structure Visitor (σ : Type) where
  enter : Visit → σ → Descent × σ
  leave : Visit → σ → σ

namespace Trace

variable {σ : Type} (t : Trace) (v : Visitor σ)

/-- An open node: how deep the visit may still go below it, and the children that are left. -/
structure OpenNode where
  visit : Visit
  room : Nat
  rest : List TraceId

/-- The steps that are left for the open nodes on a stack. -/
def stackSize (t : Trace) : List OpenNode → Nat
  | [] => 0
  | f :: stack => Graph.descentSize t.children f.room f.rest + 1 + stackSize t stack

/-- Visits what is left below the open nodes on a stack. -/
def walkStack : List OpenNode → σ → σ
  | [], s => s
  | ⟨visit, _, []⟩ :: stack, s => walkStack stack (v.leave visit s)
  | ⟨visit, room, child :: rest⟩ :: stack, s =>
    let next : Visit := ⟨child, some visit.node, visit.depth + 1⟩
    match room, v.enter next s with
    | room + 1, (.descend, s) =>
      walkStack (⟨next, room, t.children child⟩ :: ⟨visit, room + 1, rest⟩ :: stack) s
    | room, (_, s) => walkStack (⟨visit, room, rest⟩ :: stack) s
termination_by stack => stackSize t stack
decreasing_by
  · simp [stackSize]
  · simp [stackSize, Graph.descentSize_cons, wfParam]; omega
  · simp [stackSize, Graph.descentSize_lt_cons, wfParam]

/-- Visits the nodes from `start` on. In a trace where no node is below itself, no way down is
longer than the number of nodes. -/
def walk (start : TraceId) (s : σ) : σ :=
  if (t.node? start).isSome then
    match v.enter ⟨start, none, 0⟩ s with
    | (.skip, s) => s
    | (.descend, s) => walkStack t v [⟨⟨start, none, 0⟩, t.nodes.size, t.children start⟩] s
  else s

/-- Visits a node and, in `room` levels, the nodes below it, by recursion. -/
def visitNode : (room : Nat) → Visit → σ → σ
  | 0, visit, s => (v.enter visit s).2
  | room + 1, visit, s =>
    match v.enter visit s with
    | (.skip, s) => s
    | (.descend, s) =>
      v.leave visit ((t.children visit.node).foldl
        (fun s child => visitNode room ⟨child, some visit.node, visit.depth + 1⟩ s) s)

/-- Visits the nodes from `start` on, by recursion. -/
def visit (start : TraceId) (s : σ) : σ :=
  if (t.node? start).isSome then visitNode t v (t.nodes.size + 1) ⟨start, none, 0⟩ s else s

end Trace

end ParseActions
