import ParseActions.Eval.Error
import ParseActions.Trace.Basic

/-!
# Results of nodes

The result of a node under an action is kept under a key, which has the name and the ends of the
node. Nodes that agree in these share a result.

A memo holds what is known of the results of nodes, and two lists of nodes whose rule has no body:
those that pass the result of their only child on, and those for which a body is still to be
written. While any body is missing, errors count as failures.

## Main definitions

* `NodeKey`, `NodeKey.of`: a key, and the key of a node
* `NodeKey.display`: a key as text
* `Outcome`: what is known of a result
* `Memo`: the results and the two lists
* `Memo.permissive`: whether errors count as failures
-/

namespace ParseActions

/-! ## Keys -/

/-- The key of the result of a node under an action. -/
structure NodeKey where
  /-- The rule that the node applies, or the name of its kind. -/
  constructor : String
  start : Nat
  stop : Nat
  action : String
  deriving DecidableEq, Inhabited

namespace NodeKey

/-- The key of a node under an action. -/
def of (node : CstNode) (action : String) : NodeKey :=
  ⟨node.constructor, node.interval.start, node.interval.stop, action⟩

/-- Keys are in the order of their parts. -/
instance : Ord NodeKey where
  compare a b :=
    (compare a.constructor b.constructor).then <| (compare a.start b.start).then <|
      (compare a.stop b.stop).then (compare a.action b.action)

/-- A key as text. -/
def display (key : NodeKey) : String :=
  key.constructor ++ s!"_from_{key.start}_to_{key.stop}_at_" ++ key.action

end NodeKey

/-! ## Outcomes -/

/-- An error, and the node whose body raised it. -/
structure RaisedError where
  origin : NodeKey
  error : EvalError

/-- An error is shown with its origin. -/
def RaisedError.display (e : RaisedError) : String :=
  e.error.message ++ " (at " ++ e.origin.display ++ ")"

/-- What is known of a result. -/
inductive Outcome where
  /-- The evaluation has begun and not ended. -/
  | pending
  /-- The node, or one below it, has no value. -/
  | failed
  /-- A body raised an error. -/
  | errored (e : RaisedError)
  | succeeded (value : Value)

namespace Outcome

/-- Whether there is no value, and no error to tell why. -/
def isFailed : Outcome → Bool
  | failed => true
  | _ => false

/-- The value. -/
def value? : Outcome → Option Value
  | succeeded v => some v
  | _ => none

/-- The error. -/
def error? : Outcome → Option RaisedError
  | errored e => some e
  | _ => none

/-- The outcome of a child as it reaches the node above: where errors count as failures, an error
becomes one. -/
def propagated (permissive : Bool) : Outcome → Outcome
  | errored e => if permissive then failed else errored e
  | outcome => outcome

end Outcome

/-- The results of nodes. -/
structure Memo where
  /-- What is known, in the order of the keys. -/
  entries : List (NodeKey × Outcome)
  /-- The nodes that lack a body. -/
  todo : List NodeKey
  /-- The nodes that pass the result of their only child on. -/
  passThrough : List NodeKey
  /-- How often the evaluation of a node has begun. -/
  evaluations : Nat

namespace Memo

/-- Nothing is known. -/
def empty : Memo :=
  ⟨[], [], [], 0⟩

instance : Inhabited Memo := ⟨empty⟩

/-- What is known of a result. -/
def get? (m : Memo) (key : NodeKey) : Option Outcome :=
  Keyed.find? key m.entries

/-- Whether anything is known of a result. -/
def has (m : Memo) (key : NodeKey) : Bool :=
  (m.get? key).isSome

/-- Whether a node is known to have failed. -/
def isFailed (m : Memo) (key : NodeKey) : Bool :=
  (m.get? key).any Outcome.isFailed

/-- Records an outcome. -/
def set (m : Memo) (key : NodeKey) (outcome : Outcome) : Memo :=
  { m with entries := Keyed.insert key outcome m.entries }

/-- Adds a key at the end of a list, unless it is there. -/
def addNew (keys : List NodeKey) (key : NodeKey) : List NodeKey :=
  if key ∈ keys then keys else keys ++ [key]

/-- Lists a node that lacks a body. -/
def addTodo (m : Memo) (key : NodeKey) : Memo :=
  { m with todo := addNew m.todo key }

/-- Lists a node that passes a result on. -/
def addPassThrough (m : Memo) (key : NodeKey) : Memo :=
  { m with passThrough := addNew m.passThrough key }

/-- Begins an evaluation. -/
def start (m : Memo) (key : NodeKey) : Memo :=
  { m.set key .pending with evaluations := m.evaluations + 1 }

/-- Whether errors count as failures: some body is still to be written. -/
def permissive (m : Memo) : Bool :=
  !m.todo.isEmpty

end Memo

end ParseActions
