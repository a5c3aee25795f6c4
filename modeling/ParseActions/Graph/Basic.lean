/-!
# Finite graphs

A graph on the numbers below `size` is given by the list of children of each number. Depth-first
search opens a node before its children and closes it after them; a child that is found open closes
a cycle.

A descent goes from a node of a graph down to its children and back. When it may go down a given
number of levels, the steps it takes are bounded, even if a node can be reached in several ways.

## Main definitions

* `Graph.Mark`: what the search knows of a node
* `Graph.explore`: the search from the nodes on a stack
* `Graph.firstCycle?`: a node on a cycle, if there is a cycle
* `Graph.Reaches`: reachability by at least one step
* `Graph.descentSize`: a bound on the steps of a descent
-/

namespace ParseActions.Graph

/-! ## Cycles -/

/-- What a search knows of a node. -/
inductive Mark where
  | new
  | opened
  | closed
  deriving DecidableEq

/-- A node that is open, and the children of it that have not been looked at. -/
structure Frame where
  node : Nat
  rest : List Nat

/-- The children that are left to be looked at, and the frames to be closed. -/
def pendingWork : List Frame → Nat
  | [] => 0
  | f :: frames => f.rest.length + 1 + pendingWork frames

/-- Opening a new node leaves fewer new nodes. -/
theorem count_opened_lt {marks : Array Mark} {c : Nat} (h : c < marks.size)
    (hnew : marks[c] = .new) :
    (marks.set c .opened).count .new < marks.count .new := by
  have hpos : 0 < marks.count .new := by
    rw [Array.count_pos_iff]
    exact hnew ▸ Array.getElem_mem h
  have hopened : (Mark.opened == Mark.new) = false := rfl
  rw [Array.count_set h, hnew, beq_self_eq_true, hopened, if_pos rfl, if_neg Bool.false_ne_true]
  exact Nat.sub_lt hpos Nat.one_pos

/-- Closing a node leaves no more new nodes. -/
theorem count_closed_le (marks : Array Mark) (n : Nat) :
    (marks.setIfInBounds n .closed).count .new ≤ marks.count .new := by
  by_cases h : n < marks.size
  · have hclosed : (Mark.closed == Mark.new) = false := rfl
    rw [Array.setIfInBounds, dif_pos h, Array.count_set h, hclosed, if_neg Bool.false_ne_true]
    exact Nat.sub_le _ _
  · have hsame : marks.setIfInBounds n .closed = marks := dif_neg h
    exact Nat.le_of_eq (congrArg (Array.count Mark.new) hsame)

/-- A pair decreases when its first part does not grow and its second part decreases. -/
theorem lex_of_le_of_lt {a b c d : Nat} (h : a ≤ b) (h' : c < d) :
    Prod.Lex (· < ·) (· < ·) (a, c) (b, d) := by
  rcases Nat.lt_or_eq_of_le h with h | rfl
  · exact Prod.Lex.left _ _ h
  · exact Prod.Lex.right _ h'

/-- Searches from the open nodes on the stack. The outcome is a node on a cycle, or what is known of
the nodes in the end. Numbers that are no nodes are passed over. -/
def explore (children : Nat → List Nat) (marks : Array Mark) : List Frame → Except Nat (Array Mark)
  | [] => .ok marks
  | ⟨node, []⟩ :: frames => explore children (marks.setIfInBounds node .closed) frames
  | ⟨node, c :: rest⟩ :: frames =>
    if h : c < marks.size then
      match hm : marks[c] with
      | .opened => .error c
      | .new =>
        explore children (marks.set c .opened) (⟨c, children c⟩ :: ⟨node, rest⟩ :: frames)
      | .closed => explore children marks (⟨node, rest⟩ :: frames)
    else explore children marks (⟨node, rest⟩ :: frames)
termination_by frames => (marks.count .new, pendingWork frames)
decreasing_by
  · exact lex_of_le_of_lt (count_closed_le _ _) (by simp [pendingWork])
  · exact Prod.Lex.left _ _ (count_opened_lt h hm)
  · exact Prod.Lex.right _ (by simp [pendingWork])
  · exact Prod.Lex.right _ (by simp [pendingWork])

/-- Searches from each of the given nodes that is still new. -/
def exploreAll (children : Nat → List Nat) : (starts : List Nat) → Array Mark →
    Except Nat (Array Mark)
  | [], marks => .ok marks
  | start :: starts, marks =>
    if marks[start]? = some .new then
      match explore children (marks.setIfInBounds start .opened) [⟨start, children start⟩] with
      | .error c => .error c
      | .ok marks => exploreAll children starts marks
    else exploreAll children starts marks

/-- A node that lies on a cycle, if there is one. -/
def firstCycle? (size : Nat) (children : Nat → List Nat) : Option Nat :=
  match exploreAll children (List.range size) (Array.replicate size .new) with
  | .error c => some c
  | .ok _ => none

/-- Reachability by at least one step. -/
inductive Reaches (children : Nat → List Nat) : Nat → Nat → Prop where
  | step {a b : Nat} : b ∈ children a → Reaches children a b
  | tail {a b c : Nat} : Reaches children a b → c ∈ children b → Reaches children a c

/-- No node below `size` is reachable from itself. -/
def Acyclic (size : Nat) (children : Nat → List Nat) : Prop :=
  ∀ n < size, ¬ Reaches children n n

/-! ## Bounded descents -/

variable {α : Type}

/-- A bound on the steps of a descent to nodes and, in `room` levels, to the nodes below them. -/
def descentSize (children : α → List α) : (room : Nat) → List α → Nat
  | 0, nodes => nodes.length
  | room + 1, nodes =>
    nodes.foldr (fun n size => descentSize children room (children n) + 2 + size) 0

@[simp] theorem descentSize_nil (children : α → List α) (room : Nat) :
    descentSize children room [] = 0 := by
  cases room <;> rfl

/-- Leaving out the first node leaves fewer steps. -/
theorem descentSize_lt_cons (children : α → List α) (room : Nat) (n : α) (rest : List α) :
    descentSize children room rest < descentSize children room (n :: rest) := by
  cases room with
  | zero => exact Nat.lt_succ_self _
  | succ room =>
    simp only [descentSize, List.foldr_cons]
    omega

/-- Going down to the first node takes at most the steps below it, one to enter it and one to leave
it. -/
theorem descentSize_cons (children : α → List α) (room : Nat) (n : α) (rest : List α) :
    descentSize children (room + 1) (n :: rest) =
      descentSize children room (children n) + 2 + descentSize children (room + 1) rest :=
  rfl

end ParseActions.Graph
