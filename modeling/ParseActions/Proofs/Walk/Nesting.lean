import ParseActions.Proofs.Memo.Nesting
import ParseActions.Proofs.Trace.Verdict
import ParseActions.Proofs.Walk.History

/-!
# How deep recorded values nest

The bound on the nesting of values holds for what bodies build, but a walk also records lists that
repetitions make of the results of their children, and the records and lists that bodies are given.
These are not checked, so a recorded value may nest deeper than the bound, as deep as the syntax
tree allows.

## Main definitions

* `Trace.nestedLists`, `Walk.ofNestedLists`, `Value.nestedLists`: repetitions within repetitions, and
  the lists within lists that they are recorded with

## Main results

* `Walk.depth_of_run`: recorded values nest at most two levels for each node of the syntax tree,
  beyond what values may, and as the nodes below a node allow
* `Walk.depth_ofNestedLists`: no bound holds for all walks
-/

namespace ParseActions

open Footprint (maxDepth)

namespace Walk

variable {w : Walk}

/-- **What a walk records** nests at most two levels for each node of the syntax tree, beyond what
values may. Where outcomes are not used again, or different nodes have different keys, it nests no
deeper than the node allows by recursion on the nodes below it. -/
theorem depth_of_run (ht : w.trace.validate = .ok ()) {action : Action}
    (haction : w.action = some action) (focus : TraceId) (lastEdited : Option NodeKey)
    {key : NodeKey} {v : Value}
    (h : (w.run focus lastEdited).memo.get? key = some (.succeeded v)) :
    (Footprint.of v).depth ≤ maxDepth + 2 * w.trace.cst.size ∧
      (action.kind = .operation ∨ w.trace.Distinct →
        ∃ id node, w.trace.cstNode? id = some node ∧ .of node action.name = key ∧
          (Footprint.of v).depth ≤
            (w.evaluation action).levels (Trace.valid_of_validate ht) id) := by
  have hv := Trace.valid_of_validate ht
  rw [Footprint.depth_of]
  have hleveled (hkeys : action.kind = .operation ∨ w.trace.Distinct) :
      ∃ id node, w.trace.cstNode? id = some node ∧ .of node action.name = key ∧
        v.height ≤ (w.evaluation action).levels hv id := by
    have hrun : (w.evaluation action).Leveled hv (w.run focus lastEdited).memo := by
      refine run_invariant (fun action' haction' id m hm => ?_) .empty focus lastEdited
      obtain rfl := Option.some.inj (haction.symm.trans haction')
      exact (Evaluation.leveled_evaluate hv hkeys id m hm).1
    exact hrun key _ h v rfl
  refine ⟨?_, hleveled⟩
  cases hkind : action.kind with
  | operation =>
    obtain ⟨id, -, -, -, hle⟩ := hleveled (.inl hkind)
    exact hle.trans (Evaluation.levels_le hv id)
  | property =>
    -- each node is evaluated once, whatever its key
    have hrun : Evaluation.Shallow 0 (w.run focus lastEdited).memo := by
      refine run_invariant (fun action' haction' id m hm => ?_) .empty focus lastEdited
      exact (Evaluation.shallow_evaluate (c := w.evaluation action') hv id m 0 hm).1
    have honce := once_of_run hv haction hkind focus lastEdited
    have hcount := honce.evaluations.le.trans honce.evaluations_le
    have hsize : (w.evaluation action).trace.cst.size = w.trace.cst.size := rfl
    have hheight := hrun.nests key _ h v rfl
    omega

end Walk

/-! ## Lists in lists -/

/-- The only child of a repetition is the one before it. -/
def Trace.nestedChildren : Nat → List CstId
  | 0 => []
  | k + 1 => [⟨k⟩]

/-- Repetitions within repetitions, as many as one likes around an empty one. -/
def Trace.nestedLists (n : Nat) : Trace where
  input := ""
  grammar := .empty
  nodes := #[⟨.of (.iter (.of (.terminal "a")) .star), .point 0, [], true, none, "\"a\"*", some ⟨n⟩⟩]
  cst := .ofFn fun k : Fin (n + 1) => ⟨.iter, .point 0, nestedChildren k⟩
  root := ⟨0⟩

namespace Trace

theorem index_lt_of_nestedChildren {k : Nat} {child : CstId} (h : child ∈ nestedChildren k) :
    child.index < k := by
  cases k with
  | zero => cases h
  | succ k =>
    obtain rfl := List.mem_singleton.mp h
    exact Nat.lt_succ_self k

theorem cstNode?_nestedLists {n : Nat} {id : CstId} {node : CstNode} :
    (nestedLists n).cstNode? id = some node ↔
      id.index ≤ n ∧ node = ⟨.iter, .point 0, nestedChildren id.index⟩ := by
  simp only [cstNode?, nestedLists, Array.getElem?_ofFn, Nat.lt_succ_iff]
  split <;> simp_all [eq_comm]

/-- The only step has no steps below it, and is linked to the outermost repetition. -/
theorem of_mem_nodes_nestedLists {n : Nat} {node : TraceNode} (h : node ∈ (nestedLists n).nodes) :
    node.interval = .point 0 ∧ node.children = [] ∧ node.replacedBy = none ∧
      node.cst = some ⟨n⟩ := by
  obtain rfl := Array.mem_singleton.mp h
  exact ⟨rfl, rfl, rfl, rfl⟩

theorem of_mem_cst_nestedLists {n : Nat} {node : CstNode} (h : node ∈ (nestedLists n).cst) :
    ∃ k ≤ n, node = ⟨.iter, .point 0, nestedChildren k⟩ := by
  obtain ⟨k, rfl⟩ := Array.mem_ofFn.mp h
  exact ⟨k, Nat.le_of_lt_succ k.isLt, rfl⟩

theorem size_cst_nestedLists (n : Nat) : (nestedLists n).cst.size = n + 1 :=
  Array.size_ofFn

theorem point_inInput (t : Trace) : t.InInput (.point 0) :=
  ⟨Nat.le_refl 0, Nat.zero_le _⟩

theorem valid_nestedLists (n : Nat) : (nestedLists n).Valid where
  root := Nat.one_pos
  steps node hnode := (of_mem_nodes_nestedLists hnode).1 ▸ point_inInput _
  replaced node hnode id hid := by
    rw [(of_mem_nodes_nestedLists hnode).2.2.1] at hid
    cases hid
  linked node hnode id hid := by
    rw [(of_mem_nodes_nestedLists hnode).2.2.2] at hid
    cases hid
    rw [size_cst_nestedLists]
    exact Nat.lt_succ_self n
  children node hnode id hid := by
    rw [(of_mem_nodes_nestedLists hnode).2.1] at hid
    cases hid
  nested node hnode id hid := by
    rw [(of_mem_nodes_nestedLists hnode).2.1] at hid
    cases hid
  tree node hnode := by
    obtain ⟨k, -, rfl⟩ := of_mem_cst_nestedLists hnode
    exact point_inInput _
  treeChildren node hnode id hid := by
    obtain ⟨k, hk, rfl⟩ := of_mem_cst_nestedLists hnode
    have hlt := index_lt_of_nestedChildren hid
    rw [size_cst_nestedLists]
    omega
  treeNested node hnode id hid below hbelow := by
    obtain ⟨k, hk, rfl⟩ := of_mem_cst_nestedLists hnode
    obtain ⟨-, rfl⟩ := cstNode?_nestedLists.mp hbelow
    rfl
  acyclic := acyclic_of_children_lt fun k node hnode id hid => by
    rw [(of_mem_nodes_nestedLists (Array.mem_of_getElem? hnode)).2.1] at hid
    cases hid
  -- a repetition has a smaller number than the one around it
  treeAcyclic := treeAcyclic_of_children_lt fun k node hnode id hid => by
    have hfound : (nestedLists n).cstNode? ⟨k⟩ = some node := hnode
    obtain ⟨-, rfl⟩ := cstNode?_nestedLists.mp hfound
    exact index_lt_of_nestedChildren hid

end Trace

/-- The evaluation of repetitions within repetitions, under an operation without bodies. -/
def Evaluation.ofNestedLists (n : Nat) : Evaluation :=
  ⟨.nestedLists n, .new "collect" .operation, Machine.defaultLimit⟩

/-- A walk over repetitions within repetitions. -/
def Walk.ofNestedLists (n : Nat) : Walk where
  trace := .nestedLists n
  config := .standard
  action := some (.new "collect" .operation)
  edits := []
  zoomTarget := none

/-- Lists within lists, around an empty one. -/
def Value.nestedLists : Nat → Value
  | 0 => .list []
  | n + 1 => .list [nestedLists n]

theorem Value.height_nestedLists (n : Nat) : (nestedLists n).height = n + 1 := by
  induction n with
  | zero => rfl
  | succ n ih => simp [nestedLists, height, heights, ih]

namespace Walk

theorem evaluate_nestedLists {n k : Nat} (h : k ≤ n) (m : Memo) :
    ((Evaluation.ofNestedLists n).evaluate ⟨k⟩ m).1 = .succeeded (.nestedLists k) := by
  have hv : (Evaluation.ofNestedLists n).trace.Valid := Trace.valid_nestedLists n
  have hnode {k : Nat} (h : k ≤ n) : (Evaluation.ofNestedLists n).trace.cstNode? ⟨k⟩ = some _ :=
    Trace.cstNode?_nestedLists.mpr ⟨h, rfl⟩
  induction k generalizing m with
  | zero =>
    rw [Evaluation.evaluate_of_finished hv (hnode h) rfl (.collect rfl rfl rfl)]
    rfl
  | succ k ih =>
    have hchild := ih (Nat.le_of_succ_le h) (m.start ((Evaluation.ofNestedLists n).keyOf
      ⟨.iter, .point 0, Trace.nestedChildren (k + 1)⟩))
    have hlist := Evaluation.outcomes_singleton (Prod.ext hchild rfl)
      (Outcome.not_isErrored_succeeded _)
    rw [Evaluation.evaluate_of_finished hv (hnode h) rfl (.collect rfl rfl hlist)]
    rfl

/-- What is recorded for the outermost repetition. -/
theorem get?_run_nestedLists (n : Nat) :
    ((ofNestedLists n).run ⟨0⟩ none).memo.get? ⟨"_iter", 0, 0, "collect"⟩ =
      some (.succeeded (.nestedLists n)) := by
  -- no step has a panel, so nothing is evaluated but the first node
  have hmemo : ((ofNestedLists n).run ⟨0⟩ none).memo =
      ((Evaluation.ofNestedLists n).evaluate ⟨n⟩ .empty).2 := rfl
  rw [hmemo, ← evaluate_nestedLists (Nat.le_refl n) .empty]
  exact Evaluation.get?_evaluate (c := .ofNestedLists n) (Trace.valid_nestedLists n)
    (Trace.cstNode?_nestedLists.mpr ⟨Nat.le_refl n, rfl⟩) .empty

theorem depth_of_run_nestedLists :
    (ofNestedLists 2).trace.validate = .ok () ∧
      ((ofNestedLists 2).run ⟨0⟩ none).memo.get? ⟨"_iter", 0, 0, "collect"⟩ =
        some (.succeeded (.nestedLists 2)) ∧
      (Footprint.of (.nestedLists 2)).depth ≤ maxDepth + 2 * (ofNestedLists 2).trace.cst.size ∧
      ∃ id node, (ofNestedLists 2).trace.cstNode? id = some node ∧
        .of node "collect" = (⟨"_iter", 0, 0, "collect"⟩ : NodeKey) ∧
        (Footprint.of (.nestedLists 2)).depth ≤
          (Evaluation.ofNestedLists 2).levels (Trace.valid_nestedLists 2) id := by
  have hvalidate := (Trace.valid_nestedLists 2).validate_eq_ok
  have hrecorded := get?_run_nestedLists 2
  obtain ⟨hbound, hlevels⟩ := depth_of_run hvalidate rfl ⟨0⟩ none hrecorded
  exact ⟨hvalidate, hrecorded, hbound, hlevels (.inl rfl)⟩

/-- **No bound holds for all walks**: repetitions within repetitions are recorded with lists within
lists, as many as one likes. -/
theorem depth_ofNestedLists (n : Nat) : (ofNestedLists n).trace.validate = .ok () ∧
    ((ofNestedLists n).run ⟨0⟩ none).memo.get? ⟨"_iter", 0, 0, "collect"⟩ =
      some (.succeeded (.nestedLists n)) ∧
    (Footprint.of (.nestedLists n)).depth = n + 1 := by
  refine ⟨(Trace.valid_nestedLists n).validate_eq_ok, get?_run_nestedLists n, ?_⟩
  rw [Footprint.depth_of, Value.height_nestedLists]

/-- With as many repetitions within one as values may nest levels, the bound is passed. -/
theorem not_depth_le_maxDepth : (ofNestedLists maxDepth).trace.validate = .ok () ∧
    ((ofNestedLists maxDepth).run ⟨0⟩ none).memo.get? ⟨"_iter", 0, 0, "collect"⟩ =
      some (.succeeded (.nestedLists maxDepth)) ∧
    ¬ (Footprint.of (.nestedLists maxDepth)).depth ≤ maxDepth := by
  obtain ⟨hvalidate, hrecorded, hdepth⟩ := depth_ofNestedLists maxDepth
  refine ⟨hvalidate, hrecorded, ?_⟩
  rw [hdepth]
  exact Nat.not_succ_le_self maxDepth

end Walk

end ParseActions
