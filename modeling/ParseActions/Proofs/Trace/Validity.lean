import ParseActions.Proofs.Except
import ParseActions.Proofs.Graph.Cycle
import ParseActions.Trace.Validity

/-!
# What validation finds

A trace in which validation finds no fault is valid. Its syntax tree has no cycles, so there is
recursion on the nodes below a node.

## Main definitions

* `Trace.sample`: a valid trace in which a node of the syntax tree is found twice

## Main results

* `Trace.valid_of_validate`: a trace without a reported fault is valid
* `Trace.Valid.wellFounded`, `Trace.Valid.tree_induction`: recursion and induction on the nodes
  below a node of the syntax tree
-/

namespace ParseActions

namespace Trace

variable {t : Trace}

theorem checkStep_eq_ok {id : TraceId} {node : TraceNode} :
    t.checkStep id = .ok node ↔ t.node? id = some node := by
  rw [checkStep]
  cases t.node? id <;> simp

theorem checkTree_eq_ok {id : CstId} {node : CstNode} :
    t.checkTree id = .ok node ↔ t.cstNode? id = some node := by
  rw [checkTree]
  cases t.cstNode? id <;> simp

theorem checkInterval_eq_ok {name : NodeName} {i : Interval} :
    t.checkInterval name i = .ok () ↔ t.InInput i := by
  rw [checkInterval, InInput]
  split_ifs with h <;> simp <;> omega

/-- A step without a fault. -/
theorem checkNode_eq_ok {id : TraceId} {node : TraceNode} :
    t.checkNode id node = .ok () ↔
      t.InInput node.interval ∧
      (∀ other ∈ node.replacedBy, ∃ below, t.node? other = some below) ∧
      (∀ other ∈ node.cst, ∃ below, t.cstNode? other = some below) ∧
      ∀ child ∈ node.children, ∃ below, t.node? child = some below ∧
        (node.succeeded → below.succeeded → node.interval.contains below.interval) := by
  rw [checkNode, Except.check_bind_eq_ok, Except.check_bind_eq_ok, Except.check_bind_eq_ok,
    checkInterval_eq_ok, Except.option_forM_eq_ok, Except.option_forM_eq_ok, Except.list_forM_eq_ok]
  simp [Except.bind_eq_ok, checkStep_eq_ok, checkTree_eq_ok, pure, Except.pure]

/-- A node of the syntax tree without a fault. -/
theorem checkCstNode_eq_ok {id : CstId} {node : CstNode} :
    t.checkCstNode id node = .ok () ↔
      t.InInput node.interval ∧
      ∀ child ∈ node.children, ∃ below, t.cstNode? child = some below ∧
        node.interval.contains below.interval := by
  rw [checkCstNode, Except.check_bind_eq_ok, checkInterval_eq_ok, Except.list_forM_eq_ok]
  simp [Except.bind_eq_ok, checkTree_eq_ok, pure, Except.pure]

/-- No node of either arena is below itself. -/
theorem checkAcyclic_eq_ok :
    t.checkAcyclic = .ok () ↔
      Graph.firstCycle? t.nodes.size t.stepGraph = none ∧
      Graph.firstCycle? t.cst.size t.treeGraph = none := by
  rw [checkAcyclic]
  cases Graph.firstCycle? t.nodes.size t.stepGraph <;>
    cases Graph.firstCycle? t.cst.size t.treeGraph <;> simp

/-- **Validation finds no fault** when there are steps, the first one of the match exists, and no
check finds a fault. -/
theorem validate_eq_ok :
    t.validate = .ok () ↔
      t.nodes ≠ #[] ∧ (∃ node, t.node? t.root = some node) ∧
      (∀ p ∈ t.nodes.toList.zipIdx, t.checkNode ⟨p.2⟩ p.1 = .ok ()) ∧
      (∀ p ∈ t.cst.toList.zipIdx, t.checkCstNode ⟨p.2⟩ p.1 = .ok ()) ∧
      t.checkAcyclic = .ok () := by
  rw [validate]
  by_cases h : t.nodes = #[]
  · simp [h, bind, Except.bind]
  · simp only [Array.isEmpty_iff, h, if_false]
    rw [Except.bind_eq_ok]
    simp only [checkStep_eq_ok, Except.check_bind_eq_ok, Except.list_forM_eq_ok]
    rw [exists_and_right]
    exact (and_iff_right h).symm

/-- Every element of an array has its place. -/
theorem mem_zipIdx_of_mem {α : Type} {xs : Array α} {a : α} (h : a ∈ xs) :
    ∃ n, (a, n) ∈ xs.toList.zipIdx := by
  obtain ⟨n, hn⟩ := List.mem_iff_getElem?.mp (Array.mem_toList_iff.mpr h)
  exact ⟨n, List.mem_zipIdx_iff_getElem?.mpr hn⟩

theorem index_lt_of_node? {id : TraceId} {node : TraceNode} (h : t.node? id = some node) :
    id.index < t.nodes.size :=
  (Array.getElem?_eq_some_iff.mp h).1

theorem index_lt_of_cstNode? {id : CstId} {node : CstNode} (h : t.cstNode? id = some node) :
    id.index < t.cst.size :=
  (Array.getElem?_eq_some_iff.mp h).1

theorem mem_of_cstNode? {id : CstId} {node : CstNode} (h : t.cstNode? id = some node) :
    node ∈ t.cst :=
  Array.mem_of_getElem? h

theorem cstChildren_of_cstNode? {id : CstId} {node : CstNode} (h : t.cstNode? id = some node) :
    t.cstChildren id = node.children := by
  rw [cstChildren, h]
  rfl

theorem mem_stepGraph {n c : Nat} :
    c ∈ t.stepGraph n ↔ ∃ node, t.nodes[n]? = some node ∧ ∃ id ∈ node.children, id.index = c := by
  rw [stepGraph, children, node?, List.mem_map]
  cases t.nodes[n]? <;> simp

theorem mem_treeGraph {n c : Nat} :
    c ∈ t.treeGraph n ↔ ∃ node, t.cst[n]? = some node ∧ ∃ id ∈ node.children, id.index = c := by
  rw [treeGraph, cstChildren, cstNode?, List.mem_map]
  cases t.cst[n]? <;> simp

/-- The children of steps are steps. -/
theorem stepGraph_lt
    (h : ∀ node ∈ t.nodes, ∀ id ∈ node.children, id.index < t.nodes.size) :
    ∀ n < t.nodes.size, ∀ c ∈ t.stepGraph n, c < t.nodes.size := by
  intro n _ c hc
  obtain ⟨node, hnode, id, hid, rfl⟩ := mem_stepGraph.mp hc
  exact h node (Array.mem_of_getElem? hnode) id hid

/-- The children of nodes of the syntax tree are nodes of it. -/
theorem treeGraph_lt
    (h : ∀ node ∈ t.cst, ∀ id ∈ node.children, id.index < t.cst.size) :
    ∀ n < t.cst.size, ∀ c ∈ t.treeGraph n, c < t.cst.size := by
  intro n _ c hc
  obtain ⟨node, hnode, id, hid, rfl⟩ := mem_treeGraph.mp hc
  exact h node (Array.mem_of_getElem? hnode) id hid

/-- Steps have no cycles if each was made after the ones below it. -/
theorem acyclic_of_children_lt
    (h : ∀ (n : Nat) (node : TraceNode), t.nodes[n]? = some node →
      ∀ id ∈ node.children, id.index < n) :
    Graph.Acyclic t.nodes.size t.stepGraph := by
  refine Graph.acyclic_of_rank id fun n c hc => ?_
  obtain ⟨node, hnode, id, hid, rfl⟩ := mem_stepGraph.mp hc
  exact h n node hnode id hid

/-- A syntax tree has no cycles if each node was made after the ones below it. -/
theorem treeAcyclic_of_children_lt
    (h : ∀ (n : Nat) (node : CstNode), t.cst[n]? = some node →
      ∀ id ∈ node.children, id.index < n) :
    Graph.Acyclic t.cst.size t.treeGraph := by
  refine Graph.acyclic_of_rank id fun n c hc => ?_
  obtain ⟨node, hnode, id, hid, rfl⟩ := mem_treeGraph.mp hc
  exact h n node hnode id hid

theorem validated_eq_ok {t' : Trace} : t.validated = .ok t' ↔ t.validate = .ok () ∧ t = t' := by
  rw [validated]
  cases t.validate with
  | error e => exact ⟨nofun, fun h => nomatch h.1⟩
  | ok _ => exact ⟨fun h => ⟨rfl, Except.ok.inj h⟩, fun h => congrArg Except.ok h.2⟩

/-- Every step is checked. -/
theorem checkNode_of_mem (h : ∀ p ∈ t.nodes.toList.zipIdx, t.checkNode ⟨p.2⟩ p.1 = .ok ())
    {node : TraceNode} (hmem : node ∈ t.nodes) : ∃ n, t.checkNode ⟨n⟩ node = .ok () := by
  obtain ⟨n, hn⟩ := mem_zipIdx_of_mem hmem
  exact ⟨n, h _ hn⟩

/-- Every node of the syntax tree is checked. -/
theorem checkCstNode_of_mem (h : ∀ p ∈ t.cst.toList.zipIdx, t.checkCstNode ⟨p.2⟩ p.1 = .ok ())
    {node : CstNode} (hmem : node ∈ t.cst) : ∃ n, t.checkCstNode ⟨n⟩ node = .ok () := by
  obtain ⟨n, hn⟩ := mem_zipIdx_of_mem hmem
  exact ⟨n, h _ hn⟩

/-- The steps below steps that were checked exist. -/
theorem children_lt_of_checkNode
    (h : ∀ p ∈ t.nodes.toList.zipIdx, t.checkNode ⟨p.2⟩ p.1 = .ok ()) :
    ∀ node ∈ t.nodes, ∀ id ∈ node.children, id.index < t.nodes.size := by
  intro node hmem id hid
  obtain ⟨n, hcheck⟩ := checkNode_of_mem h hmem
  obtain ⟨-, -, -, hchildren⟩ := checkNode_eq_ok.mp hcheck
  obtain ⟨below, hbelow, -⟩ := hchildren id hid
  exact index_lt_of_node? hbelow

/-- The nodes below nodes of the syntax tree that were checked exist. -/
theorem children_lt_of_checkCstNode
    (h : ∀ p ∈ t.cst.toList.zipIdx, t.checkCstNode ⟨p.2⟩ p.1 = .ok ()) :
    ∀ node ∈ t.cst, ∀ id ∈ node.children, id.index < t.cst.size := by
  intro node hmem id hid
  obtain ⟨n, hcheck⟩ := checkCstNode_of_mem h hmem
  obtain ⟨-, hchildren⟩ := checkCstNode_eq_ok.mp hcheck
  obtain ⟨below, hbelow, -⟩ := hchildren id hid
  exact index_lt_of_cstNode? hbelow

/-- **A trace without a reported fault is valid.** -/
theorem valid_of_validate (h : t.validate = .ok ()) : t.Valid := by
  obtain ⟨-, ⟨root, hroot⟩, hnodes, hcst, hacyclic⟩ := validate_eq_ok.mp h
  obtain ⟨hsteps, htree⟩ := checkAcyclic_eq_ok.mp hacyclic
  -- what the checks find holds of each node, as each has its place in the arena
  have hnode (node : TraceNode) (hmem : node ∈ t.nodes) :=
    checkNode_eq_ok.mp (checkNode_of_mem hnodes hmem).choose_spec
  have hcstNode (node : CstNode) (hmem : node ∈ t.cst) :=
    checkCstNode_eq_ok.mp (checkCstNode_of_mem hcst hmem).choose_spec
  have hchildren := children_lt_of_checkNode hnodes
  have htreeChildren := children_lt_of_checkCstNode hcst
  exact {
    root := index_lt_of_node? hroot
    steps := fun node hmem => (hnode node hmem).1
    replaced := fun node hmem id hid =>
      let ⟨_, hbelow⟩ := (hnode node hmem).2.1 id hid
      index_lt_of_node? hbelow
    linked := fun node hmem id hid =>
      let ⟨_, hbelow⟩ := (hnode node hmem).2.2.1 id hid
      index_lt_of_cstNode? hbelow
    children := hchildren
    nested := by
      intro node hmem id hid below hbelow
      obtain ⟨below', hbelow', hcontains⟩ := (hnode node hmem).2.2.2 id hid
      obtain rfl := Option.some.inj (hbelow'.symm.trans hbelow)
      exact hcontains
    tree := fun node hmem => (hcstNode node hmem).1
    treeChildren := htreeChildren
    treeNested := by
      intro node hmem id hid below hbelow
      obtain ⟨below', hbelow', hcontains⟩ := (hcstNode node hmem).2 id hid
      obtain rfl := Option.some.inj (hbelow'.symm.trans hbelow)
      exact hcontains
    acyclic := Graph.acyclic_of_firstCycle?_eq_none (stepGraph_lt hchildren) hsteps
    treeAcyclic := Graph.acyclic_of_firstCycle?_eq_none (treeGraph_lt htreeChildren) htree }

/-- The match of a rule `Twice` with the body `&letter letter`, whose factors find one node. -/
def sample : Trace where
  input := "a"
  grammar := .empty
  nodes := #[⟨.of (.apply "Twice"), ⟨0, 1⟩, [⟨1⟩], true, none, "Twice", some ⟨0⟩⟩,
    ⟨.of (.apply "letter"), ⟨0, 1⟩, [], true, none, "letter", some ⟨1⟩⟩]
  cst := #[⟨.nonterminal "Twice", ⟨0, 1⟩, [⟨1⟩, ⟨1⟩]⟩, ⟨.nonterminal "letter", ⟨0, 1⟩, [⟨2⟩]⟩,
    ⟨.terminal, ⟨0, 1⟩, []⟩]
  root := ⟨0⟩

theorem validate_sample : sample.validate = .ok () := by
  have hchecks : sample.validate = sample.checkAcyclic := rfl
  rw [hchecks, checkAcyclic_eq_ok]
  constructor
  · cbv
  · cbv

namespace Valid

/-- The children of a node of the syntax tree exist. -/
theorem exists_child (h : t.Valid) {id child : CstId} {node : CstNode}
    (hnode : t.cstNode? id = some node) (hchild : child ∈ node.children) :
    ∃ below, t.cstNode? child = some below :=
  ⟨_, Array.getElem?_eq_getElem (h.treeChildren node (mem_of_cstNode? hnode) child hchild)⟩

/-- Going down the syntax tree ends. -/
theorem wellFounded (h : t.Valid) : WellFounded fun child id => child ∈ t.cstChildren id := by
  have hout (n : Nat) (hn : t.cst.size ≤ n) : t.treeGraph n = [] := by
    have hnone : t.cstNode? ⟨n⟩ = none := Array.getElem?_eq_none hn
    rw [treeGraph, cstChildren, hnone]
    rfl
  have hwf := Graph.wellFounded_of_acyclic (treeGraph_lt h.treeChildren) hout h.treeAcyclic
  exact Subrelation.wf (fun hchild => List.mem_map_of_mem hchild) (InvImage.wf CstId.index hwf)

/-- **Induction on the nodes below a node** of the syntax tree. -/
theorem tree_induction (h : t.Valid) {P : CstId → Prop}
    (step : ∀ id, (∀ child ∈ t.cstChildren id, P child) → P id) (id : CstId) : P id :=
  h.wellFounded.induction id step

end Valid

end Trace

end ParseActions
