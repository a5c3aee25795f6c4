import ParseActions.Proofs.Graph.Path
import ParseActions.Proofs.Trace.Strict

/-!
# What validation decides

Validation finds no fault exactly in the traces that are valid. A cycle that it reports is one: the
node that is named is below itself. It reads no place that is not there.

## Main definitions

* `TraceError.IsCycle`: the fault is a cycle

## Main results

* `Trace.Valid.validate_eq_ok`: a valid trace has no fault
* `Trace.checkAcyclic_of_validate`: cycles are searched for after all other checks
* `Trace.validate_decides`: what validation finds, and what it means
-/

namespace ParseActions

/-- A node is below itself. -/
def TraceError.IsCycle : TraceError → Prop
  | .stepCycle _ | .treeCycle _ => True
  | _ => False

namespace Except

variable {ε α β : Type}

theorem bind_eq_error {x : Except ε α} {f : α → Except ε β} {e : ε} :
    (x >>= f) = .error e ↔ x = .error e ∨ ∃ a, x = .ok a ∧ f a = .error e := by
  cases x with
  | error e' => simp [bind, Except.bind]
  | ok a => simp [bind, Except.bind]

theorem exists_of_list_forM_eq_error {l : List α} {f : α → Except ε Unit} {e : ε}
    (h : l.forM f = .error e) : ∃ a ∈ l, f a = .error e := by
  induction l with
  | nil => cases h
  | cons a l ih =>
    rw [List.forM_eq_forM] at ih h
    rw [List.forM_cons, bind_eq_error] at h
    rcases h with h | ⟨-, -, h⟩
    · exact ⟨a, List.mem_cons_self, h⟩
    · obtain ⟨b, hb, hfound⟩ := ih h
      exact ⟨b, List.mem_cons_of_mem _ hb, hfound⟩

theorem exists_of_option_forM_eq_error {o : Option α} {f : α → Except ε Unit} {e : ε}
    (h : o.forM f = .error e) : ∃ a ∈ o, f a = .error e := by
  cases o with
  | none => cases h
  | some a => exact ⟨a, rfl, h⟩

end Except

namespace Trace

variable {t : Trace} {e : TraceError}

/-! ## Faults other than cycles -/

theorem not_isCycle_of_checkStep {id : TraceId} (h : t.checkStep id = .error e) : ¬ e.IsCycle := by
  rw [checkStep] at h
  split at h
  · cases h
  · obtain rfl := Except.error.inj h
    exact False.elim

theorem not_isCycle_of_checkTree {id : CstId} (h : t.checkTree id = .error e) : ¬ e.IsCycle := by
  rw [checkTree] at h
  split at h
  · cases h
  · obtain rfl := Except.error.inj h
    exact False.elim

theorem not_isCycle_of_checkInterval {name : NodeName} {i : Interval}
    (h : t.checkInterval name i = .error e) : ¬ e.IsCycle := by
  rw [checkInterval] at h
  split at h
  · obtain rfl := Except.error.inj h
    exact False.elim
  · cases h

theorem not_isCycle_of_checkNode {id : TraceId} {node : TraceNode}
    (h : t.checkNode id node = .error e) : ¬ e.IsCycle := by
  rw [checkNode] at h
  rcases Except.bind_eq_error.mp h with h | ⟨-, -, h⟩
  · exact not_isCycle_of_checkInterval h
  rcases Except.bind_eq_error.mp h with h | ⟨-, -, h⟩
  · obtain ⟨other, -, h⟩ := Except.exists_of_option_forM_eq_error h
    rcases Except.bind_eq_error.mp h with h | ⟨-, -, h⟩
    · exact not_isCycle_of_checkStep h
    · cases h
  rcases Except.bind_eq_error.mp h with h | ⟨-, -, h⟩
  · obtain ⟨other, -, h⟩ := Except.exists_of_option_forM_eq_error h
    rcases Except.bind_eq_error.mp h with h | ⟨-, -, h⟩
    · exact not_isCycle_of_checkTree h
    · cases h
  obtain ⟨child, -, h⟩ := Except.exists_of_list_forM_eq_error h
  rcases Except.bind_eq_error.mp h with h | ⟨below, -, h⟩
  · exact not_isCycle_of_checkStep h
  · split at h
    · obtain rfl := Except.error.inj h
      exact False.elim
    · cases h

theorem not_isCycle_of_checkCstNode {id : CstId} {node : CstNode}
    (h : t.checkCstNode id node = .error e) : ¬ e.IsCycle := by
  rw [checkCstNode] at h
  rcases Except.bind_eq_error.mp h with h | ⟨-, -, h⟩
  · exact not_isCycle_of_checkInterval h
  obtain ⟨child, -, h⟩ := Except.exists_of_list_forM_eq_error h
  rcases Except.bind_eq_error.mp h with h | ⟨below, -, h⟩
  · exact not_isCycle_of_checkTree h
  · split at h
    · obtain rfl := Except.error.inj h
      exact False.elim
    · cases h

/-- **Cycles are searched for last**, when all children were found to exist. -/
theorem checkAcyclic_of_validate (h : t.validate = .error e) (hcycle : e.IsCycle) :
    (∀ node ∈ t.nodes, ∀ id ∈ node.children, id.index < t.nodes.size) ∧
      (∀ node ∈ t.cst, ∀ id ∈ node.children, id.index < t.cst.size) ∧
      t.checkAcyclic = .error e := by
  rw [validate] at h
  split at h
  · obtain rfl := Except.error.inj h
    exact hcycle.elim
  rcases Except.bind_eq_error.mp h with h | ⟨-, -, h⟩
  · exact absurd hcycle (not_isCycle_of_checkStep h)
  rcases Except.bind_eq_error.mp h with h | ⟨_, hnodes, h⟩
  · obtain ⟨p, -, h⟩ := Except.exists_of_list_forM_eq_error h
    exact absurd hcycle (not_isCycle_of_checkNode h)
  rcases Except.bind_eq_error.mp h with h | ⟨_, hcst, h⟩
  · obtain ⟨p, -, h⟩ := Except.exists_of_list_forM_eq_error h
    exact absurd hcycle (not_isCycle_of_checkCstNode h)
  exact ⟨children_lt_of_checkNode (Except.list_forM_eq_ok.mp hnodes),
    children_lt_of_checkCstNode (Except.list_forM_eq_ok.mp hcst), h⟩

/-! ## Cycles -/

/-- **A step that is reported** as below itself is so. -/
theorem reaches_of_stepCycle {id : TraceId} (h : t.validate = .error (.stepCycle id)) :
    Graph.Reaches t.stepGraph id.index id.index := by
  obtain ⟨hsteps, -, hfound⟩ := checkAcyclic_of_validate h trivial
  rw [checkAcyclic] at hfound
  split at hfound
  · next n hcycle =>
    obtain rfl : n = id.index := by cases hfound; rfl
    exact (Graph.reaches_of_firstCycle? (stepGraph_lt hsteps) hcycle).2
  · split at hfound
    · cases hfound
    · cases hfound

/-- **A node of the syntax tree that is reported** as below itself is so. -/
theorem reaches_of_treeCycle {id : CstId} (h : t.validate = .error (.treeCycle id)) :
    Graph.Reaches t.treeGraph id.index id.index := by
  obtain ⟨-, htree, hfound⟩ := checkAcyclic_of_validate h trivial
  rw [checkAcyclic] at hfound
  split at hfound
  · cases hfound
  · split at hfound
    · next n hcycle =>
      obtain rfl : n = id.index := by cases hfound; rfl
      exact (Graph.reaches_of_firstCycle? (treeGraph_lt htree) hcycle).2
    · cases hfound

/-! ## Valid traces -/

/-- **A valid trace has no fault.** -/
theorem Valid.validate_eq_ok (h : t.Valid) : t.validate = .ok () := by
  have hnode? {id : TraceId} (hid : id.index < t.nodes.size) : ∃ node, t.node? id = some node :=
    ⟨_, Array.getElem?_eq_getElem hid⟩
  have hcstNode? {id : CstId} (hid : id.index < t.cst.size) : ∃ node, t.cstNode? id = some node :=
    ⟨_, Array.getElem?_eq_getElem hid⟩
  refine Trace.validate_eq_ok.mpr ⟨?_, hnode? h.root, ?_, ?_, checkAcyclic_eq_ok.mpr ⟨?_, ?_⟩⟩
  · intro hempty
    have hroot := h.root
    simp [hempty] at hroot
  · intro p hp
    have hmem : p.1 ∈ t.nodes := Array.mem_toList_iff.mp (List.fst_mem_of_mem_zipIdx hp)
    refine checkNode_eq_ok.mpr ⟨h.steps _ hmem, ?_, ?_, ?_⟩
    · intro other hother
      exact hnode? (h.replaced _ hmem other hother)
    · intro other hother
      exact hcstNode? (h.linked _ hmem other hother)
    · intro child hchild
      obtain ⟨below, hbelow⟩ := hnode? (h.children _ hmem child hchild)
      exact ⟨below, hbelow, h.nested _ hmem child hchild below hbelow⟩
  · intro p hp
    have hmem : p.1 ∈ t.cst := Array.mem_toList_iff.mp (List.fst_mem_of_mem_zipIdx hp)
    refine checkCstNode_eq_ok.mpr ⟨h.tree _ hmem, ?_⟩
    intro child hchild
    obtain ⟨below, hbelow⟩ := hcstNode? (h.treeChildren _ hmem child hchild)
    exact ⟨below, hbelow, h.treeNested _ hmem child hchild below hbelow⟩
  · exact (Graph.firstCycle?_eq_none_iff (stepGraph_lt h.children)).mpr h.acyclic
  · exact (Graph.firstCycle?_eq_none_iff (treeGraph_lt h.treeChildren)).mpr h.treeAcyclic

/-- **What validation decides.** It finds no fault exactly when there are steps and the trace is
valid; a step or a node of the syntax tree that is reported for a cycle is below itself; and a
validation that halts where a place is read that is not there never halts so, but finds the same. -/
theorem validate_decides (t : Trace) :
    (t.validate = .ok () ↔ t.nodes ≠ #[] ∧ t.Valid) ∧
    (∀ id, t.validate = .error (.stepCycle id) →
      Graph.Reaches t.stepGraph id.index id.index) ∧
    (∀ id, t.validate = .error (.treeCycle id) →
      Graph.Reaches t.treeGraph id.index id.index) ∧
    t.validateStrictly = t.validate.mapError .fault := by
  refine ⟨⟨?_, ?_⟩, ?_, ?_, t.validateStrictly_eq⟩
  · intro h
    exact ⟨(Trace.validate_eq_ok.mp h).1, valid_of_validate h⟩
  · rintro ⟨-, hvalid⟩
    exact hvalid.validate_eq_ok
  · intro id h
    exact reaches_of_stepCycle h
  · intro id h
    exact reaches_of_treeCycle h

/-- Two steps that are below one another, with no syntax tree. -/
def loopSample : Trace where
  input := "a"
  grammar := .empty
  nodes := #[⟨.of (.apply "Once"), ⟨0, 1⟩, [⟨1⟩], true, none, "Once", none⟩,
    ⟨.of (.apply "Again"), ⟨0, 1⟩, [⟨0⟩], true, none, "Again", none⟩]
  cst := #[]
  root := ⟨0⟩

theorem validate_decides_sample :
    Trace.sample.Valid ∧ loopSample.validate = .error (.stepCycle ⟨0⟩) ∧
      Graph.Reaches loopSample.stepGraph 0 0 := by
  have hchecks : loopSample.validate = loopSample.checkAcyclic := rfl
  have hcycle : Graph.firstCycle? loopSample.nodes.size loopSample.stepGraph = some 0 := by cbv
  have hloop : loopSample.validate = .error (.stepCycle ⟨0⟩) := by
    rw [hchecks, checkAcyclic, hcycle]
  exact ⟨((validate_decides .sample).1.mp validate_sample).2, hloop,
    (validate_decides loopSample).2.1 ⟨0⟩ hloop⟩

end Trace

end ParseActions
