import ParseActions.Proofs.Memo.Closure

/-!
# Using outcomes again

An attribute uses an outcome again where an operation evaluates the node once more. Both leave the
same outcome, the same entries and the same lists: evaluating a node again changes nothing but the
number of evaluations, as all that the node needs has been recorded before.

## Main definitions

* `Evaluation.withKind`: the evaluation of an action of another kind with the same bodies

## Main results

* `Evaluation.evaluate_property_eq_operation`: attributes and operations give the same
-/

namespace ParseActions.Evaluation

/-- The evaluation of the action with the same name and the same bodies, of a given kind. -/
def withKind (c : Evaluation) (kind : ActionKind) : Evaluation :=
  { c with action := { c.action with kind := kind } }

variable {c : Evaluation} {hv : c.trace.Valid}

/-- What is used again is a recorded outcome. -/
theorem known?_property (key : NodeKey) (m : Memo) (outcome : Outcome) :
    (c.withKind .property).known? key m = some outcome ↔
      m.get? key = some outcome ∧ outcome.Settled := by
  refine ⟨known?_eq_some, fun ⟨hget, hsettled⟩ => ?_⟩
  -- an attribute passes over an outcome only while it is pending
  simp only [known?, withKind, hget]
  cases outcome with
  | pending => exact absurd rfl hsettled
  | _ => rfl

/-- A node gives the same whether recorded outcomes are used again or not. -/
def Agrees (c : Evaluation) (hv : c.trace.Valid) (id : CstId) : Prop :=
  ∀ m k, c.Sound hv m → c.Closed m → ∃ n, (c.withKind .property).evaluate id (m.counted k) =
    ((c.evaluate id m).1, (c.evaluate id m).2.counted n)

/-- Several nodes give the same. -/
theorem agrees_outcomes (hv : c.trace.Valid) (hd : c.trace.Distinct) {ids : List CstId}
    (hagrees : ∀ id ∈ ids, c.Agrees hv id)
    (hexists : ∀ id ∈ ids, ∃ node, c.trace.cstNode? id = some node) {m : Memo} (k : Nat)
    (hm : c.Sound hv m) (hclosed : c.Closed m) :
    ∃ n, outcomes (c.withKind .property).evaluate ids (m.counted k) =
      ((outcomes c.evaluate ids m).1, (outcomes c.evaluate ids m).2.counted n) := by
  induction ids generalizing m k with
  | nil => exact ⟨k, rfl⟩
  | cons id rest ih =>
    obtain ⟨node, hnode⟩ := hexists id List.mem_cons_self
    obtain ⟨n, hn⟩ := hagrees id List.mem_cons_self m k hm hclosed
    by_cases h : (c.evaluate id m).1.IsErrored
    · have h' : ((c.withKind .property).evaluate id (m.counted k)).1.IsErrored := by rwa [hn]
      rw [outcomes_cons_of_errored h, outcomes_cons_of_errored h', hn]
      exact ⟨n, rfl⟩
    · have h' : ¬ ((c.withKind .property).evaluate id (m.counted k)).1.IsErrored := by rwa [hn]
      obtain ⟨n', hn'⟩ := ih (fun id hid => hagrees id (List.mem_cons_of_mem _ hid))
        (fun id hid => hexists id (List.mem_cons_of_mem _ hid)) n (hm.evaluate hv hd hnode h)
        (closed_evaluate hv hd id m hm hclosed h)
      rw [outcomes_cons_of_not_errored h, outcomes_cons_of_not_errored h', hn, hn']
      exact ⟨n', rfl⟩

/-- An evaluation that has begun ends in the same way where outcomes are used again. -/
theorem Finished.agrees (hv : c.trace.Valid) (hd : c.trace.Distinct) {id : CstId} {node : CstNode}
    {m m₁ : Memo} {outcome : Outcome} (h : c.Finished node m outcome m₁)
    (hnode : c.trace.cstNode? id = some node) (hagrees : ∀ child ∈ node.children, c.Agrees hv child)
    (k : Nat) (hm : c.Sound hv m) (hclosed : c.Closed m) :
    ∃ n, (c.withKind .property).Finished node (m.counted k) outcome (m₁.counted n) := by
  have hexists (child : CstId) (hchild : child ∈ node.children) := hv.exists_child hnode hchild
  obtain ⟨n, hn⟩ := agrees_outcomes hv hd hagrees hexists k hm hclosed
  cases h with
  | terminal h hkind => exact ⟨k, .terminal h hkind⟩
  | unwritten h hkind hchildren => exact ⟨k, .unwritten h hkind hchildren⟩
  | @passThrough rule child h hkind hchild =>
    have hmem : child ∈ node.children := hchild ▸ List.mem_singleton_self child
    -- both kinds note the node before the child is evaluated
    obtain ⟨n, hn⟩ := hagrees child hmem _ k (hm.addPassThrough (c.keyOf node))
      (hclosed.addPassThrough _)
    have hfinished : (c.withKind .property).Finished node (m.counted k) _ _ :=
      .passThrough h hkind hchild
    have hn' : (c.withKind .property).evaluate child
        ((m.counted k).addPassThrough ((c.withKind .property).keyOf node)) = _ := hn
    rw [hn'] at hfinished
    exact ⟨n, hfinished⟩
  | body h hos =>
    rw [hos] at hn
    exact ⟨n, .body (c := c.withKind .property) h hn⟩
  | collect h hkind hos =>
    rw [hos] at hn
    exact ⟨n, .collect h hkind hn⟩
  | decided h hos =>
    rw [hos] at hn
    exact ⟨n, .decided h hn⟩

/-- **Every node gives the same** whether recorded outcomes are used again or not. -/
theorem agrees (hv : c.trace.Valid) (hd : c.trace.Distinct) (id : CstId) : c.Agrees hv id := by
  refine evaluate_induction hv (P := fun id m outcome m' => ∀ k, c.Sound hv m → c.Closed m →
    ∃ n, (c.withKind .property).evaluate id (m.counted k) = (outcome, m'.counted n)) ?_ ?_ ?_ id
  · intro id m hnone k _ _
    exact ⟨k, evaluate_of_missing (c := c.withKind .property) hv hnone _⟩
  · intro id node m outcome hnode h k _ _
    have hknown := (known?_property (c := c) _ (m.counted k) _).mpr (known?_eq_some h)
    exact ⟨k, evaluate_of_known (c := c.withKind .property) hv hnode hknown⟩
  · intro id node m outcome m₁ hnode hnew h ih k hm hclosed
    by_cases hended : m.Ended (c.keyOf node)
    -- the attribute uses the outcome again, the operation finds it again
    · obtain ⟨recorded, hget, hsettled⟩ := hended
      have hsame := fst_evaluate_of_ended hv hd hm hnode hget hsettled
      obtain ⟨n, hn⟩ := snd_evaluate_of_done hv hd id m hm
        (hclosed.done hnode ⟨recorded, hget, hsettled⟩)
      rw [evaluate_of_finished hv hnode hnew h] at hsame hn
      obtain rfl : outcome = recorded := hsame
      replace hn : m₁.set (c.keyOf node) outcome = m.counted n := hn
      have hknown := (known?_property (c := c) _ (m.counted k) _).mpr ⟨hget, hsettled⟩
      rw [hn]
      exact ⟨k, evaluate_of_known (c := c.withKind .property) hv hnode hknown⟩
    -- both begin the evaluation, and nothing that is recorded needs its outcome
    · have hnone : (c.withKind .property).known? (c.keyOf node) (m.counted k) = none := by
        rw [← Option.not_isSome_iff_eq_none, Option.isSome_iff_exists]
        rintro ⟨o, ho⟩
        exact hended ⟨o, (known?_property _ _ _).mp ho⟩
      obtain ⟨n, hn⟩ := h.agrees hv hd hnode ih (k + 1) (hm.start _) (hclosed.start hended)
      exact ⟨n, evaluate_of_finished (c := c.withKind .property) hv hnode hnone hn⟩

/-- **Attributes and operations give the same** from a cleared memo: the same outcome, the same
entries, and the same lists in the same order. -/
theorem evaluate_property_eq_operation (ht : c.trace.validate = .ok ()) (hd : c.trace.Distinct)
    (id : CstId) :
    let property := (c.withKind .property).evaluate id .empty
    let operation := (c.withKind .operation).evaluate id .empty
    property.1 = operation.1 ∧ property.2.entries = operation.2.entries ∧
      property.2.todo = operation.2.todo ∧ property.2.passThrough = operation.2.passThrough := by
  have hv := Trace.valid_of_validate ht
  obtain ⟨n, hn⟩ := agrees (c := c.withKind .operation) hv hd id .empty 0 .empty .empty
  have hn' : (c.withKind .property).evaluate id .empty = _ := hn
  intro property operation
  rw [show property = _ from hn']
  exact ⟨rfl, rfl, rfl, rfl⟩

theorem evaluate_property_eq_operation_sample :
    sample.trace.validate = .ok () ∧ sample.trace.Distinct ∧
      ((sample.withKind .property).evaluate ⟨0⟩ .empty).2.entries =
        ((sample.withKind .operation).evaluate ⟨0⟩ .empty).2.entries :=
  ⟨Trace.validate_sample, Trace.distinct_sample,
    (evaluate_property_eq_operation Trace.validate_sample Trace.distinct_sample ⟨0⟩).2.1⟩

end ParseActions.Evaluation
