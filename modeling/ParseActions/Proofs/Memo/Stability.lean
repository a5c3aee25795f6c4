import Mathlib.Logic.Relation
import ParseActions.Proofs.Memo.Ending
import ParseActions.Proofs.Memo.Reference

/-!
# Evaluating a node again

Where all that the outcome of a node needs is recorded, evaluating the node again gives the outcome
that is recorded, and changes nothing but the number of evaluations. While it is evaluated the node
is pending; this is not seen, because the nodes below it are other nodes with other keys.

## Main definitions

* `Evaluation.Needs`: the nodes whose outcomes the outcome of a node is made from
* `Evaluation.Done`: all that an outcome needs is recorded
* `Evaluation.Sound`: what is recorded is right, and in order

## Main results

* `Evaluation.fst_evaluate_of_ended`: the outcome that is recorded is found again
* `Evaluation.snd_evaluate_of_done`: nothing but the number of evaluations changes
-/

namespace ParseActions.Evaluation

variable {c : Evaluation} {hv : c.trace.Valid}

/-! ## The nodes below that count -/

/-- The outcome of a node is made from that of a child. -/
def Needs (c : Evaluation) (id child : CstId) : Prop :=
  ∃ node mode, c.trace.cstNode? id = some node ∧ c.Opens node mode ∧ child ∈ node.children

/-- A node of a rule that has no body and would need one. -/
def Unwritten (c : Evaluation) (node : CstNode) : Prop :=
  c.action.body? node.constructor = none ∧ (∃ rule, node.kind = .nonterminal rule) ∧
    ∀ child, node.children ≠ [child]

/-- The lists of a memo have the node, if they should. -/
def Listed (c : Evaluation) (m : Memo) (node : CstNode) : Prop :=
  (c.Opens node .passThrough → c.keyOf node ∈ m.passThrough) ∧
    (c.Unwritten node → c.keyOf node ∈ m.todo)

/-- A node and all that its outcome is made from have outcomes, and are listed. -/
def Done (c : Evaluation) (m : Memo) (id : CstId) : Prop :=
  ∀ x node, Relation.ReflTransGen c.Needs id x → c.trace.cstNode? x = some node →
    m.Ended (c.keyOf node) ∧ c.Listed m node

theorem Needs.mem_cstChildren {id child : CstId} (h : c.Needs id child) :
    child ∈ c.trace.cstChildren id := by
  obtain ⟨node, mode, hnode, -, hchild⟩ := h
  rwa [Trace.cstChildren_of_cstNode? hnode]

/-- No outcome is made from itself. -/
theorem not_needs_above (hv : c.trace.Valid) (id : CstId) :
    ∀ child, c.Needs id child → ¬ Relation.ReflTransGen c.Needs child id := by
  induction id using hv.tree_induction with
  | step id ih =>
    intro child hchild hback
    -- a way back from a child goes through one of its own children, and from there to the child
    rcases Relation.ReflTransGen.cases_head hback with rfl | ⟨next, hnext, hback⟩
    · exact ih child hchild.mem_cstChildren child hchild .refl
    · exact ih child hchild.mem_cstChildren next hnext (hback.tail hchild)

/-! ## Sound memos -/

/-- An evaluation keeps the keys of a memo in order. -/
theorem sorted_evaluate (hv : c.trace.Valid) (id : CstId) (m : Memo) (h : Keyed.Sorted m.entries) :
    Keyed.Sorted (c.evaluate id m).2.entries :=
  evaluate_invariant (P := fun m => Keyed.Sorted m.entries) hv
    (fun _ key hm => hm.insert key _) (fun _ key outcome hm => hm.insert key outcome)
    (fun _ _ hm => hm) (fun _ _ hm => hm) id m h

/-- What is recorded agrees with the values of nodes, no error is recorded, and the keys are in
order. -/
structure Sound (c : Evaluation) (hv : c.trace.Valid) (m : Memo) : Prop where
  faithful : c.Faithful hv m
  calm : Calm m
  sorted : Keyed.Sorted m.entries

namespace Sound

variable {m : Memo}

theorem empty : c.Sound hv .empty :=
  ⟨faithful_empty, calm_empty, .nil⟩

theorem start (h : c.Sound hv m) (key : NodeKey) : c.Sound hv (m.start key) :=
  ⟨h.faithful.start key, h.calm.start key, h.sorted.insert key _⟩

theorem addPassThrough (h : c.Sound hv m) (key : NodeKey) : c.Sound hv (m.addPassThrough key) :=
  ⟨h.faithful.addPassThrough key, h.calm, h.sorted⟩

theorem counted (h : c.Sound hv m) (n : Nat) : c.Sound hv (m.counted n) :=
  ⟨⟨h.faithful.value?, h.faithful.permissive⟩, h.calm, h.sorted⟩

/-- An evaluation keeps a memo sound, unless it gives an error. -/
theorem evaluate (h : c.Sound hv m) (hv : c.trace.Valid) (hd : c.trace.Distinct) {id : CstId}
    {node : CstNode} (hnode : c.trace.cstNode? id = some node)
    (herrored : ¬ (c.evaluate id m).1.IsErrored) : c.Sound hv (c.evaluate id m).2 where
  faithful := faithful_evaluate hv hd id m h.faithful
  calm := by
    rcases rises hv hnode m h.calm with ⟨hcalm, -⟩ | ⟨e, he, -⟩
    · exact hcalm
    · exact absurd ⟨e, he⟩ herrored
  sorted := sorted_evaluate hv id m h.sorted

end Sound

/-- **The outcome that is recorded** for a node is found again. -/
theorem fst_evaluate_of_ended (hv : c.trace.Valid) (hd : c.trace.Distinct) {m : Memo}
    (hm : c.Sound hv m) {id : CstId} {node : CstNode} {outcome : Outcome}
    (hnode : c.trace.cstNode? id = some node) (hget : m.get? (c.keyOf node) = some outcome)
    (hsettled : outcome.Settled) : (c.evaluate id m).1 = outcome := by
  have hfaithful := faithful_evaluate hv hd id m hm.faithful
  have hget' := get?_evaluate hv hnode m
  rcases (hm.calm _ _ hget).resolve_left hsettled with ⟨v, rfl⟩ | ⟨rfl, -⟩
  -- the value is that of the node
  · have hvalue := hfaithful.value? id node _ hnode hget' (settled_evaluate hv id m)
    rw [← hm.faithful.value? id node _ hnode hget hsettled] at hvalue
    exact Outcome.value?_eq_some.mp hvalue
  -- the failure is recorded before, and stays one
  · have hfailed := hm.faithful.get?_failed_of_progress hfaithful (progress_evaluate hv id m) hnode
      hget
    rw [hget'] at hfailed
    exact Option.some.inj hfailed

/-! ## Evaluating again -/

theorem Done.counted {m : Memo} {id : CstId} (h : c.Done m id) (n : Nat) :
    c.Done (m.counted n) id :=
  h

/-- What a child needs is recorded while the node above is evaluated again. -/
theorem Done.start (hv : c.trace.Valid) (hd : c.trace.Distinct) {m : Memo} {id child : CstId}
    {node : CstNode} (h : c.Done m id) (hnode : c.trace.cstNode? id = some node)
    (hchild : c.Needs id child) : c.Done (m.start (c.keyOf node)) child := by
  intro x below hx hbelow
  obtain ⟨⟨outcome, hget, hsettled⟩, hlisted⟩ := h x below (.head hchild hx) hbelow
  refine ⟨⟨outcome, ?_, hsettled⟩, hlisted⟩
  rw [Memo.get?_start, if_neg]
  · exact hget
  -- only the node itself has its key, and it is not below its child
  · intro hkey
    obtain rfl := keyOf_injective hd hbelow hnode hkey
    exact not_needs_above hv x child hchild hx

/-- An evaluation of a node that is done changes nothing but the number of evaluations. -/
def Steady (c : Evaluation) (hv : c.trace.Valid) (id : CstId) : Prop :=
  ∀ m, c.Sound hv m → c.Done m id → ∃ n, (c.evaluate id m).2 = m.counted n

/-- Evaluations of nodes that are done change nothing but the number of evaluations. -/
theorem outcomes_of_done {ids : List CstId} (hsteady : ∀ id ∈ ids, c.Steady hv id) {m : Memo}
    (hm : c.Sound hv m) (hdone : ∀ id ∈ ids, c.Done m id) :
    ∃ n, (outcomes c.evaluate ids m).2 = m.counted n := by
  induction ids generalizing m with
  | nil => exact ⟨m.evaluations, rfl⟩
  | cons id rest ih =>
    obtain ⟨n, hn⟩ := hsteady id List.mem_cons_self m hm (hdone id List.mem_cons_self)
    by_cases h : (c.evaluate id m).1.IsErrored
    · rw [outcomes_cons_of_errored h]
      exact ⟨n, hn⟩
    · rw [outcomes_cons_of_not_errored h, hn]
      obtain ⟨n', hn'⟩ := ih (fun id hid => hsteady id (List.mem_cons_of_mem _ hid)) (hm.counted n)
        fun id hid => (hdone id (List.mem_cons_of_mem _ hid)).counted n
      exact ⟨n', hn'⟩

/-- An evaluation of a node that is listed leaves the lists, if those of its children do. -/
theorem Finished.steady {node : CstNode} {m m₁ : Memo} {outcome : Outcome}
    (h : c.Finished node m outcome m₁) (hlisted : c.Listed m node) (hm : c.Sound hv m)
    (hsteady : ∀ mode, c.Opens node mode → ∀ child ∈ node.children, c.Steady hv child)
    (hdone : ∀ mode, c.Opens node mode → ∀ child ∈ node.children, c.Done m child) :
    ∃ n, m₁ = m.counted n := by
  have hall {mode : Mode} (hopens : c.Opens node mode) :=
    outcomes_of_done (hsteady mode hopens) hm (hdone mode hopens)
  -- the node is listed already, so noting it once more changes neither list
  cases h with
  | terminal => exact ⟨m.evaluations, rfl⟩
  | unwritten h hkind hchildren =>
    have hmem : c.keyOf node ∈ m.todo := hlisted.2 ⟨h, ⟨_, hkind⟩, hchildren⟩
    refine ⟨m.evaluations, ?_⟩
    rw [Memo.addTodo, Memo.addNew_of_mem hmem, Memo.counted_self]
  | @passThrough rule child h hkind hchild =>
    have hopens : c.Opens node .passThrough := .passThrough h hkind hchild
    have hmem : child ∈ node.children := hchild ▸ List.mem_singleton_self child
    have hsame : m.addPassThrough (c.keyOf node) = m := by
      rw [Memo.addPassThrough, Memo.addNew_of_mem (hlisted.1 hopens)]
    rw [hsame]
    exact hsteady _ hopens child hmem m hm (hdone _ hopens child hmem)
  | body h hos =>
    have hn := hall (.body h)
    rwa [hos] at hn
  | collect h hkind hos =>
    have hn := hall (.collect h hkind)
    rwa [hos] at hn
  | decided h hos =>
    cases hbody : c.action.body? node.constructor with
    | some a =>
      have hn := hall (.body hbody)
      rwa [hos] at hn
    | none =>
      have hn := hall (.collect hbody (h.resolve_left fun hne => hne hbody))
      rwa [hos] at hn

/-- **Evaluating a node that is done** changes nothing but the number of evaluations. -/
theorem snd_evaluate_of_done (hv : c.trace.Valid) (hd : c.trace.Distinct) (id : CstId) :
    c.Steady hv id := by
  refine evaluate_induction hv
    (P := fun id m _ m' => c.Sound hv m → c.Done m id → ∃ n, m' = m.counted n) ?_ ?_ ?_ id
  · exact fun _ m _ _ _ => ⟨m.evaluations, rfl⟩
  · exact fun _ _ m _ _ _ _ _ => ⟨m.evaluations, rfl⟩
  · intro id node m outcome m₁ hnode hnew h ih hm hdone
    obtain ⟨⟨recorded, hget, hsettled⟩, hlisted⟩ := hdone id node .refl hnode
    have hsame := fst_evaluate_of_ended hv hd hm hnode hget hsettled
    rw [evaluate_of_finished hv hnode hnew h] at hsame
    obtain rfl : outcome = recorded := hsame
    obtain ⟨n, rfl⟩ := h.steady hlisted (hm.start _) (fun _ _ => ih)
      fun mode hopens child hchild => hdone.start hv hd hnode ⟨node, mode, hnode, hopens, hchild⟩
    -- the outcome that was recorded is recorded again, in place of the pending one
    refine ⟨n, ?_⟩
    calc ((m.start (c.keyOf node)).counted n).set (c.keyOf node) outcome
        = ((m.set (c.keyOf node) .pending).set (c.keyOf node) outcome).counted n := rfl
      _ = (m.set (c.keyOf node) outcome).counted n := by rw [Memo.set_set]
      _ = m.counted n := by rw [Memo.set_eq_self hm.sorted hget]

end ParseActions.Evaluation
