import ParseActions.Proofs.Memo.Leniency

/-!
# Outcomes that do not depend on what is known

As long as no body is found missing, it does not matter which nodes have been evaluated before: a
node has the outcome that it has where nothing is known. Once a body is found missing this ends, as
errors count as failures from then on, and an error that was recorded before stays one.

This needs that different nodes have different keys, so that what is recorded under the key of a
node is an outcome of this node.

## Main definitions

* `Memo.ifWritten`: what was found, if no body is missing
* `Evaluation.fresh?`: the outcome of a node where nothing is known before
* `Evaluation.Exact`: what is recorded are such outcomes
* `Evaluation.Regular`: a computation that gives the same from all exact memos

## Main results

* `Evaluation.fresh?_of_evaluate`: an evaluation finds the outcome that the node has where nothing
  is known before, as long as no body is missing
-/

namespace ParseActions

namespace Memo

variable {α : Type} {m : Memo} {a b : α}

/-- What was found, if no body is missing. -/
def ifWritten (m : Memo) (a : α) : Option α :=
  if m.todo = [] then some a else none

theorem ifWritten_of_written (h : m.todo = []) (a : α) : m.ifWritten a = some a :=
  if_pos h

theorem ifWritten_of_missing (h : m.todo ≠ []) (a : α) : m.ifWritten a = none :=
  if_neg h

theorem ifWritten_eq_some : m.ifWritten a = some b ↔ m.todo = [] ∧ a = b := by
  by_cases h : m.todo = []
  · simp [ifWritten_of_written h, h]
  · simp [ifWritten_of_missing h, h]

end Memo

namespace Evaluation

variable {c : Evaluation}

/-- The outcome of a node where nothing is known before, if no body is found missing. -/
def fresh? (c : Evaluation) (id : CstId) : Option Outcome :=
  (c.evaluate id .empty).2.ifWritten (c.evaluate id .empty).1

/-- No body has been found missing, and each node is recorded with the outcome that it has where
nothing is known before. -/
structure Exact (c : Evaluation) (m : Memo) : Prop where
  written : m.todo = []
  fresh : ∀ id node outcome, c.trace.cstNode? id = some node →
    m.get? (c.keyOf node) = some outcome → outcome.Settled → c.fresh? id = some outcome

namespace Exact

variable {m : Memo}

theorem empty : c.Exact .empty :=
  ⟨rfl, fun _ _ _ _ hget => by cases hget⟩

theorem permissive (h : c.Exact m) : m.permissive = false :=
  Memo.permissive_eq_false.mpr h.written

theorem start (h : c.Exact m) (key : NodeKey) : c.Exact (m.start key) where
  written := h.written
  fresh id node outcome hnode hget hsettled := by
    rw [Memo.get?_start] at hget
    split at hget
    · exact absurd (Option.some.inj hget).symm hsettled
    · exact h.fresh id node outcome hnode hget hsettled

theorem addPassThrough (h : c.Exact m) (key : NodeKey) : c.Exact (m.addPassThrough key) :=
  ⟨h.written, h.fresh⟩

/-- The outcome of a node may be recorded. No other node has the same key. -/
theorem set (h : c.Exact m) (hd : c.trace.Distinct) {id : CstId} {node : CstNode}
    (hnode : c.trace.cstNode? id = some node) {outcome : Outcome}
    (hfresh : c.fresh? id = some outcome) : c.Exact (m.set (c.keyOf node) outcome) where
  written := h.written
  fresh id' node' outcome' hnode' hget hsettled := by
    rw [Memo.get?_set] at hget
    split at hget
    · next hkey =>
      obtain rfl := keyOf_injective hd hnode' hnode hkey
      rw [hfresh, hget]
    · exact h.fresh id' node' outcome' hnode' hget hsettled

/-- Without a missing body nothing fails. -/
theorem get?_ne_failed (h : c.Exact m) (hv : c.trace.Valid) {id : CstId} {node : CstNode}
    (hnode : c.trace.cstNode? id = some node) : m.get? (c.keyOf node) ≠ some .failed := by
  intro hget
  -- from nothing the node fails without a missing body, but a failure is always excused by one
  obtain ⟨hwritten, hfailed⟩ :=
    Memo.ifWritten_eq_some.mp (h.fresh id node _ hnode hget Outcome.settled_failed)
  have hrecorded := get?_evaluate hv hnode .empty
  rw [hfailed] at hrecorded
  have hp := excused_evaluate hv id .empty .empty _ hrecorded
  exact Memo.permissive_eq_true.mp hp hwritten

theorem anyChildFailed (h : c.Exact m) (hv : c.trace.Valid) (node : CstNode) :
    c.anyChildFailed node m = false := by
  rw [Bool.eq_false_iff, ne_eq, anyChildFailed_iff]
  rintro ⟨child, -, below, hbelow, hget⟩
  exact h.get?_ne_failed hv hbelow hget

/-- A body gives its own result, as if nothing were known. -/
theorem runBody (h : c.Exact m) (hv : c.trace.Valid) (a : RuleAction) (node : CstNode)
    (args : List Value) : c.runBody a node args m = c.runBody a node args .empty := by
  rw [Evaluation.runBody, Evaluation.runBody, h.anyChildFailed hv, empty.anyChildFailed hv,
    h.permissive, (empty (c := c)).permissive]

end Exact

/-! ## Regular computations -/

/-- From all exact memos the computation gives the same and leaves an exact memo, or it finds a body
missing from all of them. -/
def Regular {α : Type} (c : Evaluation) (f : Memo → α × Memo) : Prop :=
  ∃ r : Option α, ∀ m, c.Exact m →
    (f m).2.ifWritten (f m).1 = r ∧ ((f m).2.todo = [] → c.Exact (f m).2)

namespace Regular

variable {α β : Type} {f : Memo → α × Memo} {g : Memo → β × Memo}

/-- What leaves the memo, and does not depend on it. -/
theorem const (a : α) (h : ∀ m, c.Exact m → f m = (a, m)) : c.Regular f := by
  refine ⟨some a, fun m hm => ?_⟩
  rw [h m hm]
  exact ⟨Memo.ifWritten_of_written hm.written a, fun _ => hm⟩

/-- One computation after another, which does not forget that a body is missing. -/
theorem bind (hf : c.Regular f) (next : α → Memo → β × Memo) (hnext : ∀ a, c.Regular (next a))
    (hg : ∀ m, g m = next (f m).1 (f m).2)
    (hmissing : ∀ m, (g m).2.todo = [] → (f m).2.todo = []) : c.Regular g := by
  obtain ⟨r, hr⟩ := hf
  choose results hresults using hnext
  refine ⟨r.bind results, fun m hm => ?_⟩
  obtain ⟨hfound, hexact⟩ := hr m hm
  -- a body that the first computation finds missing is still missing after the second one
  by_cases hwritten : (f m).2.todo = []
  · rw [← hfound, Memo.ifWritten_of_written hwritten, hg]
    exact hresults _ _ (hexact hwritten)
  · rw [← hfound, Memo.ifWritten_of_missing hwritten,
      Memo.ifWritten_of_missing (hwritten ∘ hmissing m)]
    exact ⟨rfl, fun h => absurd (hmissing m h) hwritten⟩

end Regular

/-- The outcomes of several nodes. -/
theorem regular_outcomes (hv : c.trace.Valid) {ids : List CstId}
    (hids : ∀ id ∈ ids, c.Regular (c.evaluate id)) : c.Regular (outcomes c.evaluate ids) := by
  induction ids with
  | nil => exact .const (.ok []) fun _ _ => rfl
  | cons id rest ih =>
    have hrest := ih fun id hid => hids id (List.mem_cons_of_mem _ hid)
    refine (hids id List.mem_cons_self).bind (fun outcome m =>
      if outcome.error?.isSome then (.error (outcome.propagated m.permissive), m)
      else ((outcomes c.evaluate rest m).1.map (outcome :: ·), (outcomes c.evaluate rest m).2))
      (fun outcome => ?_) (fun m => ?_) fun m hwritten => ?_
    -- an error is given as it is while no body is missing
    · cases outcome.error?.isSome with
      | true =>
        refine .const (.error outcome) fun m hm => ?_
        rw [if_pos rfl, hm.permissive, Outcome.propagated_false]
      | false =>
        simp only [Bool.false_eq_true, if_false]
        exact hrest.bind (fun g m => (g.map (outcome :: ·), m))
          (fun g => .const _ fun _ _ => rfl) (fun _ => rfl) fun _ h => h
    · rw [outcomes]
      rcases c.evaluate id m with ⟨outcome, m'⟩
      cases outcome <;> rfl
    · by_cases herrored : (c.evaluate id m).1.IsErrored
      · rwa [outcomes_cons_of_errored herrored] at hwritten
      · rw [outcomes_cons_of_not_errored herrored] at hwritten
        exact (progress_outcomes hv rest _).written hwritten

section Finish

variable {node : CstNode} {mode : Mode} {rule : String} {child : CstId}

/-- A body, or a repetition, makes its outcome of those of all children. -/
theorem regular_finish_of_opens (hv : c.trace.Valid)
    (hchildren : ∀ child ∈ node.children, c.Regular (c.evaluate child)) (h : c.Opens node mode)
    (hmode : mode ≠ .passThrough) : c.Regular (c.finish node node.children c.evaluate) := by
  refine (regular_outcomes hv hchildren).bind
    (fun g m => (c.conclude node mode (g.map (Gathered.none.addAll mode)) m, m))
    (fun g => ?_) (fun m => finish_of_opens h hmode rfl) fun m hwritten => ?_
  -- nothing has failed in an exact memo, so what is concluded does not depend on it
  · refine .const (c.conclude node mode (g.map (Gathered.none.addAll mode)) .empty) fun m hm => ?_
    cases h with
    | passThrough => exact absurd rfl hmode
    | collect => cases g <;> rfl
    | body =>
      cases g with
      | error decided => rfl
      | ok os => exact congrArg (·, m) (hm.runBody hv _ node _)
  · rwa [finish_of_opens h hmode rfl] at hwritten

/-- A node without a body passes on the outcome of its only child. -/
theorem regular_finish_of_passThrough (hbody : c.action.body? node.constructor = none)
    (hkind : node.kind = .nonterminal rule) (hchild : c.Regular (c.evaluate child)) :
    c.Regular (c.finish node [child] c.evaluate) := by
  obtain ⟨r, hr⟩ := hchild
  have hnoted : c.Regular fun m => c.evaluate child (m.addPassThrough (c.keyOf node)) :=
    ⟨r, fun m hm => hr _ (hm.addPassThrough _)⟩
  refine hnoted.bind (fun outcome m => (outcome.propagated m.permissive, m))
    (fun outcome => .const outcome fun m hm => ?_)
    (fun m => finish_of_passThrough hbody hkind) fun m hwritten => ?_
  · rw [hm.permissive, Outcome.propagated_false]
  · rwa [finish_of_passThrough hbody hkind] at hwritten

/-- A node whose body is missing finds nothing that counts. -/
theorem regular_finish_of_unwritten (hbody : c.action.body? node.constructor = none)
    (hkind : node.kind = .nonterminal rule) (hchildren : ∀ child, node.children ≠ [child]) :
    c.Regular (c.finish node node.children c.evaluate) := by
  refine ⟨none, fun m _ => ?_⟩
  rw [finish_of_unwritten hbody hkind hchildren]
  have hmissing : (m.addTodo (c.keyOf node)).todo ≠ [] :=
    Memo.permissive_eq_true.mp (Memo.permissive_addTodo m _)
  exact ⟨Memo.ifWritten_of_missing hmissing _, fun h => absurd h hmissing⟩

/-- What a node makes of its children. -/
theorem regular_finish (hv : c.trace.Valid)
    (hchildren : ∀ child ∈ node.children, c.Regular (c.evaluate child)) :
    c.Regular (c.finish node node.children c.evaluate) := by
  cases hbody : c.action.body? node.constructor with
  | some a => exact regular_finish_of_opens hv hchildren (.body hbody) nofun
  | none =>
    cases hkind : node.kind with
    | terminal => exact .const _ fun m _ => finish_of_terminal hbody hkind
    | iter => exact regular_finish_of_opens hv hchildren (.collect hbody hkind) nofun
    | nonterminal rule =>
      by_cases hone : ∃ child, node.children = [child]
      · obtain ⟨child, hchild⟩ := hone
        have honly := hchildren child (hchild ▸ List.mem_singleton_self child)
        rw [hchild]
        exact regular_finish_of_passThrough hbody hkind honly
      · exact regular_finish_of_unwritten hbody hkind (not_exists.mp hone)

end Finish

/-- **The evaluation of a node** gives the same from all exact memos, where different nodes have
different keys. -/
theorem regular_evaluate (hv : c.trace.Valid) (hd : c.trace.Distinct) (id : CstId) :
    c.Regular (c.evaluate id) := by
  induction id using hv.tree_induction with
  | step id ih =>
    cases hnode : c.trace.cstNode? id with
    | none => exact .const .failed fun m _ => evaluate_of_missing hv hnode m
    | some node =>
      rw [Trace.cstChildren_of_cstNode? hnode] at ih
      obtain ⟨r, hr⟩ := regular_finish hv ih
      -- what begins finishes in the same way from all exact memos, the cleared one among them
      have hbegins {m : Memo} (hm : c.Exact m) (hnew : c.known? (c.keyOf node) m = none) :
          ∃ outcome m₁, c.evaluate id m = (outcome, m₁.set (c.keyOf node) outcome) ∧
            m₁.ifWritten outcome = r ∧ (m₁.todo = [] → c.Exact m₁) :=
        ⟨_, _, evaluate_of_finished hv hnode hnew (c.finished node _), hr _ (hm.start _)⟩
      have hfresh : c.fresh? id = r := by
        have hnew : c.known? (c.keyOf node) .empty = none := by
          rw [known?]
          cases c.action.kind <;> rfl
        obtain ⟨outcome, m₁, hevaluate, hfound, -⟩ := hbegins .empty hnew
        rw [fresh?, hevaluate]
        exact hfound
      refine ⟨r, fun m hm => ?_⟩
      cases hknown : c.known? (c.keyOf node) m with
      | some outcome =>
        obtain ⟨hget, hsettled⟩ := known?_eq_some hknown
        rw [evaluate_of_known hv hnode hknown, Memo.ifWritten_of_written hm.written, ← hfresh,
          hm.fresh id node outcome hnode hget hsettled]
        exact ⟨rfl, fun _ => hm⟩
      | none =>
        obtain ⟨outcome, m₁, hevaluate, hfound, hexact⟩ := hbegins hm hknown
        rw [hevaluate]
        refine ⟨hfound, fun hwritten => (hexact hwritten).set hd hnode ?_⟩
        exact hfresh.trans (hfound.symm.trans (Memo.ifWritten_of_written hwritten outcome))

/-- **What an evaluation finds** while no body is missing: the outcome of the node where nothing is
known before. -/
theorem fresh?_of_evaluate (hv : c.trace.Valid) (hd : c.trace.Distinct) {m : Memo} (hm : c.Exact m)
    (id : CstId) : (c.evaluate id m).2.ifWritten (c.evaluate id m).1 = c.fresh? id ∧
      ((c.evaluate id m).2.todo = [] → c.Exact (c.evaluate id m).2) := by
  obtain ⟨r, hr⟩ := regular_evaluate hv hd id
  rw [fresh?, (hr .empty .empty).1]
  exact hr m hm

end Evaluation

end ParseActions
