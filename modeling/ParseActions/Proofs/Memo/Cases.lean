import ParseActions.Proofs.Memo.Dispatch

/-!
# The cases of an evaluation

In a valid trace an evaluation can end in a few ways: the node does not exist, its outcome is known,
or its evaluation begins, ends as the node and the outcomes of its children say, and is recorded.
Properties of evaluations are proved by these cases and induction on the nodes below a node.

## Main definitions

* `Evaluation.Finished`: how an evaluation that has begun can end
* `Evaluation.Evaluated`: how an evaluation can end

## Main results

* `Evaluation.evaluated`: every evaluation in a valid trace ends in one of the ways
* `Evaluation.evaluate_induction`: induction on evaluations
* `Evaluation.evaluate_invariant`: what every change of a memo keeps, an evaluation keeps
-/

namespace ParseActions.Evaluation

variable {c : Evaluation}

/-- How an evaluation that has begun can end. -/
inductive Finished (c : Evaluation) (node : CstNode) (m : Memo) : Outcome → Memo → Prop where
  | terminal (h : c.action.body? node.constructor = none) (hkind : node.kind = .terminal) :
    Finished c node m (.succeeded (c.textOf node)) m
  | unwritten {rule : String} (h : c.action.body? node.constructor = none)
    (hkind : node.kind = .nonterminal rule) (hchildren : ∀ child, node.children ≠ [child]) :
    Finished c node m .failed (m.addTodo (c.keyOf node))
  | passThrough {rule : String} {child : CstId} (h : c.action.body? node.constructor = none)
    (hkind : node.kind = .nonterminal rule) (hchild : node.children = [child]) :
    Finished c node m
      ((c.evaluate child (m.addPassThrough (c.keyOf node))).1.propagated
        (c.evaluate child (m.addPassThrough (c.keyOf node))).2.permissive)
      (c.evaluate child (m.addPassThrough (c.keyOf node))).2
  | body {a : RuleAction} {os : List Outcome} {m₁ : Memo}
    (h : c.action.body? node.constructor = some a)
    (hall : outcomes c.evaluate node.children m = (.ok os, m₁)) :
    Finished c node m (c.runBody a node (os.map Outcome.argument) m₁) m₁
  | collect {os : List Outcome} {m₁ : Memo} (h : c.action.body? node.constructor = none)
    (hkind : node.kind = .iter) (hall : outcomes c.evaluate node.children m = (.ok os, m₁)) :
    Finished c node m (Outcome.collected os) m₁
  | decided {decided : Outcome} {m₁ : Memo}
    (h : c.action.body? node.constructor ≠ none ∨ node.kind = .iter)
    (hall : outcomes c.evaluate node.children m = (.error decided, m₁)) :
    Finished c node m decided m₁

/-- An evaluation that has begun ends in one of the ways. -/
theorem finished (c : Evaluation) (node : CstNode) (m : Memo) :
    c.Finished node m (c.finish node node.children c.evaluate m).1
      (c.finish node node.children c.evaluate m).2 := by
  cases hall : outcomes c.evaluate node.children m with
  | mk g m₁ =>
    cases hbody : c.action.body? node.constructor with
    | some a =>
      simp only [finish, hbody, hall]
      cases g with
      | error decided => exact .decided (.inl (by simp [hbody])) hall
      | ok os => exact .body hbody hall
    | none =>
      cases hkind : node.kind with
      | terminal =>
        rw [finish_of_terminal hbody hkind]
        exact .terminal hbody hkind
      | iter =>
        simp only [finish, hbody, hkind, hall]
        cases g with
        | error decided => exact .decided (.inr hkind) hall
        | ok os => exact .collect hbody hkind hall
      | nonterminal rule =>
        -- without a body, only the outcome of a single child counts
        by_cases hone : ∃ child, node.children = [child]
        · obtain ⟨child, hchild⟩ := hone
          rw [hchild, finish_of_passThrough hbody hkind]
          exact .passThrough hbody hkind hchild
        · rw [not_exists] at hone
          rw [finish_of_unwritten hbody hkind hone]
          exact .unwritten hbody hkind hone

/-- In each of the ways the node makes this of its children. -/
theorem Finished.finish_eq {node : CstNode} {m m₁ : Memo} {outcome : Outcome}
    (h : c.Finished node m outcome m₁) :
    c.finish node node.children c.evaluate m = (outcome, m₁) := by
  cases h with
  | terminal h hkind => exact finish_of_terminal h hkind
  | unwritten h hkind hchildren => exact finish_of_unwritten h hkind hchildren
  | passThrough h hkind hchild => rw [hchild, finish_of_passThrough h hkind]
  | body h hall => simp only [finish, h, hall]
  | collect h hkind hall => simp only [finish, h, hkind, hall]
  | decided h hall =>
    cases hbody : c.action.body? node.constructor with
    | some a => simp only [finish, hbody, hall]
    | none => simp only [finish, hbody, h.resolve_left fun hne => hne hbody, hall]

/-- How an evaluation can end. -/
inductive Evaluated (c : Evaluation) (id : CstId) (m : Memo) : Outcome → Memo → Prop where
  | missing (hnode : c.trace.cstNode? id = none) : Evaluated c id m .failed m
  | known {node : CstNode} {outcome : Outcome} (hnode : c.trace.cstNode? id = some node)
    (h : c.known? (c.keyOf node) m = some outcome) : Evaluated c id m outcome m
  | new {node : CstNode} {outcome : Outcome} {m₁ : Memo}
    (hnode : c.trace.cstNode? id = some node) (hnew : c.known? (c.keyOf node) m = none)
    (h : c.Finished node (m.start (c.keyOf node)) outcome m₁) :
    Evaluated c id m outcome (m₁.set (c.keyOf node) outcome)

/-- A node that does not exist fails. -/
theorem evaluate_of_missing (hv : c.trace.Valid) {id : CstId} (h : c.trace.cstNode? id = none)
    (m : Memo) : c.evaluate id m = (.failed, m) := by
  rw [evaluate_eq_dispatch hv, dispatch_of_missing hv h]

/-- An outcome that is known is used again. -/
theorem evaluate_of_known (hv : c.trace.Valid) {id : CstId} {node : CstNode} {m : Memo}
    {outcome : Outcome} (hnode : c.trace.cstNode? id = some node)
    (h : c.known? (c.keyOf node) m = some outcome) : c.evaluate id m = (outcome, m) := by
  rw [evaluate_eq_dispatch hv, dispatch_of_known hv hnode h]

/-- The outcome of an evaluation that begins, and ends in one of the ways, is recorded. -/
theorem evaluate_of_finished (hv : c.trace.Valid) {id : CstId} {node : CstNode} {m m₁ : Memo}
    {outcome : Outcome} (hnode : c.trace.cstNode? id = some node)
    (hnew : c.known? (c.keyOf node) m = none)
    (h : c.Finished node (m.start (c.keyOf node)) outcome m₁) :
    c.evaluate id m = (outcome, m₁.set (c.keyOf node) outcome) := by
  have hfinish := h.finish_eq
  rw [evaluate_eq_dispatch hv] at hfinish ⊢
  rw [dispatch_of_new hv hnode hnew, hfinish, record]

/-- **Every evaluation** in a valid trace ends in one of the ways. -/
theorem evaluated (hv : c.trace.Valid) (id : CstId) (m : Memo) :
    c.Evaluated id m (c.evaluate id m).1 (c.evaluate id m).2 := by
  cases hnode : c.trace.cstNode? id with
  | none =>
    rw [evaluate_of_missing hv hnode]
    exact .missing hnode
  | some node =>
    cases hnew : c.known? (c.keyOf node) m with
    | some outcome =>
      rw [evaluate_of_known hv hnode hnew]
      exact .known hnode hnew
    | none =>
      have h := c.finished node (m.start (c.keyOf node))
      rw [evaluate_of_finished hv hnode hnew h]
      exact .new hnode hnew h

/-! ## Induction -/

/-- **Induction on evaluations** in a valid trace. An evaluation that begins may count on what holds
of all evaluations of the children, whatever is known before them. -/
theorem evaluate_induction (hv : c.trace.Valid) {P : CstId → Memo → Outcome → Memo → Prop}
    (missing : ∀ id m, c.trace.cstNode? id = none → P id m .failed m)
    (known : ∀ id node m outcome, c.trace.cstNode? id = some node →
      c.known? (c.keyOf node) m = some outcome → P id m outcome m)
    (new : ∀ id node m outcome m₁, c.trace.cstNode? id = some node →
      c.known? (c.keyOf node) m = none → c.Finished node (m.start (c.keyOf node)) outcome m₁ →
      (∀ child ∈ node.children, ∀ m, P child m (c.evaluate child m).1 (c.evaluate child m).2) →
      P id m outcome (m₁.set (c.keyOf node) outcome))
    (id : CstId) : ∀ m, P id m (c.evaluate id m).1 (c.evaluate id m).2 := by
  -- the memo is arbitrary, as what is evaluated before a child is not below it
  induction id using hv.tree_induction with
  | step id ih =>
    intro m
    have hevaluated := evaluated hv id m
    generalize (c.evaluate id m).1 = outcome at hevaluated ⊢
    generalize (c.evaluate id m).2 = m' at hevaluated ⊢
    cases hevaluated with
    | missing hnode => exact missing id m hnode
    | known hnode h => exact known id _ m outcome hnode h
    | new hnode hnew h =>
      rw [Trace.cstChildren_of_cstNode? hnode] at ih
      exact new id _ m outcome _ hnode hnew h ih

section Invariant

variable {P : Memo → Prop}

theorem outcomes_invariant {outcomeOf : CstId → Memo → Outcome × Memo} {ids : List CstId}
    (h : ∀ id ∈ ids, ∀ m, P m → P (outcomeOf id m).2) {m : Memo} (hm : P m) :
    P (outcomes outcomeOf ids m).2 := by
  induction ids generalizing m with
  | nil => exact hm
  | cons id rest ih =>
    have hid := h id List.mem_cons_self m hm
    by_cases herrored : (outcomeOf id m).1.IsErrored
    · rw [outcomes_cons_of_errored herrored]
      exact hid
    · rw [outcomes_cons_of_not_errored herrored]
      exact ih (fun id hid => h id (List.mem_cons_of_mem _ hid)) hid

/-- What decides the outcome of a node is the error of the child that was evaluated last. -/
theorem exists_of_outcomes_eq_error {outcomeOf : CstId → Memo → Outcome × Memo} {ids : List CstId}
    (h : ∀ id ∈ ids, ∀ m, P m → P (outcomeOf id m).2) {m m₁ : Memo} (hm : P m) {decided : Outcome}
    (hdecided : outcomes outcomeOf ids m = (.error decided, m₁)) :
    ∃ id ∈ ids, ∃ n, P n ∧ (outcomeOf id n).1.IsErrored ∧ (outcomeOf id n).2 = m₁ ∧
      (outcomeOf id n).1.propagated m₁.permissive = decided := by
  induction ids generalizing m with
  | nil => cases hdecided
  | cons id rest ih =>
    rcases outcomes_cons_eq_error.mp hdecided with herror | ⟨-, hrest⟩
    · exact ⟨id, List.mem_cons_self, m, hm, herror⟩
    · obtain ⟨i, hi, hlast⟩ := ih (fun id hid => h id (List.mem_cons_of_mem _ hid))
        (h id List.mem_cons_self m hm) hrest
      exact ⟨i, List.mem_cons_of_mem _ hi, hlast⟩

/-- Each outcome that is gathered is that of a child, after which others were evaluated. -/
theorem exists_of_mem_outcomes {outcomeOf : CstId → Memo → Outcome × Memo} {ids : List CstId}
    (h : ∀ id ∈ ids, ∀ m, P m → P (outcomeOf id m).2) {m m₁ : Memo} (hm : P m) {os : List Outcome}
    (hos : outcomes outcomeOf ids m = (.ok os, m₁)) {o : Outcome} (ho : o ∈ os) :
    ∃ id ∈ ids, ∃ n, P n ∧ (outcomeOf id n).1 = o ∧ ¬ o.IsErrored ∧
      ∃ later, (outcomes outcomeOf later (outcomeOf id n).2).2 = m₁ := by
  induction ids generalizing m os with
  | nil =>
    cases hos
    cases ho
  | cons id rest ih =>
    obtain ⟨hnot, others, hothers, rfl⟩ := outcomes_cons_eq_ok.mp hos
    rcases List.mem_cons.mp ho with rfl | ho
    · exact ⟨id, List.mem_cons_self, m, hm, rfl, hnot, rest, congrArg Prod.snd hothers⟩
    · obtain ⟨i, hi, hfound⟩ := ih (fun id hid => h id (List.mem_cons_of_mem _ hid))
        (h id List.mem_cons_self m hm) hothers ho
      exact ⟨i, List.mem_cons_of_mem _ hi, hfound⟩

/-- What evaluations of the children keep, an evaluation that has begun keeps, if notes about the
node do not destroy it. -/
theorem Finished.invariant {node : CstNode} {m m₁ : Memo} {outcome : Outcome}
    (h : c.Finished node m outcome m₁)
    (hchildren : ∀ child ∈ node.children, ∀ m, P m → P (c.evaluate child m).2)
    (htodo : c.action.body? node.constructor = none → (∃ rule, node.kind = .nonterminal rule) →
      (∀ child, node.children ≠ [child]) → P (m.addTodo (c.keyOf node)))
    (hpassThrough : c.Opens node .passThrough → P (m.addPassThrough (c.keyOf node))) (hm : P m) :
    P m₁ := by
  have hall := outcomes_invariant hchildren hm
  cases h with
  | terminal => exact hm
  | unwritten hbody hkind hnone => exact htodo hbody ⟨_, hkind⟩ hnone
  | @passThrough _ child hbody hkind hchild =>
    exact hchildren child (hchild ▸ List.mem_singleton_self child) _
      (hpassThrough (.passThrough hbody hkind hchild))
  | body _ hos => rwa [hos] at hall
  | collect _ _ hos => rwa [hos] at hall
  | decided _ hos => rwa [hos] at hall

/-- **What every change of a memo keeps**, an evaluation keeps. -/
theorem evaluate_invariant (hv : c.trace.Valid) (hstart : ∀ m key, P m → P (m.start key))
    (hset : ∀ m key outcome, P m → P (m.set key outcome))
    (htodo : ∀ m key, P m → P (m.addTodo key))
    (hpassThrough : ∀ m key, P m → P (m.addPassThrough key)) (id : CstId) :
    ∀ m, P m → P (c.evaluate id m).2 := by
  refine evaluate_induction hv (P := fun _ m _ m' => P m → P m') ?_ ?_ ?_ id
  · exact fun _ _ _ hm => hm
  · exact fun _ _ _ _ _ _ hm => hm
  · intro _ node m outcome m₁ _ _ h ih hm
    -- recording the outcome is the last change
    refine hset _ _ _ (h.invariant ih (fun _ _ _ => htodo _ _ ?_) (fun _ => hpassThrough _ _ ?_) ?_)
    all_goals exact hstart _ _ hm

end Invariant

end ParseActions.Evaluation
