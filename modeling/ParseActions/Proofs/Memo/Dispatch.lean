import ParseActions.Proofs.Memo.Entering
import ParseActions.Proofs.Trace.Validity

/-!
# The loop and the recursion agree

The plain recursion gives the outcome of a node from those of its children, in turn and up to the
first error. The loop over the stack does the same with the nodes that wait: from the moment that a
node is entered it works on the nodes below it alone, and then goes on with the rest of the stack,
the outcome and the memo that the recursion gives. In a valid trace no node is below itself, so the
recursion ends, and with it the loop.

## Main definitions

* `Evaluation.outcomes`, `Evaluation.finish`: the outcomes of nodes in turn, and what a node makes
  of those of its children
* `Evaluation.dispatch`: the outcome of a node, by recursion
* `Evaluation.Ends`: how the loop ends
* `Evaluation.Follows`: the loop goes on with the outcome of a node, once it has entered the node

## Main results

* `Evaluation.follows_dispatch`: the loop goes on with the outcome of the recursion
* `Evaluation.ends_and_evaluate_eq_dispatch`: the loop ends with the outcome of the recursion
-/

namespace ParseActions.Evaluation

/-! ## The recursion -/

/-- The outcomes of nodes from left to right, up to the first error. -/
def outcomes {α : Type} (outcomeOf : α → Memo → Outcome × Memo) :
    List α → Memo → Except Outcome (List Outcome) × Memo
  | [], m => (.ok [], m)
  | id :: rest, m =>
    match outcomeOf id m with
    | (.errored e, m) => (.error ((Outcome.errored e).propagated m.permissive), m)
    | (outcome, m) =>
      ((outcomes outcomeOf rest m).1.map (outcome :: ·), (outcomes outcomeOf rest m).2)

/-- What a node whose evaluation has begun makes of its children. -/
def finish {α : Type} (c : Evaluation) (node : CstNode) (children : List α)
    (outcomeOf : α → Memo → Outcome × Memo) (m : Memo) : Outcome × Memo :=
  match c.action.body? node.constructor, node.kind with
  | some a, _ =>
    match outcomes outcomeOf children m with
    | (.error decided, m) => (decided, m)
    | (.ok outcomes, m) => (c.runBody a node (outcomes.map Outcome.argument) m, m)
  | none, .terminal => (.succeeded (.string (c.trace.text node.interval)), m)
  | none, .iter =>
    match outcomes outcomeOf children m with
    | (.error decided, m) => (decided, m)
    | (.ok outcomes, m) => (Outcome.collected outcomes, m)
  | none, .nonterminal _ =>
    match children with
    | [child] =>
      let (outcome, m) := outcomeOf child (m.addPassThrough (c.keyOf node))
      (outcome.propagated m.permissive, m)
    | _ => (.failed, m.addTodo (c.keyOf node))

/-- **The outcome of a node, by recursion** on the nodes below it. A node that does not exist fails,
and an outcome that is known is used again. -/
def dispatch (c : Evaluation) (hv : c.trace.Valid) (id : CstId) (m : Memo) : Outcome × Memo :=
  match c.trace.cstNode? id with
  | none => (.failed, m)
  | some node =>
    match c.known? (c.keyOf node) m with
    | some outcome => (outcome, m)
    | none =>
      -- the children come with the proof that they are below the node
      let (outcome, m) := c.finish node (c.trace.cstChildren id).attach
        (fun child m => c.dispatch hv child.1 m) (m.start (c.keyOf node))
      record (c.keyOf node) outcome m
termination_by hv.wellFounded.wrap id
decreasing_by exact child.2

variable {c : Evaluation}

section Outcomes

variable {α β : Type} {outcomeOf : α → Memo → Outcome × Memo} {id : α} {m : Memo}

theorem outcomes_cons_of_errored (h : (outcomeOf id m).1.IsErrored) (rest : List α) :
    outcomes outcomeOf (id :: rest) m =
      (.error ((outcomeOf id m).1.propagated (outcomeOf id m).2.permissive),
        (outcomeOf id m).2) := by
  rw [outcomes]
  generalize outcomeOf id m = r at h
  obtain ⟨outcome, m₁⟩ := r
  obtain ⟨e, rfl⟩ := h
  rfl

theorem outcomes_cons_of_not_errored (h : ¬ (outcomeOf id m).1.IsErrored) (rest : List α) :
    outcomes outcomeOf (id :: rest) m =
      ((outcomes outcomeOf rest (outcomeOf id m).2).1.map ((outcomeOf id m).1 :: ·),
        (outcomes outcomeOf rest (outcomeOf id m).2).2) := by
  rw [outcomes]
  generalize outcomeOf id m = r at h
  obtain ⟨outcome, m₁⟩ := r
  cases outcome with
  | errored e => exact absurd ⟨e, rfl⟩ h
  | _ => rfl

/-- Several nodes give outcomes when each of them does, without an error. -/
theorem outcomes_cons_eq_ok {rest : List α} {os : List Outcome} {m' : Memo} :
    outcomes outcomeOf (id :: rest) m = (.ok os, m') ↔ ¬ (outcomeOf id m).1.IsErrored ∧
      ∃ others, outcomes outcomeOf rest (outcomeOf id m).2 = (.ok others, m') ∧
        (outcomeOf id m).1 :: others = os := by
  by_cases h : (outcomeOf id m).1.IsErrored
  · simp [outcomes_cons_of_errored h, h]
  · rw [outcomes_cons_of_not_errored h]
    rcases outcomes outcomeOf rest (outcomeOf id m).2 with ⟨decided | others, m₁⟩
    · simp [Except.map]
    · simp [Except.map, h, and_comm]

/-- The outcome of a single node, unless it is an error. -/
theorem outcomes_singleton {outcome : Outcome} {m' : Memo} (h : outcomeOf id m = (outcome, m'))
    (hok : ¬ outcome.IsErrored) : outcomes outcomeOf [id] m = (.ok [outcome], m') := by
  refine outcomes_cons_eq_ok.mpr ⟨?_, [], ?_, ?_⟩
  · rwa [h]
  · rw [h]
    rfl
  · rw [h]

/-- An error decides where it arises, or among the nodes after the first one. -/
theorem outcomes_cons_eq_error {rest : List α} {decided : Outcome} {m' : Memo} :
    outcomes outcomeOf (id :: rest) m = (.error decided, m') ↔
      (outcomeOf id m).1.IsErrored ∧ (outcomeOf id m).2 = m' ∧
          (outcomeOf id m).1.propagated m'.permissive = decided ∨
        ¬ (outcomeOf id m).1.IsErrored ∧
          outcomes outcomeOf rest (outcomeOf id m).2 = (.error decided, m') := by
  by_cases h : (outcomeOf id m).1.IsErrored
  · rw [outcomes_cons_of_errored h]
    simp only [h, true_and, not_true, false_and, or_false, Prod.mk.injEq, Except.error.injEq]
    exact ⟨fun ⟨hdecided, hm⟩ => ⟨hm, hm ▸ hdecided⟩, fun ⟨hm, hdecided⟩ => ⟨hm ▸ hdecided, hm⟩⟩
  · rw [outcomes_cons_of_not_errored h]
    rcases outcomes outcomeOf rest (outcomeOf id m).2 with ⟨decided | others, m₁⟩ <;>
      simp [Except.map, h]

theorem outcomes_map (g : β → α) (ids : List β) (m : Memo) :
    outcomes outcomeOf (ids.map g) m = outcomes (fun id => outcomeOf (g id)) ids m := by
  induction ids generalizing m with
  | nil => rfl
  | cons id rest ih => simp only [List.map_cons, outcomes, ih]

theorem finish_map (node : CstNode) (g : β → α) (ids : List β) (m : Memo) :
    c.finish node (ids.map g) outcomeOf m = c.finish node ids (fun id => outcomeOf (g id)) m := by
  unfold finish
  rw [outcomes_map]
  rcases ids with - | ⟨id, - | ⟨id', rest⟩⟩ <;> rfl

theorem finish_attach (node : CstNode) (outcomeOf : α → Memo → Outcome × Memo) (ids : List α)
    (m : Memo) :
    c.finish node ids.attach (fun id => outcomeOf id.1) m = c.finish node ids outcomeOf m := by
  rw [← finish_map, List.attach_map_subtype_val]

end Outcomes

section Finish

variable {α : Type} {node : CstNode} {ids : List α} {outcomeOf : α → Memo → Outcome × Memo}
  {m : Memo}

theorem finish_of_terminal (h : c.action.body? node.constructor = none)
    (hkind : node.kind = .terminal) :
    c.finish node ids outcomeOf m = (.succeeded (c.textOf node), m) := by
  simp only [finish, h, hkind, textOf]

theorem finish_of_unwritten {rule : String} (h : c.action.body? node.constructor = none)
    (hkind : node.kind = .nonterminal rule) (hids : ∀ id, ids ≠ [id]) :
    c.finish node ids outcomeOf m = (.failed, m.addTodo (c.keyOf node)) := by
  simp only [finish, h, hkind]

theorem finish_of_passThrough {rule : String} {id : α}
    (h : c.action.body? node.constructor = none) (hkind : node.kind = .nonterminal rule) :
    c.finish node [id] outcomeOf m =
      ((outcomeOf id (m.addPassThrough (c.keyOf node))).1.propagated
        (outcomeOf id (m.addPassThrough (c.keyOf node))).2.permissive,
        (outcomeOf id (m.addPassThrough (c.keyOf node))).2) := by
  simp only [finish, h, hkind]

/-- A body, or a repetition, makes its outcome of those of all children. -/
theorem finish_of_opens {mode : Mode} (h : c.Opens node mode) (hm : mode ≠ .passThrough)
    {g : Except Outcome (List Outcome) × Memo} (hall : outcomes outcomeOf ids m = g) :
    c.finish node ids outcomeOf m =
      (c.conclude node mode (g.1.map (Gathered.none.addAll mode)) g.2, g.2) := by
  obtain ⟨os | os, m₁⟩ := g
  · cases h with
    | body hbody => simp only [finish, hbody, hall, Except.map, conclude]
    | passThrough => exact absurd rfl hm
    | collect hbody hkind => simp only [finish, hbody, hkind, hall, Except.map, conclude]
  · cases h with
    | body hbody => simp only [finish, hbody, hall, Except.map, conclude_body]
    | passThrough => exact absurd rfl hm
    | collect hbody hkind => simp only [finish, hbody, hkind, hall, Except.map, conclude_collect]

end Finish

/-- A node that does not exist fails. -/
theorem dispatch_of_missing (hv : c.trace.Valid) {id : CstId} (h : c.trace.cstNode? id = none)
    (m : Memo) : c.dispatch hv id m = (.failed, m) := by
  rw [dispatch, h]

section Node

variable (hv : c.trace.Valid) {id : CstId} {node : CstNode} {m : Memo}
  (hnode : c.trace.cstNode? id = some node)
include hnode

/-- An outcome that is known is used again. -/
theorem dispatch_of_known {outcome : Outcome} (h : c.known? (c.keyOf node) m = some outcome) :
    c.dispatch hv id m = (outcome, m) := by
  rw [dispatch]
  simp only [hnode, h]

/-- The outcome of a node that is not known is what the node makes of its children, recorded. -/
theorem dispatch_of_new (h : c.known? (c.keyOf node) m = none) :
    c.dispatch hv id m =
      record (c.keyOf node) (c.finish node node.children (c.dispatch hv) (m.start (c.keyOf node))).1
        (c.finish node node.children (c.dispatch hv) (m.start (c.keyOf node))).2 := by
  rw [dispatch]
  simp only [hnode, h]
  rw [finish_attach node (c.dispatch hv), Trace.cstChildren_of_cstNode? hnode]

end Node

/-! ## The loop -/

/-- How the loop ends: in the last round, or as it ends from what a round leaves. -/
inductive Ends (c : Evaluation) : Work → Outcome × Memo → Prop where
  | last {work : Work} {r : Outcome × Memo} (h : c.step work = .inr r) : Ends c work r
  | next {work work' : Work} {r : Outcome × Memo} (h : c.step work = .inl work')
    (hends : Ends c work' r) : Ends c work r

section Loop

variable {work work' : Work} {r : Outcome × Memo}

/-- The loop gives what it ends with. -/
theorem loop_eq_of_ends (h : c.Ends work r) : c.loop work = r := by
  induction h with
  | last h =>
    rw [loop, repeatM_eq_of_monadTail, repeatM.body, h]
    rfl
  | next h _ ih =>
    rw [loop, repeatM_eq_of_monadTail, repeatM.body, h]
    exact ih

/-- Only what a round does counts. -/
theorem Ends.congr (hends : c.Ends work r) (h : c.step work' = c.step work) : c.Ends work' r := by
  cases hends with
  | last hlast => exact .last (h.trans hlast)
  | next hnext hends => exact .next (h.trans hnext) hends

end Loop

section Steps

variable {node : CstNode} {mode : Mode} {results : Gathered} {id : CstId} {rest : List CstId}
  {stack : List Frame} {m : Memo} {outcome : Outcome}

/-- The next child is entered. -/
theorem step_next :
    c.step ⟨⟨node, mode, results, id :: rest⟩ :: stack, none, m⟩ =
      .inl (c.descend id m (⟨node, mode, results, rest⟩ :: stack)) :=
  rfl

/-- When no child is left, the node is closed. -/
theorem step_close :
    c.step ⟨⟨node, mode, results, []⟩ :: stack, none, m⟩ =
      .inl (.after stack (c.close node mode (.ok results) m)) :=
  rfl

/-- An outcome that is no error is gathered. -/
theorem step_gather (hm : mode ≠ .passThrough) (h : ¬ outcome.IsErrored) :
    c.step ⟨⟨node, mode, results, rest⟩ :: stack, some outcome, m⟩ =
      c.step ⟨⟨node, mode, results.add mode outcome, rest⟩ :: stack, none, m⟩ := by
  simp only [step, Frame.gathered, accept_of_not_errored hm h]

/-- An error, and the outcome of an only child, closes the node. -/
theorem step_decide
    (h : accept mode results m.permissive outcome = .error (outcome.propagated m.permissive)) :
    c.step ⟨⟨node, mode, results, rest⟩ :: stack, some outcome, m⟩ =
      .inl (.after stack
        (c.close node mode (.error (outcome.propagated m.permissive)) m)) := by
  simp only [step, Frame.gathered, h]

end Steps

/-! ## The simulation -/

/-- From the moment that a node is entered, the loop ends as it ends with the outcome of the node,
whatever the stack is. -/
def Follows (c : Evaluation) (outcomeOf : CstId → Memo → Outcome × Memo) (id : CstId) : Prop :=
  ∀ m stack r, c.Ends (.after stack (outcomeOf id m)) r → c.Ends (c.descend id m stack) r

section Simulation

variable {outcomeOf : CstId → Memo → Outcome × Memo} {node : CstNode} {mode : Mode}
  {stack : List Frame} {m : Memo} {r : Outcome × Memo}

/-- **The children of a node** are gathered by the loop as by the recursion. -/
theorem ends_of_outcomes {ids : List CstId} {g : Except Outcome (List Outcome) × Memo}
    (h : ∀ id ∈ ids, c.Follows outcomeOf id) (hm : mode ≠ .passThrough)
    (hall : outcomes outcomeOf ids m = g) {results : Gathered}
    (hends : c.Ends (.after stack (c.close node mode (g.1.map (results.addAll mode)) g.2)) r) :
    c.Ends ⟨⟨node, mode, results, ids⟩ :: stack, none, m⟩ r := by
  induction ids generalizing m g results with
  | nil =>
    subst hall
    exact .next step_close hends
  | cons id rest ih =>
    -- the node itself is on top of what waits while the child is evaluated
    refine .next step_next (h id List.mem_cons_self m _ r ?_)
    by_cases herrored : (outcomeOf id m).1.IsErrored
    -- the error decides the node, and the children that are left are not evaluated
    · rw [outcomes_cons_of_errored herrored] at hall
      subst hall
      exact .next (step_decide (accept_of_errored herrored)) hends
    · rw [outcomes_cons_of_not_errored herrored] at hall
      subst hall
      -- the round that gathers the outcome goes on with the next child at once
      refine (ih (fun id hid => h id (List.mem_cons_of_mem _ hid)) rfl ?_).congr
        (step_gather hm herrored)
      generalize outcomes outcomeOf rest (outcomeOf id m).2 = g at hends ⊢
      obtain ⟨os | os, m₁⟩ := g <;> exact hends

/-- **A node that is opened** ends with its children. -/
theorem ends_of_finish (h : c.Opens node mode) (hchildren : ∀ id ∈ node.children,
    c.Follows outcomeOf id) {g : Outcome × Memo}
    (hfinish : c.finish node node.children outcomeOf m = g)
    (hends : c.Ends (.after stack (record (c.keyOf node) g.1 g.2)) r) :
    c.Ends ⟨.start node mode :: stack, none, mode.note (c.keyOf node) m⟩ r := by
  by_cases hm : mode = .passThrough
  -- the only child decides the node, whatever its outcome is
  · subst hm
    obtain - | ⟨hbody, hkind, hchild⟩ := h
    rw [hchild, finish_of_passThrough hbody hkind] at hfinish
    subst hfinish
    rw [Frame.start, hchild]
    refine .next step_next (hchildren _ (hchild ▸ List.mem_singleton_self _) _ _ r ?_)
    exact .next (step_decide accept_passThrough) hends
  · have hnote : mode.note (c.keyOf node) m = m := by cases h <;> first | rfl | exact absurd rfl hm
    rw [finish_of_opens h hm rfl] at hfinish
    subst hfinish
    rw [hnote]
    exact ends_of_outcomes hchildren hm rfl hends

end Simulation

theorem descend_of_done {id : CstId} {m m₁ : Memo} {outcome : Outcome}
    (h : c.enter id m = (.done outcome, m₁)) (stack : List Frame) :
    c.descend id m stack = .after stack (outcome, m₁) := by
  simp only [descend, h]

theorem descend_of_opened {id : CstId} {m m₁ : Memo} {node : CstNode} {mode : Mode}
    (h : c.enter id m = (.opened node mode, m₁)) (stack : List Frame) :
    c.descend id m stack = ⟨.start node mode :: stack, none, m₁⟩ := by
  simp only [descend, h]

/-- **The loop follows the recursion** from every node of a valid trace. -/
theorem follows_dispatch (hv : c.trace.Valid) (id : CstId) : c.Follows (c.dispatch hv) id := by
  -- the stack is arbitrary: what waits on it is not looked at before the node has its outcome
  induction id using hv.tree_induction with
  | step id ih =>
    intro m stack r hends
    cases henter : c.enter id m with
    | mk opening m₁ =>
      have hentered : c.Entered id m opening m₁ := by simpa only [henter] using c.entered id m
      cases hentered with
      | missing hnode => rwa [descend_of_done henter, ← dispatch_of_missing hv hnode]
      | known hnode h => rwa [descend_of_done henter, ← dispatch_of_known hv hnode h]
      | terminal hnode hnew h hkind =>
        rw [dispatch_of_new hv hnode hnew, finish_of_terminal h hkind] at hends
        rwa [descend_of_done henter]
      | unwritten hnode hnew h hkind hchildren =>
        rw [dispatch_of_new hv hnode hnew, finish_of_unwritten h hkind
          fun _ hchild => hchildren (congrArg List.length hchild)] at hends
        rwa [descend_of_done henter]
      | opened hnode hnew h =>
        rw [dispatch_of_new hv hnode hnew] at hends
        rw [Trace.cstChildren_of_cstNode? hnode] at ih
        rw [descend_of_opened henter]
        exact ends_of_finish h ih rfl hends

/-- **The loop ends** in a valid trace, with the outcome of the recursion. -/
theorem ends_dispatch (hv : c.trace.Valid) (id : CstId) (m : Memo) :
    c.Ends (c.descend id m []) (c.dispatch hv id m) :=
  follows_dispatch hv id m [] _ (.last rfl)

/-- The outcome of a node is that of the recursion. -/
theorem evaluate_eq_dispatch (hv : c.trace.Valid) : c.evaluate = c.dispatch hv :=
  funext₂ fun id m => loop_eq_of_ends (ends_dispatch hv id m)

/-- **The loop over the stack ends**, and leaves what the recursion leaves: the outcome, the
entries, both lists, and how often evaluations have begun. -/
theorem ends_and_evaluate_eq_dispatch (ht : c.trace.validate = .ok ()) (id : CstId) (m : Memo) :
    c.Ends (c.descend id m []) (c.dispatch (Trace.valid_of_validate ht) id m) ∧
      c.evaluate id m = c.dispatch (Trace.valid_of_validate ht) id m :=
  have hends := ends_dispatch (Trace.valid_of_validate ht) id m
  ⟨hends, loop_eq_of_ends hends⟩

/-- An operation with a body for `Twice`, which gives the value of the second factor, and none for
`letter`. -/
def sample : Evaluation where
  trace := .sample
  action := ⟨"show", .operation, [("Twice", ⟨"Twice", ["first", "second"],
    .expr (.ident ⟨1, 1, 1, 6⟩ "second"), ⟨["first", "second"], "second"⟩⟩)]⟩
  limit := 100

theorem ends_and_evaluate_eq_dispatch_sample :
    sample.trace.validate = .ok () ∧
      sample.Ends (sample.descend ⟨0⟩ .empty [])
        (sample.dispatch (Trace.valid_of_validate Trace.validate_sample) ⟨0⟩ .empty) ∧
      sample.evaluate ⟨0⟩ .empty =
        sample.dispatch (Trace.valid_of_validate Trace.validate_sample) ⟨0⟩ .empty :=
  ⟨Trace.validate_sample, ends_and_evaluate_eq_dispatch Trace.validate_sample ⟨0⟩ .empty⟩

end ParseActions.Evaluation
