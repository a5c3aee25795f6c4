import ParseActions.Proofs.Memo.Leniency
import ParseActions.Proofs.Memo.Once
import ParseActions.Proofs.Walk.Panels

/-!
# The evaluations of a walk

A walk evaluates the node of the step that it begins at, and then those nodes that a panel asks for
because no outcome is recorded. Noting each of them, with the memo that it finds, does not change
the walk. What the evaluations did in turn is what the walk did with its memo.

## Main definitions

* `Walk.asked?`: the node that is evaluated for the panel of a step
* `Walk.starts`: the evaluations of a walk, each with the memo that it finds
* `Walk.begun`, `Walk.memos`: the nodes whose evaluation begins in the course of a walk, and the
  memos that it passes

## Main results

* `Walk.starts_invariant`: what each evaluation keeps of what was noted holds in the end
* `Walk.begun_once`: while an attribute is active, a walk evaluates each node at most once
-/

namespace ParseActions.Walk

variable {w : Walk}

/-! ## What is evaluated -/

/-- The node that is evaluated for the panel of a step: that of the step, if its outcome is not
recorded. -/
def asked? (w : Walk) (visit : Visit) (s : State) : Option CstId := do
  let node ← w.trace.node? visit.node
  let panel ← if w.isHidden node then none else (w.panel visit.node node s).1
  if s.memo.has panel.key then none else node.cst

/-- A step changes the memo by the evaluation that its panel asks for, if it asks for one. -/
theorem memo_enter (visit : Visit) (s : State) :
    w.asked? visit s = none ∧ (w.visitor.enter visit s).2.memo = s.memo ∨
      ∃ action id, w.action = some action ∧ w.asked? visit s = some id ∧
        (w.visitor.enter visit s).2.memo = ((w.evaluation action).evaluate id s.memo).2 := by
  cases hnode : w.trace.node? visit.node with
  | none => exact .inl (by simp [asked?, visitor, hnode])
  | some node =>
    by_cases hhidden : w.isHidden node
    · exact .inl (by simp [asked?, visitor, hnode, hhidden])
    · have hpaneled := w.paneled visit.node node s
      simp only [asked?, visitor, hnode, hhidden, memo_draw, Option.bind_eq_bind, Option.bind_some,
        Bool.false_eq_true, if_false]
      generalize (w.panel visit.node node s).1 = panel at hpaneled ⊢
      generalize (w.panel visit.node node s).2 = s' at hpaneled ⊢
      cases hpaneled with
      | bare => exact .inl ⟨rfl, rfl⟩
      | @drawn action rule cst cstNode haction hcst _ =>
        -- the panel asks for an evaluation where it finds no outcome
        have hmemo : (w.rulePanel action visit.node rule cst cstNode s).2.memo =
          (w.outcomeOf action cst (.of cstNode action.name) s.memo).2 := rfl
        have hkey : (w.rulePanel action visit.node rule cst cstNode s).1.key =
          .of cstNode action.name := rfl
        rw [Option.bind_some, hmemo, hkey, Memo.has, outcomeOf]
        cases s.memo.get? (.of cstNode action.name) with
        | none => exact .inr ⟨action, cst, haction, hcst, rfl⟩
        | some outcome => exact .inl ⟨rfl, rfl⟩

/-- A visitor that notes the evaluations of a walk. -/
def noting (w : Walk) : Visitor (State × List (CstId × Memo)) where
  enter visit s :=
    let (descent, next) := w.visitor.enter visit s.1
    (descent, next, s.2 ++ (w.asked? visit s.1).toList.map fun id => (id, s.1.memo))
  leave visit s := (w.visitor.leave visit s.1, s.2)

/-- The evaluation at the step that a walk begins at, if there is one. -/
def firstStart (w : Walk) (focus : TraceId) : List (CstId × Memo) :=
  match w.action, (w.trace.node? focus).bind TraceNode.cst with
  | some _, some id => [(id, .empty)]
  | _, _ => []

/-- The evaluations of a walk in turn, each with the memo that it finds. -/
def starts (w : Walk) (focus : TraceId) (lastEdited : Option NodeKey) : List (CstId × Memo) :=
  (w.trace.walk w.noting focus
    (⟨(w.evaluateFocus focus).2, lastEdited, #[], []⟩, w.firstStart focus)).2

/-- Noting evaluations does not change the walk. -/
theorem walk_noting (focus : TraceId) (s : State) (l : List (CstId × Memo)) :
    (w.trace.walk w.noting focus (s, l)).1 = w.trace.walk w.visitor focus s :=
  (Trace.walk_map (f := Prod.fst) (v := w.noting) (fun _ _ => rfl) (fun _ _ => rfl) focus _).symm

/-- **What each evaluation keeps** of what was noted holds in the end. -/
theorem starts_invariant {P : Memo → List (CstId × Memo) → Prop}
    (hevaluate : ∀ action, w.action = some action → ∀ id m l, P m l →
      P ((w.evaluation action).evaluate id m).2 (l ++ [(id, m)]))
    (hempty : P .empty []) (focus : TraceId) (lastEdited : Option NodeKey) :
    P (w.run focus lastEdited).memo (w.starts focus lastEdited) := by
  have henter (visit : Visit) (s : State × List (CstId × Memo)) (hs : P s.1.memo s.2) :
      P (w.noting.enter visit s).2.1.memo (w.noting.enter visit s).2.2 := by
    change P (w.visitor.enter visit s.1).2.memo
      (s.2 ++ (w.asked? visit s.1).toList.map fun id => (id, s.1.memo))
    rcases memo_enter visit s.1 with ⟨hasked, hmemo⟩ | ⟨action, id, haction, hasked, hmemo⟩
    · rw [hmemo, hasked]
      simpa using hs
    · rw [hmemo, hasked]
      exact hevaluate action haction id s.1.memo s.2 hs
  have hmemo : (w.run focus lastEdited).memo = (w.trace.walk w.noting focus
      (⟨(w.evaluateFocus focus).2, lastEdited, #[], []⟩, w.firstStart focus)).1.memo :=
    congrArg State.memo (walk_noting focus _ _).symm
  rw [hmemo, starts]
  refine Trace.walk_invariant (P := fun s : State × List (CstId × Memo) => P s.1.memo s.2) henter
    (fun _ _ hs => hs) focus ?_
  cases haction : w.action with
  | none =>
    simp only [evaluateFocus, firstStart, haction]
    exact hempty
  | some action =>
    cases hcst : (w.trace.node? focus).bind TraceNode.cst with
    | none =>
      simp only [evaluateFocus, firstStart, haction, hcst]
      exact hempty
    | some id =>
      simp only [evaluateFocus, firstStart, haction, hcst]
      exact hevaluate action haction id .empty [] hempty

/-- The nodes whose evaluation begins in the course of a walk, in turn. -/
def begun (w : Walk) (action : Action) (focus : TraceId) (lastEdited : Option NodeKey) :
    List CstId :=
  (w.starts focus lastEdited).flatMap fun start => (w.evaluation action).allBegun start.1 start.2

/-- The memos that a walk passes, the cleared one first. -/
def memos (w : Walk) (action : Action) (focus : TraceId) (lastEdited : Option NodeKey) :
    List Memo :=
  .empty :: (w.starts focus lastEdited).flatMap fun start =>
    (w.evaluation action).memos start.1 start.2

/-- While an attribute is active, a walk keeps to one evaluation of each node. -/
theorem once_of_run (hv : w.trace.Valid) {action : Action} (haction : w.action = some action)
    (hkind : action.kind = .property) (focus : TraceId) (lastEdited : Option NodeKey) :
    (w.evaluation action).Once (w.run focus lastEdited).memo (w.begun action focus lastEdited) := by
  refine starts_invariant (P := fun m starts => (w.evaluation action).Once m
    (starts.flatMap fun start => (w.evaluation action).allBegun start.1 start.2)) ?_ .empty focus
    lastEdited
  intro action' haction' id m starts honce
  obtain rfl := Option.some.inj (haction.symm.trans haction')
  rw [List.flatMap_append, List.flatMap_singleton]
  exact honce.evaluate hv hkind id

/-- **While an attribute is active**, a walk begins the evaluation of each node at most once, so
there are no more evaluations than nodes of the syntax tree. -/
theorem begun_once (ht : w.trace.validate = .ok ()) {action : Action}
    (haction : w.action = some action) (hkind : action.kind = .property) (focus : TraceId)
    (lastEdited : Option NodeKey) :
    (w.begun action focus lastEdited).Nodup ∧
      (w.run focus lastEdited).report.evaluations = (w.begun action focus lastEdited).length ∧
      (w.run focus lastEdited).report.evaluations ≤ w.trace.cst.size := by
  have honce := once_of_run (Trace.valid_of_validate ht) haction hkind focus lastEdited
  have hcount : (w.run focus lastEdited).report.evaluations =
    (w.begun action focus lastEdited).length := honce.evaluations
  exact ⟨honce.nodup, hcount, hcount.le.trans honce.evaluations_le⟩

theorem begun_once_sample :
    let action : Action := { Evaluation.sample.action with kind := .property }
    let w : Walk := { sample with action := some action }
    w.trace.validate = .ok () ∧ (w.run ⟨0⟩ none).report.evaluations ≤ 3 := by
  intro action w
  obtain ⟨-, -, hle⟩ := begun_once (w := w) Trace.validate_sample rfl rfl ⟨0⟩ none
  exact ⟨Trace.validate_sample, hle⟩

end ParseActions.Walk
