import ParseActions.Proofs.Memo.Reference
import ParseActions.Proofs.Trace.Visit
import ParseActions.Walk.Basic

/-!
# What a walk records

A walk changes the memo by evaluations of the active action alone: first at the step that the walk
begins at, and then wherever a panel asks for an outcome that is not recorded. So what evaluations
keep holds of the memo after the walk. In particular all that is recorded in the end agrees with the
values of the nodes, whichever evaluations there were.

## Main results

* `Walk.run_invariant`: what evaluations keep, the walk keeps
* `Walk.recorded_iff_value?`: a node is recorded with the value that it has
-/

namespace ParseActions.Walk

variable {w : Walk} {P : Memo → Prop}

section Invariant

variable (hevaluate : ∀ action, w.action = some action → ∀ id m, P m →
  P ((w.evaluation action).evaluate id m).2)

include hevaluate

theorem outcomeOf_invariant {action : Action} (haction : w.action = some action) (id : CstId)
    (key : NodeKey) {m : Memo} (hm : P m) : P (w.outcomeOf action id key m).2 := by
  rw [outcomeOf]
  split
  · exact hm
  · exact hevaluate action haction id m hm

theorem panel_invariant (id : TraceId) (node : TraceNode) {s : State} (hs : P s.memo) :
    P (w.panel id node s).2.memo := by
  rw [panel]
  split
  · next action rule cst haction _ _ =>
    split
    · exact hs
    · split
      · exact hs
      · exact outcomeOf_invariant hevaluate haction cst _ hs
  · exact hs

theorem enter_invariant (visit : Visit) {s : State} (hs : P s.memo) :
    P (w.visitor.enter visit s).2.memo := by
  simp only [visitor]
  split
  · exact hs
  · split
    · exact hs
    · exact panel_invariant hevaluate _ _ hs

theorem evaluateFocus_invariant (hempty : P .empty) (focus : TraceId) :
    P (w.evaluateFocus focus).2 := by
  rw [evaluateFocus]
  split
  · next action cst haction _ => exact hevaluate action haction cst .empty hempty
  · exact hempty

/-- What evaluations keep is kept after the first one. -/
theorem visit_invariant {focus : TraceId} (hfocus : P (w.evaluateFocus focus).2)
    (lastEdited : Option NodeKey) : P (w.run focus lastEdited).memo :=
  Trace.walk_invariant (P := fun s : State => P s.memo)
    (fun visit _ => enter_invariant hevaluate visit) (fun _ _ hs => hs) focus hfocus

/-- **What evaluations keep** holds of the memo after a walk. -/
theorem run_invariant (hempty : P .empty) (focus : TraceId) (lastEdited : Option NodeKey) :
    P (w.run focus lastEdited).memo :=
  visit_invariant hevaluate (evaluateFocus_invariant hevaluate hempty focus) lastEdited

end Invariant

/-- Nothing is pending after a walk. -/
theorem settled_of_run (hv : w.trace.Valid) (focus : TraceId) (lastEdited : Option NodeKey)
    {key : NodeKey} {outcome : Outcome}
    (h : (w.run focus lastEdited).memo.get? key = some outcome) : outcome.Settled := by
  have hprogress : Memo.Progress .empty (w.run focus lastEdited).memo :=
    run_invariant (fun action _ id m hm => hm.trans (Evaluation.progress_evaluate hv id m))
      (.refl .empty) focus lastEdited
  -- what is pending in the end was pending in the cleared memo
  rintro rfl
  cases hprogress.pending key h

/-- The node of the step that a walk begins at has an outcome after the walk. -/
theorem ended_focus (hv : w.trace.Valid) {action : Action} (haction : w.action = some action)
    {focus : TraceId} {id : CstId} {node : CstNode}
    (hfocus : (w.trace.node? focus).bind TraceNode.cst = some id)
    (hnode : w.trace.cstNode? id = some node) (lastEdited : Option NodeKey) :
    (w.run focus lastEdited).memo.Ended (.of node action.name) := by
  refine visit_invariant (P := fun m => m.Ended (.of node action.name))
    (fun action' _ id' m hm => ?_) ?_ lastEdited
  · exact (Evaluation.progress_evaluate (c := w.evaluation action') hv id' m).ended hm
  · rw [evaluateFocus, haction, hfocus]
    exact Evaluation.ended_evaluate (c := w.evaluation action) hv hnode .empty

/-- **A node is recorded with the value that it has**, and as failed or in error if it has none,
whatever the walk evaluated and in whatever order. -/
theorem recorded_iff_value? (ht : w.trace.validate = .ok ()) (hd : w.trace.Distinct)
    {action : Action} (haction : w.action = some action) (focus : TraceId)
    (lastEdited : Option NodeKey) {id : CstId} {node : CstNode} {outcome : Outcome}
    (hnode : w.trace.cstNode? id = some node)
    (h : (w.run focus lastEdited).memo.get? (.of node action.name) = some outcome) :
    let value := (w.evaluation action).value? (Trace.valid_of_validate ht) id
    (∀ v, outcome = .succeeded v ↔ value = some v) ∧
      (value = none → outcome = .failed ∨ outcome.IsErrored) := by
  intro value
  have hv := Trace.valid_of_validate ht
  -- all evaluations are of the active action, and the first one begins with a cleared memo
  have hfaithful : (w.evaluation action).Faithful hv (w.run focus lastEdited).memo := by
    refine run_invariant (fun action' haction' id m hm => ?_) Evaluation.faithful_empty focus
      lastEdited
    obtain rfl := Option.some.inj (haction.symm.trans haction')
    exact Evaluation.faithful_evaluate hv hd id m hm
  have hsettled := settled_of_run hv focus lastEdited h
  have hvalue : outcome.value? = value := hfaithful.value? id node outcome hnode h hsettled
  refine ⟨fun v => ?_, fun hnone => ?_⟩
  · rw [← hvalue, Outcome.value?_eq_some]
  · exact Outcome.failed_or_errored hsettled (hvalue.trans hnone)

/-- A walk from the whole match. -/
def sample : Walk where
  trace := .sample
  config := { Config.standard with gasLimit := 100 }
  action := some Evaluation.sample.action
  edits := []
  zoomTarget := none

theorem recorded_iff_value?_sample :
    sample.trace.validate = .ok () ∧ sample.trace.Distinct ∧
      (sample.run ⟨0⟩ none).memo.get? ⟨"Twice", 0, 1, "show"⟩ =
        some (.succeeded (.string "a")) := by
  have hnode : sample.trace.cstNode? ⟨0⟩ = some ⟨.nonterminal "Twice", ⟨0, 1⟩, [⟨1⟩, ⟨1⟩]⟩ := rfl
  have hfocus : (sample.trace.node? ⟨0⟩).bind TraceNode.cst = some ⟨0⟩ := rfl
  have hv : Evaluation.sample.trace.Valid := Trace.valid_of_validate Trace.validate_sample
  obtain ⟨outcome, hget, -⟩ := ended_focus hv rfl hfocus hnode none
  have hletter : Evaluation.sample.value? hv ⟨1⟩ = some (.string "a") := by
    rw [Evaluation.value?_of_passThrough rfl rfl rfl rfl, Evaluation.value?_of_terminal rfl rfl rfl]
    rfl
  have hvalue : Evaluation.sample.value? hv ⟨0⟩ = some (.string "a") := by
    have hargs : [⟨1⟩, ⟨1⟩].mapM (Evaluation.sample.value? hv) =
        some [.string "a", .string "a"] := by
      simp [hletter]
    rw [Evaluation.value?_of_body (a := ⟨"Twice", ["first", "second"],
      .expr (.ident ⟨1, 1, 1, 6⟩ "second"), ⟨["first", "second"], "second"⟩⟩) rfl rfl]
    exact congrArg (Option.bind · _) hargs
  have h := recorded_iff_value? Trace.validate_sample Trace.distinct_sample rfl ⟨0⟩ none hnode hget
  rw [(h.1 _).mpr hvalue] at hget
  exact ⟨Trace.validate_sample, Trace.distinct_sample, hget⟩

end ParseActions.Walk
