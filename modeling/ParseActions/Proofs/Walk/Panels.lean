import ParseActions.Proofs.Memo.Listing
import ParseActions.Proofs.Walk.Memo

/-!
# What panels show

A panel shows the outcome that is recorded under its key when it is drawn. So what holds of all
outcomes that are recorded, and is not lost by evaluations that come later, holds of what the panels
of a walk show.

## Main definitions

* `Walk.Paneled`: when a step has a panel, and which one
* `Walk.State.panels`, `Walk.Result.panels`: the panels that were drawn
* `Walk.Shown`: what holds of the memo, and of the panels so far

## Main results

* `Walk.panels_invariant`: what holds of recorded outcomes holds of the panels
* `Walk.exists_panel_of_error`: the errors of a report are shown on panels
* `Walk.lists_of_run`: the books that a walk keeps of rules without a body
-/

namespace ParseActions

/-- The panel that an event draws. -/
def WalkEvent.panel? : WalkEvent → Option ActionPanel
  | draw request => request.panel
  | leave _ => none

namespace Walk

/-- The panels that were drawn. -/
def State.panels (s : State) : List ActionPanel :=
  s.events.toList.filterMap WalkEvent.panel?

/-- The panels that were drawn. -/
def Result.panels (r : Result) : List ActionPanel :=
  r.events.filterMap WalkEvent.panel?

variable {w : Walk}

/-! ## The panel of a step -/

/-- When a step has a panel, and which one: it applies a rule and has a node of the syntax tree. -/
inductive Paneled (w : Walk) (id : TraceId) (node : TraceNode) (s : State) :
    Option ActionPanel → State → Prop where
  | bare : Paneled w id node s none s
  | drawn {action : Action} {rule : String} {cst : CstId} {cstNode : CstNode}
    (haction : w.action = some action) (hcst : node.cst = some cst)
    (hnode : w.trace.cstNode? cst = some cstNode) :
    Paneled w id node s (some (w.rulePanel action id rule cst cstNode s).1)
      (w.rulePanel action id rule cst cstNode s).2

theorem paneled (id : TraceId) (node : TraceNode) (s : State) :
    w.Paneled id node s (w.panel id node s).1 (w.panel id node s).2 := by
  rw [panel]
  split
  · next action rule cst haction _ hcst =>
    split
    · exact .bare
    · split
      · exact .bare
      · next cstNode hnode => exact .drawn haction hcst hnode
  · exact .bare

/-- A panel shows the outcome that is recorded under its key. -/
theorem get?_rulePanel (hv : w.trace.Valid) {action : Action} {cst : CstId} {node : CstNode}
    (hnode : w.trace.cstNode? cst = some node) (id : TraceId) (rule : String) (s : State) :
    let panel := w.rulePanel action id rule cst node s
    panel.2.memo.get? panel.1.key = some panel.1.outcome := by
  intro panel
  change (w.outcomeOf action cst (.of node action.name) s.memo).2.get? (.of node action.name) =
    some (w.outcomeOf action cst (.of node action.name) s.memo).1
  rw [outcomeOf]
  split
  · assumption
  · exact Evaluation.get?_evaluate (c := w.evaluation action) hv hnode s.memo

/-! ## The panels of a walk -/

/-- The panel of a step is computed before anything is drawn. -/
theorem panel_drawings (id : TraceId) (node : TraceNode) (s : State) :
    (w.panel id node s).2.events = s.events ∧ (w.panel id node s).2.errors = s.errors := by
  have hpaneled := w.paneled id node s
  generalize (w.panel id node s).1 = panel at hpaneled
  generalize (w.panel id node s).2 = s' at hpaneled ⊢
  cases hpaneled <;> exact ⟨rfl, rfl⟩

theorem memo_draw (visit : Visit) (node : TraceNode) (s : State) :
    (w.draw visit node s).memo = (w.panel visit.node node s).2.memo :=
  rfl

theorem panels_draw (visit : Visit) (node : TraceNode) (s : State) :
    (w.draw visit node s).panels = s.panels ++ (w.panel visit.node node s).1.toList := by
  rw [State.panels, draw]
  simp only [Array.toList_push, List.filterMap_append, (panel_drawings visit.node node s).1]
  cases hpanel : (w.panel visit.node node s).1 <;> simp [State.panels, WalkEvent.panel?]

theorem errors_draw (visit : Visit) (node : TraceNode) (s : State) :
    (w.draw visit node s).errors =
      (w.panel visit.node node s).1.elim s.errors (surface s.errors) := by
  rw [draw]
  simp only [(panel_drawings visit.node node s).2]

@[simp] theorem panels_leave (visit : Visit) (s : State) :
    (w.visitor.leave visit s).panels = s.panels := by
  simp [State.panels, visitor, WalkEvent.panel?]

/-- **What each drawn step keeps**, and what does not depend on the ends of steps, holds after the
visit. -/
theorem visit_state_invariant {J : State → Prop}
    (hdraw : ∀ visit node s, J s → J (w.draw visit node s))
    (hleave : ∀ visit s, J s → J (w.visitor.leave visit s)) (focus : TraceId) {s : State}
    (hs : J s) : J (w.trace.walk w.visitor focus s) := by
  refine Trace.walk_invariant (fun visit s hs => ?_) hleave focus hs
  simp only [visitor]
  split
  · exact hs
  · next node _ =>
    split
    · exact hs
    · exact hdraw visit node s hs

section Shown

variable {P : Memo → Prop} {Q : Memo → ActionPanel → Prop}

/-- What holds of the memo, and of the panels that were drawn so far. -/
structure Shown (P : Memo → Prop) (Q : Memo → ActionPanel → Prop) (s : State) : Prop where
  memo : P s.memo
  panels : ∀ panel ∈ s.panels, Q s.memo panel

variable (hv : w.trace.Valid)
  (hevaluate : ∀ action, w.action = some action → ∀ id m, P m →
    P ((w.evaluation action).evaluate id m).2)
  (hkept : ∀ action, w.action = some action → ∀ id m panel, P m → Q m panel →
    Q ((w.evaluation action).evaluate id m).2 panel)
  (hrecorded : ∀ m (panel : ActionPanel), P m → m.get? panel.key = some panel.outcome → Q m panel)

include hv hevaluate hkept hrecorded

/-- Drawing a step keeps what holds of recorded outcomes. -/
theorem Shown.draw {s : State} (h : Shown P Q s) (visit : Visit) (node : TraceNode) :
    Shown P Q (w.draw visit node s) := by
  -- the evaluation that the panel asks for keeps what holds of the panels before it
  obtain ⟨hmemo, hold⟩ := panel_invariant (w := w)
    (P := fun m => P m ∧ ∀ panel ∈ s.panels, Q m panel)
    (fun action haction id m hm => ⟨hevaluate action haction id m hm.1,
      fun panel hpanel => hkept action haction id m panel hm.1 (hm.2 panel hpanel)⟩)
    visit.node node ⟨h.memo, h.panels⟩
  refine ⟨hmemo, fun panel hpanel => ?_⟩
  rw [memo_draw]
  rw [panels_draw] at hpanel
  rcases List.mem_append.mp hpanel with hpanel | hpanel
  · exact hold panel hpanel
  · have hpaneled := w.paneled visit.node node s
    generalize (w.panel visit.node node s).1 = new at hpaneled hpanel
    generalize (w.panel visit.node node s).2 = s' at hpaneled hmemo ⊢
    cases hpaneled with
    | bare => cases hpanel
    | drawn _ _ hnode =>
      obtain rfl := List.mem_singleton.mp hpanel
      exact hrecorded _ _ hmemo (get?_rulePanel hv hnode _ _ s)

/-- **What holds of recorded outcomes**, and is not lost by evaluations, holds of what the panels of
a walk show. -/
theorem panels_invariant {focus : TraceId} (hfocus : P (w.evaluateFocus focus).2)
    (lastEdited : Option NodeKey) :
    ∀ panel ∈ (w.run focus lastEdited).panels, Q (w.run focus lastEdited).memo panel := by
  have hstart : Shown P Q ⟨(w.evaluateFocus focus).2, lastEdited, #[], []⟩ :=
    ⟨hfocus, fun panel hpanel => by cases hpanel⟩
  refine (visit_state_invariant (J := Shown P Q)
    (fun visit node s hs => hs.draw hv hevaluate hkept hrecorded visit node) ?_ focus hstart).panels
  intro visit s hs
  exact ⟨hs.memo, by rw [panels_leave]; exact hs.panels⟩

end Shown

/-- Only errors are shown at their origin. -/
theorem surface_of_not_errored {panel : ActionPanel} (h : ¬ panel.outcome.IsErrored)
    (errors : List SurfacedError) : surface errors panel = errors := by
  rw [surface]
  split
  · next e he => exact absurd ⟨e, he⟩ h
  · rfl

/-- The errors of a report are shown on panels. -/
theorem exists_panel_of_error (focus : TraceId) (lastEdited : Option NodeKey) {e : SurfacedError}
    (h : e ∈ (w.run focus lastEdited).report.errors) :
    ∃ panel ∈ (w.run focus lastEdited).panels, panel.outcome.IsErrored := by
  refine visit_state_invariant
    (J := fun s => ∀ e ∈ s.errors, ∃ panel ∈ s.panels, panel.outcome.IsErrored) ?_ ?_ focus ?_ e h
  · intro visit node s hs e he
    rw [panels_draw]
    rw [errors_draw] at he
    cases hpanel : (w.panel visit.node node s).1 with
    | none =>
      rw [hpanel] at he
      simpa using hs e he
    | some panel =>
      rw [hpanel] at he
      by_cases herrored : panel.outcome.IsErrored
      · exact ⟨panel, by simp, herrored⟩
      · replace he : e ∈ surface s.errors panel := he
        rw [surface_of_not_errored herrored] at he
        obtain ⟨shown, hshown, h⟩ := hs e he
        exact ⟨shown, List.mem_append_left _ hshown, h⟩
  · intro visit s hs e he
    rw [panels_leave]
    exact hs e he
  · intro e he
    cases he

/-! ## The books of a walk -/

/-- What panels show has been evaluated. -/
theorem settled_of_panel (hv : w.trace.Valid) (focus : TraceId) (lastEdited : Option NodeKey) :
    ∀ panel ∈ (w.run focus lastEdited).panels, panel.outcome.Settled := by
  -- nothing that is pending is left by an evaluation
  have hevaluate (action : Action) (_ : w.action = some action) (id : CstId) (m : Memo)
      (hm : ∀ key, m.get? key ≠ some .pending) (key : NodeKey) :
      ((w.evaluation action).evaluate id m).2.get? key ≠ some .pending := fun hget =>
    hm key ((Evaluation.progress_evaluate (c := w.evaluation action) hv id m).pending key hget)
  refine panels_invariant (P := fun m => ∀ key, m.get? key ≠ some .pending)
    (Q := fun _ panel => panel.outcome.Settled) hv hevaluate (fun _ _ _ _ _ _ h => h) ?_ ?_
    lastEdited
  · rintro m panel hm hget hpending
    exact hm panel.key (hget.trans (congrArg some hpending))
  · refine evaluateFocus_invariant hevaluate (fun key hget => ?_) focus
    cases hget

/-- **The books of a walk.** Nothing is pending in the end, neither in the memo nor on a panel. The
lists hold keys of rules without a body that are recorded, each of them once, and they hold all of
these where different nodes have different keys. -/
theorem lists_of_run (ht : w.trace.validate = .ok ()) {action : Action}
    (haction : w.action = some action) (focus : TraceId) (lastEdited : Option NodeKey) :
    let c := w.evaluation action
    let r := w.run focus lastEdited
    (∀ key, r.memo.get? key ≠ some .pending) ∧ (∀ panel ∈ r.panels, panel.outcome ≠ .pending) ∧
      c.TidyList r.memo (fun node => c.Bodiless node ∧ node.children.length ≠ 1) r.report.todo ∧
      c.TidyList r.memo (fun node => c.Bodiless node ∧ node.children.length = 1)
        r.report.passThrough ∧
      (w.trace.Distinct → ∀ id node, w.trace.cstNode? id = some node → c.Bodiless node →
        r.memo.get? (c.keyOf node) ≠ none →
        c.keyOf node ∈
          if node.children.length = 1 then r.report.passThrough else r.report.todo) := by
  intro c r
  have hv := Trace.valid_of_validate ht
  have hrun {P : Memo → Prop} (h : ∀ id m, P m → P (c.evaluate id m).2) (hempty : P .empty) :
      P r.memo := by
    refine run_invariant (fun action' haction' => ?_) hempty focus lastEdited
    obtain rfl := Option.some.inj (haction.symm.trans haction')
    exact h
  have htidy : c.Tidy r.memo := hrun (Evaluation.tidy_evaluate hv) .empty
  refine ⟨fun key hget => settled_of_run hv focus lastEdited hget rfl,
    settled_of_panel hv focus lastEdited, htidy.todo.congr fun _ => Evaluation.unwritten_iff,
    htidy.passThrough.congr fun _ => Evaluation.opens_passThrough_iff,
    fun hd id node hnode hbodiless hget => ?_⟩
  have hall : c.AllListed r.memo := hrun (Evaluation.allListed_evaluate hv hd) .empty
  obtain ⟨outcome, houtcome⟩ := Option.ne_none_iff_exists'.mp hget
  have hlisted := hall id node hnode
    ⟨outcome, houtcome, settled_of_run hv focus lastEdited houtcome⟩
  split
  · next hone => exact hlisted.1 (Evaluation.opens_passThrough_iff.mpr ⟨hbodiless, hone⟩)
  · next hne => exact hlisted.2 (Evaluation.unwritten_iff.mpr ⟨hbodiless, hne⟩)

theorem lists_of_run_sample :
    sample.trace.validate = .ok () ∧ sample.trace.Distinct ∧
      ⟨"letter", 0, 1, "show"⟩ ∈ (sample.run ⟨1⟩ none).report.passThrough ∧
      (sample.run ⟨1⟩ none).report.todo.Nodup := by
  have hnode : sample.trace.cstNode? ⟨1⟩ = some ⟨.nonterminal "letter", ⟨0, 1⟩, [⟨2⟩]⟩ := rfl
  have hfocus : (sample.trace.node? ⟨1⟩).bind TraceNode.cst = some ⟨1⟩ := rfl
  obtain ⟨outcome, hget, -⟩ :=
    ended_focus (Trace.valid_of_validate Trace.validate_sample) rfl hfocus hnode none
  obtain ⟨-, -, htodo, -, hall⟩ := lists_of_run (w := sample) Trace.validate_sample rfl ⟨1⟩ none
  have hlisted := hall Trace.distinct_sample ⟨1⟩ _ hnode ⟨rfl, rfl⟩ fun hnone => by
    cases hget.symm.trans hnone
  exact ⟨Trace.validate_sample, Trace.distinct_sample, hlisted, htodo.nodup⟩

end Walk

end ParseActions
