import ParseActions.Proofs.Walk.Requests
import ParseActions.Session.Basic

/-!
# What a refresh depends on

A refresh forgets what earlier walks have found. Its report and the results it leaves follow from
the trace, the step that is shown, the active action, the limit of gas and whether failures are
shown. What is typed into the editors, what was edited last, how labels are cut and what was zoomed
into change what is drawn, but no result.

## Main definitions

* `Walk.Alike`: walks that find the same results
* `Session.Alike`: sessions whose refreshes find the same results

## Main results

* `Walk.run_of_alike`: the memo and the report of a walk
* `Session.refresh_of_alike`: the memo and the report of a refresh
-/

namespace ParseActions

/-- What a panel shows as the result of its node. -/
def ActionPanel.result (panel : ActionPanel) : NodeKey × Outcome :=
  (panel.key, panel.outcome)

namespace Walk

/-! ## Walks -/

/-- The walks agree on what results depend on. -/
structure Alike (w w' : Walk) : Prop where
  trace : w.trace = w'.trace
  action : w.action = w'.action
  gasLimit : w.config.gasLimit = w'.config.gasLimit
  showFailures : w.config.showFailures = w'.config.showFailures

/-- The walks have found the same results so far. -/
structure State.Alike (s s' : State) : Prop where
  memo : s.memo = s'.memo
  errors : s.errors = s'.errors
  drawn : s.requests.length = s'.requests.length

variable {w w' : Walk}

/-- Only the result of a panel decides whether an error is shown. -/
theorem surface_of_result {panel panel' : ActionPanel} (h : panel.result = panel'.result)
    (errors : List SurfacedError) : surface errors panel = surface errors panel' := by
  obtain ⟨hkey, houtcome⟩ := Prod.mk.inj h
  rw [surface, surface, hkey, houtcome]

namespace Alike

theorem evaluation (h : w.Alike w') : w.evaluation = w'.evaluation := by
  funext action
  rw [Walk.evaluation, Walk.evaluation, h.trace, h.gasLimit]

theorem evaluateFocus (h : w.Alike w') (focus : TraceId) :
    w.evaluateFocus focus = w'.evaluateFocus focus := by
  rw [Walk.evaluateFocus, Walk.evaluateFocus, h.action, h.trace, h.evaluation]

/-- The panels of a step show the same result, and leave the same memo. -/
theorem panel (h : w.Alike w') (id : TraceId) (node : TraceNode) {s s' : State}
    (hs : s.memo = s'.memo) :
    (w.panel id node s).2.memo = (w'.panel id node s').2.memo ∧
      (w.panel id node s).1.map ActionPanel.result =
        (w'.panel id node s').1.map ActionPanel.result := by
  have houtcome (action : Action) (cst : CstId) (key : NodeKey) (m : Memo) :
      w.outcomeOf action cst key m = w'.outcomeOf action cst key m := by
    rw [outcomeOf, outcomeOf, h.evaluation]
  rw [Walk.panel, Walk.panel, h.action, h.trace]
  split
  · split
    · exact ⟨hs, rfl⟩
    · split
      · exact ⟨hs, rfl⟩
      · simp only [rulePanel, hs, houtcome, Option.map_some, ActionPanel.result, and_self]
  · exact ⟨hs, rfl⟩

theorem isHidden (h : w.Alike w') (node : TraceNode) : w.isHidden node = w'.isHidden node := by
  rw [Walk.isHidden, Walk.isHidden, h.showFailures]

end Alike

/-- Drawing a step keeps results the same. -/
theorem State.Alike.draw (h : w.Alike w') (visit : Visit) (node : TraceNode) {s s' : State}
    (hs : s.Alike s') : (w.draw visit node s).Alike (w'.draw visit node s') := by
  obtain ⟨hmemo, hresult⟩ := h.panel visit.node node hs.memo
  refine ⟨hmemo, ?_, by simp [requests_draw, hs.drawn]⟩
  rw [errors_draw, errors_draw, hs.errors]
  generalize (w.panel visit.node node s).1 = panel at hresult ⊢
  generalize (w'.panel visit.node node s').1 = panel' at hresult ⊢
  cases panel with
  | none =>
    cases panel' with
    | none => rfl
    | some _ => cases hresult
  | some panel =>
    cases panel' with
    | none => cases hresult
    | some panel' => exact surface_of_result (Option.some.inj hresult) _

/-- Walks that are alike go the same way and keep results the same. -/
theorem walk_of_alike (h : w.Alike w') (focus : TraceId) {s s' : State} (hs : s.Alike s') :
    (w.trace.walk w.visitor focus s).Alike (w'.trace.walk w'.visitor focus s') := by
  rw [← h.trace]
  refine Trace.walk_rel (R := State.Alike) (fun visit s s' hs => ?_) ?_ focus hs
  -- the walks pass over the same steps, and draw the other ones
  · simp only [visitor, ← h.trace, h.isHidden]
    split
    · exact ⟨rfl, hs⟩
    · split
      · exact ⟨rfl, hs⟩
      · exact ⟨rfl, hs.draw h visit _⟩
  · intro visit s s' hs
    exact ⟨hs.memo, hs.errors, by simpa using hs.drawn⟩

/-- **The memo and the report of a walk** follow from what results depend on. -/
theorem run_of_alike (h : w.Alike w') (focus : TraceId) (lastEdited lastEdited' : Option NodeKey) :
    (w.run focus lastEdited).memo = (w'.run focus lastEdited').memo ∧
      (w.run focus lastEdited).report = (w'.run focus lastEdited').report := by
  -- both walks begin with the memo of the first evaluation
  have hstart : State.Alike ⟨(w'.evaluateFocus focus).2, lastEdited, #[], []⟩
    ⟨(w'.evaluateFocus focus).2, lastEdited', #[], []⟩ := ⟨rfl, rfl, rfl⟩
  obtain ⟨hmemo, herrors, hdrawn⟩ := walk_of_alike h focus hstart
  simp only [State.requests] at hdrawn
  simp only [run, h.action, h.evaluateFocus, hdrawn, hmemo, herrors, and_self]

end Walk

namespace Session

/-! ## Sessions -/

/-- The sessions have the same trace and agree on what the results of a walk over it depend on. -/
structure Alike (t : Trace) (s s' : Session) : Prop where
  trace : s.trace = some t
  trace' : s'.trace = some t
  focus : s.focus t = s'.focus t
  action : s.registry.active? = s'.registry.active?
  gasLimit : s.config.gasLimit = s'.config.gasLimit
  showFailures : s.config.showFailures = s'.config.showFailures

variable {t : Trace} {s s' : Session}

/-- A refresh walks over the trace. -/
theorem refresh_of_trace (h : s.trace = some t) :
    s.refresh = (.ok ⟨((s.walkOf t).run (s.focus t) s.lastEdited).report,
      ((s.walkOf t).run (s.focus t) s.lastEdited).events⟩,
      { s with
        scheduler := s.scheduler.cancel.2
        memo := ((s.walkOf t).run (s.focus t) s.lastEdited).memo
        lastEdited := ((s.walkOf t).run (s.focus t) s.lastEdited).lastEdited }) := by
  rw [refresh]
  simp only [h]
  rfl

/-- **A refresh depends on nothing but** the trace, the step that is shown, the active action, the
limit of gas and whether failures are shown: sessions that agree on these find the same results and
report the same. -/
theorem refresh_of_alike (h : Alike t s s') :
    s.refresh.2.memo = s'.refresh.2.memo ∧
      ∃ frame frame', s.refresh.1 = .ok frame ∧ s'.refresh.1 = .ok frame' ∧
        frame.report = frame'.report := by
  have hwalks : (s.walkOf t).Alike (s'.walkOf t) :=
    ⟨rfl, h.action, h.gasLimit, h.showFailures⟩
  obtain ⟨hmemo, hreport⟩ := Walk.run_of_alike hwalks (s.focus t) s.lastEdited s'.lastEdited
  rw [h.focus] at hreport hmemo
  rw [refresh_of_trace h.trace, refresh_of_trace h.trace']
  exact ⟨by rw [h.focus]; exact hmemo, _, _, rfl, rfl, by rw [h.focus]; exact hreport⟩

/-- A session that shows the whole match of `Twice`, with an action that is active. -/
def sample : Session where
  config := Walk.sample.config
  trace := some .sample
  registry := ⟨[Evaluation.sample.action], some 0⟩
  navigation := some (.start ⟨0⟩)
  scheduler := .start
  memo := .empty
  edits := []
  lastEdited := none
  now := 0

/-- A session that shows the same match as a preview, while another step is zoomed into. There is a
second action, and the editor of `Twice` has been emptied. -/
def busySample : Session where
  config := { Walk.sample.config with labelLength := 3 }
  trace := some .sample
  registry := ⟨[.new "other" .property, Evaluation.sample.action], some 1⟩
  navigation := some ⟨⟨0⟩, [⟨1⟩], some ⟨0⟩⟩
  scheduler := Scheduler.start.request 4 5
  memo := Memo.empty.addTodo ⟨"letter", 0, 1, "other"⟩
  edits := [("Twice", .empty)]
  lastEdited := some ⟨"Twice", 0, 1, "show"⟩
  now := 5

theorem refresh_of_alike_sample :
    Alike .sample sample busySample ∧ sample.refresh.2.memo = busySample.refresh.2.memo :=
  have h : Alike .sample sample busySample := ⟨rfl, rfl, rfl, rfl, rfl, rfl⟩
  ⟨h, (refresh_of_alike h).1⟩

end Session

end ParseActions
