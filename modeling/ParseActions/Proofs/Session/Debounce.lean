import ParseActions.Proofs.Session.Course
import ParseActions.Proofs.Session.Saving
import ParseActions.Proofs.Session.Scheduler
import ParseActions.Proofs.Trace.Validity

/-!
# Refreshes of a session

The acts on a session ask for refreshes, and time passes. What its scheduler goes through in a
course of acts is a history of a scheduler, so that every walk that is made as time passes answers
the last request, is not made before that is due, and is the only one that answers it.

## Main definitions

* `Session.Act.ops`, `Session.ops`: what acts do with the scheduler

## Main results

* `Session.scheduler_after`: the scheduler after a course of acts
* `Session.debounced`: what becomes of requests, and when walks are made
-/

namespace ParseActions.Session

open Scheduler (Op)

/-- The request that is made if there is something new to show. -/
def requestIf (s : Session) (new : Bool) (delay : Nat) : List Op :=
  if new then [.request delay s.now] else []

/-- A save changed what is installed. -/
def changed : Except SessionError SaveOutcome → Bool
  | .ok .installed | .ok .uninstalled => true
  | .ok .unchanged | .error _ => false

/-- What an act does with the scheduler. -/
def Act.ops (s : Session) : Act → List Op
  | configure _ | loadTrace _ => [.request 0 s.now]
  | request delay => [.request delay s.now]
  | advance _ | stage _ _ => []
  | loadText text => s.requestIf (s.loadText text).1.isOk 0
  | addAction name kind =>
    s.requestIf (s.addAction name kind).1.isOk (Time.ofMilliseconds s.config.selectDelay)
  | selectAction name =>
    s.requestIf (s.selectAction name).1.isOk (Time.ofMilliseconds s.config.selectDelay)
  | deselectAction => [.request (Time.ofMilliseconds s.config.selectDelay) s.now]
  | saveAction id text overrides =>
    s.requestIf (changed (s.saveAction id text overrides).1)
      (Time.ofMilliseconds s.config.saveDelay)
  | zoomIn id => s.requestIf (s.zoomIn id).1 (Time.ofMilliseconds s.config.zoomDelay)
  | zoomOut id => s.requestIf (s.zoomOut id).1 (Time.ofMilliseconds s.config.zoomDelay)
  | toggleZoom id => s.requestIf (s.toggleZoom id).1 (Time.ofMilliseconds s.config.zoomDelay)
  | enterPreview id =>
    s.requestIf (s.hasNode id && s.navigation.isSome) (Time.ofMilliseconds s.config.zoomDelay)
  | leavePreview => s.requestIf s.navigation.isSome (Time.ofMilliseconds s.config.zoomDelay)
  | exitZoom => s.requestIf s.navigation.isSome (Time.ofMilliseconds s.config.exitZoomDelay)
  | refresh => [.cancel]
  | tick now =>
    -- a walk drops what is pending, even if nothing is left to drop
    .take (max s.now now) :: if (s.scheduler.take (max s.now now)).1 then [.cancel] else []

/-- What a course of acts does with the scheduler. -/
def ops : Session → List Act → List Op
  | _, [] => []
  | s, act :: acts => act.ops s ++ ops (act.perform s) acts

variable {s : Session}

/-! ## The scheduler of a session -/

theorem scheduler_saveAction (s : Session) (id : TraceId) (text : String)
    (overrides : List (Option String)) :
    (s.saveAction id text overrides).2.scheduler = s.scheduler.after
      (s.requestIf (changed (s.saveAction id text overrides).1)
        (Time.ofMilliseconds s.config.saveDelay)) := by
  rcases s.saveAction_cases id text overrides with ⟨e, -, hsame⟩ | ⟨place, -, hsaving⟩
  · rw [hsame]
    rfl
  · generalize (s.saveAction id text overrides).1 = result at hsaving ⊢
    generalize (s.saveAction id text overrides).2 = s' at hsaving ⊢
    cases hsaving <;> rfl

theorem scheduler_move (s : Session) (step : Navigation → Bool × Navigation) :
    (s.move step).2.scheduler = s.scheduler.after
      (s.requestIf (s.move step).1 (Time.ofMilliseconds s.config.zoomDelay)) := by
  rw [move]
  split <;> rfl

theorem scheduler_navigate (s : Session) (step : Navigation → Navigation) (ms : Nat) :
    (s.navigate step ms).scheduler = s.scheduler.after
      (s.requestIf s.navigation.isSome (Time.ofMilliseconds ms)) := by
  rw [navigate]
  split
  · next hnone =>
    rw [hnone]
    rfl
  · next n hsome =>
    rw [hsome]
    rfl

theorem scheduler_zoomIn (s : Session) (id : TraceId) :
    (s.zoomIn id).2.scheduler = s.scheduler.after
      (s.requestIf (s.zoomIn id).1 (Time.ofMilliseconds s.config.zoomDelay)) := by
  rw [zoomIn]
  split
  · exact s.scheduler_move _
  · rfl

/-- A walk drops what is pending. -/
theorem scheduler_refresh (s : Session) : s.refresh.2.scheduler = s.scheduler.cancel.2 := by
  rw [refresh]
  split <;> rfl

theorem tick_of_not_isDue {now : Nat} (h : s.scheduler.isDue (max s.now now) = false) :
    s.tick now = (.ok none, s.advance now) := by
  have htake : (s.advance now).scheduler.take (s.advance now).now = (false, s.scheduler) :=
    Scheduler.take_of_not_isDue h
  rw [tick]
  simp only [htake]

theorem tick_of_isDue {now : Nat} (h : s.scheduler.isDue (max s.now now) = true) :
    s.tick now =
      ((refresh { s.advance now with scheduler := s.scheduler.cancel.2 }).1.map some,
        (refresh { s.advance now with scheduler := s.scheduler.cancel.2 }).2) := by
  have htake : (s.advance now).scheduler.take (s.advance now).now =
      (true, s.scheduler.cancel.2) := Scheduler.take_of_isDue h
  rw [tick]
  simp only [htake]

theorem scheduler_tick (s : Session) (now : Nat) :
    (s.tick now).2.scheduler = s.scheduler.after ((Act.tick now).ops s) := by
  rw [Act.ops, Scheduler.take_fst]
  cases hdue : s.scheduler.isDue (max s.now now) with
  | false =>
    rw [tick_of_not_isDue hdue]
    show s.scheduler = (s.scheduler.take (max s.now now)).2
    rw [Scheduler.take_of_not_isDue hdue]
  | true =>
    rw [tick_of_isDue hdue, scheduler_refresh]
    show s.scheduler.cancel.2.cancel.2 = (s.scheduler.take (max s.now now)).2.cancel.2
    rw [Scheduler.take_of_isDue hdue]

/-- **The scheduler after an act.** -/
theorem scheduler_perform (s : Session) (act : Act) :
    (act.perform s).scheduler = s.scheduler.after (act.ops s) := by
  cases act with
  | configure _ | request _ | advance _ | loadTrace _ | stage _ _ | deselectAction => rfl
  | loadText text =>
    rw [Act.perform, Act.ops, loadText]
    split <;> rfl
  | addAction name kind =>
    rw [Act.perform, Act.ops, addAction]
    split <;> rfl
  | selectAction name =>
    rw [Act.perform, Act.ops, selectAction]
    split
    · rfl
    · next active registry _ =>
      cases active <;> rfl
  | saveAction id text overrides => exact s.scheduler_saveAction id text overrides
  | zoomIn id => exact s.scheduler_zoomIn id
  | zoomOut id => exact s.scheduler_move _
  | toggleZoom id =>
    rw [Act.perform, Act.ops, toggleZoom]
    split
    · exact s.scheduler_move _
    · exact s.scheduler_zoomIn id
  | enterPreview id =>
    rw [Act.perform, Act.ops, enterPreview]
    cases hid : s.hasNode id with
    | false => rfl
    | true => exact s.scheduler_navigate _ _
  | leavePreview => exact s.scheduler_navigate _ _
  | exitZoom => exact s.scheduler_navigate _ _
  | refresh => exact s.scheduler_refresh
  | tick now => exact s.scheduler_tick now

/-- **The scheduler after a course of acts** is that after what they do with it. -/
theorem scheduler_after (s : Session) (acts : List Act) :
    (s.after acts).scheduler = s.scheduler.after (s.ops acts) := by
  induction acts generalizing s with
  | nil => rfl
  | cons act acts ih =>
    rw [after, List.foldl_cons, ← after, ih, scheduler_perform, ops, Scheduler.after_append]

/-! ## Walks -/

/-- **A walk is made** when a request is due, if there is a trace. -/
theorem tick_walks_iff (s : Session) (now : Nat) :
    (∃ frame, (s.tick now).1 = .ok (some frame)) ↔
      s.trace.isSome = true ∧ s.scheduler.isDue (max s.now now) = true := by
  cases hdue : s.scheduler.isDue (max s.now now) with
  | false => simp [tick_of_not_isDue hdue]
  | true =>
    rw [tick_of_isDue hdue, refresh]
    cases htrace : s.trace with
    | none => simp [advance, htrace, Except.map]
    | some t => simp [advance, htrace, Except.map]

/-- Nothing is pending after a walk. -/
theorem hasPending_of_tick_walks {now : Nat} (h : ∃ frame, (s.tick now).1 = .ok (some frame)) :
    (s.tick now).2.scheduler.hasPending = false := by
  obtain ⟨-, hdue⟩ := (s.tick_walks_iff now).mp h
  rw [tick_of_isDue hdue, scheduler_refresh]
  rfl

/-- When nothing is pending, a walk is not made before there is a request. -/
theorem exists_request_of_tick_walks {acts : List Act} {now : Nat}
    (hs : s.scheduler.hasPending = false)
    (hwalks : ∃ frame, ((s.after acts).tick now).1 = .ok (some frame)) :
    ∃ delay asked, Op.request delay asked ∈ s.ops acts := by
  obtain ⟨-, hdue⟩ := ((s.after acts).tick_walks_iff now).mp hwalks
  obtain ⟨due, hsome, -⟩ := Scheduler.isDue_eq_true.mp hdue
  rw [scheduler_after] at hsome
  apply Scheduler.exists_request_of_hasPending hs
  rw [Scheduler.hasPending, hsome, Option.isSome_some]

/-- **Refreshes are debounced.** Each request that is made to a scheduler is replaced by a later
one, taken, dropped, or the one that is pending; the last request is taken when its delay is over,
unless it was taken or dropped before; and no time is left when it is due. A session with a trace
makes a walk as time passes when the last request of its acts is outstanding and its delay is over,
and a new request is made between any two such walks. -/
theorem debounced :
    (∀ ops, (Scheduler.start.after ops).generation = (Scheduler.start.after ops).superseded +
        Scheduler.tally Op.takes .start ops + Scheduler.tally Op.drops .start ops +
        (Scheduler.start.after ops).hasPending.toNat) ∧
    (∀ ops t, ((Scheduler.start.after ops).take t).1 = true ↔
      ∃ delay asked, Scheduler.Outstanding ops delay asked ∧ Time.later asked delay ≤ t) ∧
    (∀ (scheduler : Scheduler) (t : Nat),
      scheduler.timeLeft? t = some 0 ↔ scheduler.isDue t = true) ∧
    ∀ config acts,
      let s := (Session.start config).after acts
      s.scheduler = Scheduler.start.after ((Session.start config).ops acts) ∧
      (s.trace.isSome = true → ∀ now, (∃ frame, (s.tick now).1 = .ok (some frame)) ↔
        ∃ delay asked, Scheduler.Outstanding ((Session.start config).ops acts) delay asked ∧
          Time.later asked delay ≤ max s.now now) ∧
      ∀ first between second,
        (∃ frame, (s.tick first).1 = .ok (some frame)) →
        (∃ frame, (((s.tick first).2.after between).tick second).1 = .ok (some frame)) →
          ∃ delay asked, Op.request delay asked ∈ (s.tick first).2.ops between := by
  refine ⟨Scheduler.generation_after, Scheduler.take_after_iff,
    fun _ _ => Scheduler.timeLeft?_eq_some_zero, ?_⟩
  intro config acts s
  have hscheduler : s.scheduler = Scheduler.start.after ((Session.start config).ops acts) :=
    scheduler_after _ acts
  refine ⟨hscheduler, ?_, ?_⟩
  · intro htrace now
    rw [tick_walks_iff, ← Scheduler.take_fst, hscheduler, Scheduler.take_after_iff]
    exact and_iff_right htrace
  · intro first between second hfirst hsecond
    exact exists_request_of_tick_walks (hasPending_of_tick_walks hfirst) hsecond

/-- A trace asks for a walk at once. Of two requests in a row, the second one is answered, and not
before its delay is over. -/
theorem debounced_sample :
    let s := (Session.start .standard).after [.loadTrace .sample, .advance 7]
    let between : List Act := [.request 10, .tick 12, .request 10, .tick 17]
    s.trace.isSome = true ∧
      (∃ delay asked, Scheduler.Outstanding ((Session.start .standard).ops
        [.loadTrace .sample, .advance 7]) delay asked ∧ Time.later asked delay ≤ max s.now 0) ∧
      (∃ frame, (s.tick 0).1 = .ok (some frame)) ∧
      (∃ frame, (((s.tick 0).2.after between).tick 22).1 = .ok (some frame)) ∧
      ∃ delay asked, Op.request delay asked ∈ (s.tick 0).2.ops between := by
  intro s between
  have hfirst : ∃ frame, (s.tick 0).1 = .ok (some frame) := (s.tick_walks_iff 0).mpr ⟨rfl, rfl⟩
  have hsecond : ∃ frame, (((s.tick 0).2.after between).tick 22).1 = .ok (some frame) :=
    (tick_walks_iff _ 22).mpr ⟨rfl, rfl⟩
  obtain ⟨-, -, -, hsession⟩ := debounced
  obtain ⟨-, hdue, hbetween⟩ := hsession .standard [.loadTrace .sample, .advance 7]
  exact ⟨rfl, (hdue rfl 0).mp hfirst, hfirst, hsecond, hbetween 0 between 22 hfirst hsecond⟩

end ParseActions.Session
