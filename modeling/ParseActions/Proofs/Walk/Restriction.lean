import ParseActions.Proofs.Memo.Fresh
import ParseActions.Proofs.Walk.Errors
import ParseActions.Proofs.Walk.ShowFailures

/-!
# Results on panels when failures are shown

The panels that are drawn only because failures are shown may ask for evaluations. Where nodes have
different keys this does not change any value, but whether a node without a value has failed or is
in error depends on whether a body was found missing before. So the results are the same when the
evaluation at the start finds a body missing, or no evaluation does; and they are the same, whatever
the keys are, when the additional panels find their results recorded.

## Main definitions

* `Walk.Recorded`: the additional panels find their results recorded by the first evaluation

## Main results

* `Walk.requests_without_failures`: a walk without failures makes the requests of the walk with
  failures for those steps that no failure is on the way to
* `Walk.results_that_failures_change`: the results on panels can differ
-/

namespace ParseActions.Walk

open DrawRequest

variable {w : Walk} {focus : TraceId} {lastEdited : Option NodeKey}

/-- A draw asks for the outcome of one node, whatever the state is, or for none. -/
theorem draw_cases (w : Walk) (visit : Visit) (node : TraceNode) :
    (∀ s, (w.draw visit node s).memo = s.memo ∧
      (w.request visit node (w.panel visit.node node s).1).outcome? = none) ∨
    ∃ action cst cstNode, w.action = some action ∧ w.trace.cstNode? cst = some cstNode ∧
      ∀ s, (w.draw visit node s).memo =
          (w.outcomeOf action cst (.of cstNode action.name) s.memo).2 ∧
        (w.request visit node (w.panel visit.node node s).1).outcome? =
          some (w.outcomeOf action cst (.of cstNode action.name) s.memo).1 := by
  rcases w.panel_eq visit.node node with hnone | ⟨action, rule, cst, cstNode, haction, hnode, hsome⟩
  · refine .inl fun s => ?_
    rw [memo_draw, hnone]
    exact ⟨rfl, rfl⟩
  · refine .inr ⟨action, cst, cstNode, haction, hnode, fun s => ?_⟩
    rw [memo_draw, hsome]
    exact ⟨rfl, rfl⟩

/-! ## Panels that find their results recorded -/

/-- Each panel with a failure on the way to it has a key that is recorded in a memo. -/
def Recorded (m : Memo) (requests : List DrawRequest) : Prop :=
  ∀ way ∈ ways requests, allSucceeded way = false → ∀ r ∈ way.getLast?, ∀ panel ∈ r.panel,
    m.has panel.key

theorem Recorded.of_concat {m : Memo} {requests : List DrawRequest} {r : DrawRequest}
    (h : Recorded m (requests ++ [r])) : Recorded m requests := by
  rw [Recorded, ways_concat] at h
  exact fun way hway => h way (List.mem_append_left _ hway)

theorem Recorded.last {m : Memo} {requests : List DrawRequest} {r : DrawRequest}
    (h : Recorded m (requests ++ [r])) (hall : allSucceeded (r.wayFrom (lastWay requests)) = false)
    {panel : ActionPanel} (hpanel : r.panel = some panel) : m.has panel.key = true := by
  rw [Recorded, ways_concat] at h
  exact h _ (List.mem_append_right _ (List.mem_singleton_self _)) hall r (getLast?_wayFrom r _)
    panel hpanel

/-- An outcome that is recorded is used again. -/
theorem outcomeOf_of_has {action : Action} {cst : CstId} {key : NodeKey} {m : Memo}
    (h : m.has key = true) : (w.outcomeOf action cst key m).2 = m := by
  obtain ⟨outcome, hget⟩ := Option.isSome_iff_exists.mp h
  rw [outcomeOf, hget]

/-- A draw makes progress. -/
theorem progress_draw (hv : w.trace.Valid) (visit : Visit) (node : TraceNode) (s : State) :
    Memo.Progress s.memo (w.draw visit node s).memo :=
  panel_invariant (P := Memo.Progress s.memo)
    (fun action _ id m hm =>
      hm.trans (Evaluation.progress_evaluate (c := w.evaluation action) hv id m))
    visit.node node (.refl s.memo)

/-- What is recorded stays recorded when a step is drawn. -/
theorem has_draw (hv : w.trace.Valid) (visit : Visit) (node : TraceNode) {s : State} {key : NodeKey}
    (h : s.memo.has key = true) : (w.draw visit node s).memo.has key = true := by
  rw [Memo.has, Option.isSome_iff_ne_none] at h ⊢
  exact (progress_draw hv visit node s).known key h

/-- **Where the additional panels find their results recorded**, the walks have the same memo all
along, and the results on panels are the same. -/
theorem same_outcome_of_recorded (hv : w.trace.Valid)
    (h : Recorded (w.evaluateFocus focus).2 ((w.showing true).final focus lastEdited).requests) :
    Same outcome? ((w.showing true).final focus lastEdited)
      ((w.showing false).final focus lastEdited) := by
  refine same_of_draws (G := fun requests _ => Recorded (w.evaluateFocus focus).2 requests)
    (M := fun m m' => (∀ key, (w.evaluateFocus focus).2.has key → m.has key) ∧ m = m')
    ?_ ?_ ?_ ⟨fun _ h => h, rfl⟩ h
  · intro visit node s hrecorded
    rw [requests_draw] at hrecorded
    exact hrecorded.of_concat
  -- with the same memo both walks find the same, and go on with the same memo
  · rintro visit node s s' - ⟨hkept, hmemo⟩
    refine ⟨⟨fun key hkey => has_draw hv visit node (hkept key hkey), ?_⟩, ?_⟩
    all_goals
      rcases w.draw_cases visit node with hnone | ⟨action, cst, cstNode, -, -, hsome⟩
      · simp only [hnone, hmemo]
      · simp only [hsome, hmemo]
  -- an additional panel finds its result recorded, and leaves the memo as it is
  · rintro visit node s m' hall hrecorded ⟨hkept, hmemo⟩
    refine ⟨fun key hkey => has_draw hv visit node (hkept key hkey), ?_⟩
    rw [State.way, requests_draw, lastWay_concat] at hall
    rw [requests_draw] at hrecorded
    rw [memo_draw]
    rcases w.panel_eq visit.node node with hnone | ⟨action, rule, cst, cstNode, -, -, hsome⟩
    · rw [hnone]
      exact hmemo
    · rw [hsome] at hrecorded hall ⊢
      exact (outcomeOf_of_has (hkept _ (hrecorded.last hall rfl))).trans hmemo

/-! ## Values -/

section Distinct

variable {action : Action} {cst : CstId} {node : CstNode} {m : Memo}

/-- Nothing is pending, and what is recorded agrees with the values of nodes. -/
structure Known (w : Walk) (hv : w.trace.Valid) (action : Action) (m : Memo) : Prop where
  faithful : (w.evaluation action).Faithful hv m
  settled : ∀ key, m.get? key ≠ some .pending

theorem Known.empty (hv : w.trace.Valid) : w.Known hv action .empty :=
  ⟨Evaluation.faithful_empty, fun _ hget => by cases hget⟩

theorem Known.evaluate {hv : w.trace.Valid} (hd : w.trace.Distinct) (h : w.Known hv action m)
    (id : CstId) : w.Known hv action ((w.evaluation action).evaluate id m).2 where
  faithful := Evaluation.faithful_evaluate hv hd id m h.faithful
  settled key hget := h.settled key
    ((Evaluation.progress_evaluate (c := w.evaluation action) hv id m).pending key hget)

/-- The outcome that a panel asks for has the value of the node. -/
theorem Known.outcomeOf {hv : w.trace.Valid} (hd : w.trace.Distinct) (h : w.Known hv action m)
    (hnode : w.trace.cstNode? cst = some node) :
    w.Known hv action (w.outcomeOf action cst (.of node action.name) m).2 ∧
      (w.outcomeOf action cst (.of node action.name) m).1.value? =
        (w.evaluation action).value? hv cst := by
  rw [Walk.outcomeOf]
  split
  · next outcome hget =>
    refine ⟨h, h.faithful.value? cst node outcome hnode hget ?_⟩
    rintro rfl
    exact h.settled _ hget
  · have hafter := h.evaluate hd cst
    exact ⟨hafter, hafter.faithful.value? cst node _ hnode
      (Evaluation.get?_evaluate (c := w.evaluation action) hv hnode m)
      (Evaluation.settled_evaluate (c := w.evaluation action) hv cst m)⟩

/-- **Where nodes have different keys** the values on panels are the same. -/
theorem same_value (hv : w.trace.Valid) (hd : w.trace.Distinct) (haction : w.action = some action) :
    Same value? ((w.showing true).final focus lastEdited)
      ((w.showing false).final focus lastEdited) := by
  -- a panel has one value, whatever has been found before
  have hdraw (visit : Visit) (node : TraceNode) : ∃ value, ∀ s : State, w.Known hv action s.memo →
      w.Known hv action (w.draw visit node s).memo ∧
        (w.request visit node (w.panel visit.node node s).1).value? = value := by
    simp only [DrawRequest.value?]
    rcases w.draw_cases visit node with hnone | ⟨action', cst, cstNode, haction', hnode, hsome⟩
    · refine ⟨none, fun s hs => ?_⟩
      rw [(hnone s).1, (hnone s).2]
      exact ⟨hs, rfl⟩
    · obtain rfl := Option.some.inj (haction.symm.trans haction')
      refine ⟨some ((w.evaluation action).value? hv cst), fun s hs => ?_⟩
      obtain ⟨hafter, hvalue⟩ := hs.outcomeOf hd hnode
      rw [(hsome s).1, (hsome s).2]
      exact ⟨hafter, congrArg some hvalue⟩
  have hstart : w.Known hv action (w.evaluateFocus focus).2 :=
    evaluateFocus_invariant (fun action' haction' id m hm => by
      obtain rfl := Option.some.inj (haction.symm.trans haction')
      exact hm.evaluate hd id) (Known.empty hv) focus
  refine same_of_draws (G := fun _ _ => True)
    (M := fun m m' => w.Known hv action m ∧ w.Known hv action m') (fun _ _ _ h => h) ?_ ?_
    ⟨hstart, hstart⟩ trivial
  · rintro visit node s s' - ⟨hs, hs'⟩
    obtain ⟨value, hvalue⟩ := hdraw visit node
    exact ⟨⟨(hvalue s hs).1, (hvalue s' hs').1⟩, (hvalue s hs).2.trans (hvalue s' hs').2.symm⟩
  · rintro visit node s m' - - ⟨hs, hs'⟩
    obtain ⟨value, hvalue⟩ := hdraw visit node
    exact ⟨(hvalue s hs).1, hs'⟩

/-! ## Outcomes -/

/-- A request that was made has a panel that was drawn. -/
theorem mem_panels {r : Result} {request : DrawRequest} {panel : ActionPanel}
    (hrequest : request ∈ r.requests) (hpanel : request.panel = some panel) : panel ∈ r.panels := by
  obtain ⟨event, hevent, hdraw⟩ := List.mem_filterMap.mp hrequest
  refine List.mem_filterMap.mpr ⟨event, hevent, ?_⟩
  cases event with
  | leave id => cases hdraw
  | draw r' =>
    obtain rfl := Option.some.inj hdraw
    exact hpanel

/-- Where the first evaluation finds a body missing, what has no value has failed. -/
theorem outcome?_of_permissive (hv : w.trace.Valid) (hp : (w.evaluateFocus focus).2.permissive)
    {r : DrawRequest} (hr : r ∈ (w.run focus lastEdited).requests) :
    r.outcome? = r.value?.map fun value => value.elim .failed .succeeded := by
  rw [DrawRequest.value?, DrawRequest.outcome?, Option.map_map, Option.map_map]
  cases hpanel : r.panel with
  | none => rfl
  | some panel =>
    have hmem := mem_panels hr hpanel
    have hsettled := settled_of_panel hv focus lastEdited panel hmem
    have herrored := not_isErrored_of_panel hv hp lastEdited panel hmem
    refine congrArg some ?_
    change panel.outcome = panel.outcome.value?.elim .failed .succeeded
    cases houtcome : panel.outcome with
    | pending => exact absurd houtcome hsettled
    | errored e => exact absurd ⟨e, houtcome⟩ herrored
    | _ => rfl

/-- **Where the first evaluation finds a body missing** and nodes have different keys, the results
on panels are the same. -/
theorem same_outcome_of_missing (hv : w.trace.Valid) (hd : w.trace.Distinct)
    (haction : w.action = some action) (hp : (w.evaluateFocus focus).2.permissive) :
    Same outcome? ((w.showing true).final focus lastEdited)
      ((w.showing false).final focus lastEdited) := by
  have hoff (r : DrawRequest) (hr : r ∈ ((w.showing false).run focus lastEdited).requests) :=
    outcome?_of_permissive (w := w.showing false) hv hp hr
  have hon (r : DrawRequest)
      (hr : r ∈ withoutFailures ((w.showing true).run focus lastEdited).requests) :=
    outcome?_of_permissive (w := w.showing true) hv hp ((withoutFailures_sublist _).subset hr)
  have hsame : Same DrawRequest.value? ((w.showing true).final focus lastEdited)
    ((w.showing false).final focus lastEdited) := same_value hv hd haction
  have hvalues := congrArg
    (List.map (Option.map fun value : Option Value => value.elim Outcome.failed .succeeded)) hsame
  rw [List.map_map, List.map_map] at hvalues
  exact (List.map_congr_left hoff).trans (hvalues.trans (List.map_congr_left hon).symm)

/-- Nothing is pending, and nodes are recorded with the outcomes that they have where nothing is
known before. -/
structure Fresh (w : Walk) (action : Action) (m : Memo) : Prop where
  exact : (w.evaluation action).Exact m
  settled : ∀ key, m.get? key ≠ some .pending

theorem Fresh.evaluate (hv : w.trace.Valid) (hd : w.trace.Distinct) (h : w.Fresh action m)
    {id : CstId} (hwritten : ((w.evaluation action).evaluate id m).2.todo = []) :
    w.Fresh action ((w.evaluation action).evaluate id m).2 where
  exact := (Evaluation.fresh?_of_evaluate (c := w.evaluation action) hv hd h.exact id).2 hwritten
  settled key hget := h.settled key
    ((Evaluation.progress_evaluate (c := w.evaluation action) hv id m).pending key hget)

/-- The outcome that a panel asks for is the one that the node has where nothing is known before, as
long as no body is found missing. -/
theorem Fresh.outcomeOf (hv : w.trace.Valid) (hd : w.trace.Distinct) (h : w.Fresh action m)
    (hnode : w.trace.cstNode? cst = some node) :
    let found := w.outcomeOf action cst (.of node action.name) m
    found.2.ifWritten found.1 = (w.evaluation action).fresh? cst ∧
      (found.2.todo = [] → w.Fresh action found.2) := by
  intro found
  simp only [found, Walk.outcomeOf]
  split
  · next outcome hget =>
    refine ⟨?_, fun _ => h⟩
    rw [Memo.ifWritten_of_written h.exact.written, h.exact.fresh cst node outcome hnode hget]
    rintro rfl
    exact h.settled _ hget
  · exact ⟨(Evaluation.fresh?_of_evaluate (c := w.evaluation action) hv hd h.exact cst).1,
      h.evaluate hv hd⟩

/-- **Where no body is found missing** and nodes have different keys, the results on panels are the
same. -/
theorem same_outcome_of_written (hv : w.trace.Valid) (hd : w.trace.Distinct)
    (haction : w.action = some action)
    (hwritten : ((w.showing true).final focus lastEdited).memo.todo = []) :
    Same outcome? ((w.showing true).final focus lastEdited)
      ((w.showing false).final focus lastEdited) := by
  -- no body is found missing in the end, and so none at the start
  have hstart : w.Fresh action (w.evaluateFocus focus).2 := by
    have hprogress : Memo.Progress (w.evaluateFocus focus).2
        ((w.showing true).run focus lastEdited).memo :=
      visit_invariant (w := w.showing true) (fun action' _ id m hm =>
        hm.trans (Evaluation.progress_evaluate (c := w.evaluation action') hv id m))
        (.refl _) lastEdited
    refine evaluateFocus_invariant (P := fun m => m.todo = [] → w.Fresh action m)
      (fun action' haction' id m hm hafter => ?_)
      (fun _ => ⟨.empty, fun _ hget => by cases hget⟩) focus (hprogress.written hwritten)
    obtain rfl := Option.some.inj (haction.symm.trans haction')
    have hbefore := (Evaluation.progress_evaluate (c := w.evaluation action) hv id m).written hafter
    exact (hm hbefore).evaluate hv hd hafter
  refine same_of_draws (G := fun _ m => m.todo = [])
    (M := fun m m' => w.Fresh action m ∧ w.Fresh action m')
    (fun visit node s h => (progress_draw hv visit node s).written h) ?_ ?_ ⟨hstart, hstart⟩
    hwritten
  · rintro visit node s s' hafter ⟨hs, hs'⟩
    rcases w.draw_cases visit node with hnone | ⟨action', cst, cstNode, haction', hnode, hsome⟩
    · rw [(hnone s).1, (hnone s').1, (hnone s).2, (hnone s').2]
      exact ⟨⟨hs, hs'⟩, rfl⟩
    -- both panels show what the node has where nothing is known before
    · obtain rfl := Option.some.inj (haction.symm.trans haction')
      rw [(hsome s).1] at hafter
      obtain ⟨hfound, hfresh⟩ := hs.outcomeOf hv hd hnode
      obtain ⟨hfound', hfresh'⟩ := hs'.outcomeOf hv hd hnode
      rw [← hfound, Memo.ifWritten_of_written hafter, Memo.ifWritten_eq_some] at hfound'
      rw [(hsome s).1, (hsome s').1, (hsome s).2, (hsome s').2, hfound'.2]
      exact ⟨⟨hfresh hafter, hfresh' hfound'.1⟩, rfl⟩
  · rintro visit node s m' - hafter ⟨hs, hs'⟩
    refine ⟨?_, hs'⟩
    rcases w.draw_cases visit node with hnone | ⟨action', cst, cstNode, haction', hnode, hsome⟩
    · rw [(hnone s).1]
      exact hs
    · obtain rfl := Option.some.inj (haction.symm.trans haction')
      rw [(hsome s).1] at hafter ⊢
      exact (hs.outcomeOf hv hd hnode).2 hafter

end Distinct

/-- **A walk without failures** makes the requests of the walk with failures for those steps that no
failure is on the way to, in the same order and at the same depths. Where nodes have different keys,
the panels show the same values; they show the same results when moreover no body is found missing,
or the first evaluation finds one missing. They also do, whatever the keys are, when the panels that
a failure is on the way to find their results recorded by the first evaluation. -/
theorem requests_without_failures (ht : w.trace.validate = .ok ()) {action : Action}
    (haction : w.action = some action) (focus : TraceId) (lastEdited : Option NodeKey) :
    let on := (w.showing true).run focus lastEdited
    let off := (w.showing false).run focus lastEdited
    let first := (w.evaluateFocus focus).2
    (∀ way ∈ ways on.requests, IsWay w.trace focus way) ∧
      off.requests.map unevaluated = (withoutFailures on.requests).map unevaluated ∧
      (w.trace.Distinct → off.requests.map value? = (withoutFailures on.requests).map value?) ∧
      (Recorded first on.requests ∨
          w.trace.Distinct ∧ (on.report.todo = [] ∨ first.todo ≠ []) →
        off.requests.map outcome? = (withoutFailures on.requests).map outcome?) := by
  intro on off first
  have hv := Trace.valid_of_validate ht
  refine ⟨ways_of_run (w := w.showing true) focus lastEdited, same_unevaluated focus lastEdited,
    fun hd => same_value hv hd haction, ?_⟩
  rintro (hrecorded | ⟨hd, hwritten | hmissing⟩)
  · exact same_outcome_of_recorded hv hrecorded
  · exact same_outcome_of_written hv hd haction hwritten
  · exact same_outcome_of_missing hv hd haction (Memo.permissive_eq_true.mpr hmissing)

/-! ## Samples -/

/-- A match of `Whole` in which a first attempt failed, after a step for the first node of the tree
had succeeded below it, and then a step for the second node succeeded. The match itself may have a
node. -/
def attempts (rule rule' : String) (tree : Array CstNode) (whole : Option CstId)
    (action : Action) : Walk where
  trace := {
    input := "a"
    grammar := .empty
    nodes := #[⟨.of (.apply "Whole"), ⟨0, 1⟩, [⟨1⟩, ⟨3⟩], true, none, "Whole", whole⟩,
      ⟨.of (.seq []), ⟨0, 1⟩, [⟨2⟩], false, none, "attempt", none⟩,
      ⟨.of (.apply rule), ⟨0, 1⟩, [], true, none, rule, some ⟨0⟩⟩,
      ⟨.of (.apply rule'), ⟨0, 1⟩, [], true, none, rule', some ⟨1⟩⟩]
    cst := tree
    root := ⟨0⟩ }
  config := { Config.standard with gasLimit := 100 }
  action := some action
  edits := []
  zoomTarget := none

/-- The key of a node of the match. -/
def wholeKey (rule : String) : NodeKey :=
  ⟨rule, 0, 1, "act"⟩

/-- The body of `Part`, which raises an error, as the name is not bound. -/
def boom : RuleAction :=
  ⟨"Part", [], .expr (.ident ⟨1, 1, 1, 5⟩ "boom"), ⟨[], "boom"⟩⟩

/-- An action with a body for `Part` alone. -/
def booming : Action :=
  ⟨"act", .operation, [("Part", boom)]⟩

/-- Below the failed attempt there is a `Gap`, whose body is missing. The body of `Part` raises an
error. -/
def gaps (whole : Option CstId) : Walk :=
  attempts "Gap" "Part" #[⟨.nonterminal "Gap", ⟨0, 1⟩, []⟩, ⟨.nonterminal "Part", ⟨0, 1⟩, []⟩,
    ⟨.nonterminal "Whole", ⟨0, 1⟩, []⟩] whole booming

theorem validate_gaps (whole : Option CstId) (h : whole = none ∨ whole = some ⟨2⟩) :
    (gaps whole).trace.validate = .ok () := by
  have hchecks : (gaps whole).trace.validate = (gaps whole).trace.checkAcyclic := by
    rcases h with rfl | rfl <;> rfl
  rw [hchecks, Trace.checkAcyclic_eq_ok]
  constructor
  · cbv
  · cbv

theorem distinct_gaps (whole : Option CstId) : (gaps whole).trace.Distinct := by
  refine Trace.distinct_of_nodup ?_
  change [("Gap", (⟨0, 1⟩ : Interval)), ("Part", ⟨0, 1⟩), ("Whole", ⟨0, 1⟩)].Nodup
  decide

theorem requests_without_failures_gaps :
    let w := gaps (some ⟨2⟩)
    w.trace.validate = .ok () ∧ w.trace.Distinct ∧
      (w.evaluateFocus ⟨0⟩).2.todo = [wholeKey "Whole"] ∧
      ((w.showing false).run ⟨0⟩ none).requests.map outcome? =
        (withoutFailures ((w.showing true).run ⟨0⟩ none).requests).map outcome? := by
  intro w
  have ht : w.trace.validate = .ok () := validate_gaps _ (.inr rfl)
  -- the match itself is a node of `Whole`, which has no body either
  have htodo : (w.evaluateFocus ⟨0⟩).2.todo = [wholeKey "Whole"] := by
    have hfocus : (w.evaluateFocus ⟨0⟩).2 = ((w.evaluation booming).evaluate ⟨2⟩ .empty).2 := rfl
    have hnode : w.trace.cstNode? ⟨2⟩ = some ⟨.nonterminal "Whole", ⟨0, 1⟩, []⟩ := rfl
    rw [hfocus, Evaluation.evaluate_of_finished (Trace.valid_of_validate ht) hnode rfl
      (.unwritten rfl rfl (by simp))]
    rfl
  exact ⟨ht, distinct_gaps _, htodo, (requests_without_failures ht rfl ⟨0⟩ none).2.2.2
    (.inr ⟨distinct_gaps _, .inr (by simp [htodo])⟩)⟩

/-- The error of `Part` counts as a failure once a body is missing. -/
theorem outcomeOf_part {m : Memo} (hget : m.get? (wholeKey "Part") = none) :
    ((gaps none).outcomeOf booming ⟨1⟩ (wholeKey "Part") m).1 =
      (Outcome.errored ⟨wholeKey "Part", .undefinedVariable "boom"⟩).propagated m.permissive := by
  have hv := Trace.valid_of_validate (validate_gaps none (.inl rfl))
  have hnode : (gaps none).trace.cstNode? ⟨1⟩ = some ⟨.nonterminal "Part", ⟨0, 1⟩, []⟩ := rfl
  have hchildren : Evaluation.outcomes ((gaps none).evaluation booming).evaluate []
    (m.start (wholeKey "Part")) = (.ok [], m.start (wholeKey "Part")) := rfl
  have hfinished : ((gaps none).evaluation booming).Finished ⟨.nonterminal "Part", ⟨0, 1⟩, []⟩
    (m.start (wholeKey "Part")) _ _ := .body (a := boom) rfl hchildren
  rw [outcomeOf, hget]
  dsimp only
  rw [Evaluation.evaluate_of_finished hv hnode rfl hfinished]
  rfl

/-- The result of `Part` is an error, unless the missing body of `Gap` was found before. -/
theorem outcomes_gaps :
    (((gaps none).showing false).run ⟨0⟩ none).requests.map outcome? =
      [none, some (.errored ⟨wholeKey "Part", .undefinedVariable "boom"⟩)] ∧
    (withoutFailures (((gaps none).showing true).run ⟨0⟩ none).requests).map outcome? =
      [none, some .failed] := by
  have hnode : (gaps none).trace.cstNode? ⟨0⟩ = some ⟨.nonterminal "Gap", ⟨0, 1⟩, []⟩ := rfl
  have hgap : (gaps none).outcomeOf booming ⟨0⟩ (wholeKey "Gap") .empty =
      (.failed, ((Memo.empty.start (wholeKey "Gap")).addTodo (wholeKey "Gap")).set
        (wholeKey "Gap") .failed) :=
    Evaluation.evaluate_of_finished (c := (gaps none).evaluation booming)
      (Trace.valid_of_validate (validate_gaps none (.inl rfl))) hnode rfl
      (.unwritten rfl rfl (by simp))
  have hoff : (((gaps none).showing false).run ⟨0⟩ none).requests.map outcome? =
      [none, some ((gaps none).outcomeOf booming ⟨1⟩ (wholeKey "Part") .empty).1] := by
    rw [requests_run, final, Trace.walk_eq_visit]
    rfl
  have hon : (withoutFailures (((gaps none).showing true).run ⟨0⟩ none).requests).map outcome? =
      [none, some ((gaps none).outcomeOf booming ⟨1⟩ (wholeKey "Part")
        ((gaps none).outcomeOf booming ⟨0⟩ (wholeKey "Gap") .empty).2).1] := by
    rw [requests_run, final, Trace.walk_eq_visit]
    rfl
  rw [hoff, hon, hgap, outcomeOf_part rfl, outcomeOf_part rfl]
  exact ⟨rfl, rfl⟩

/-- An action without bodies. -/
def bare : Action :=
  .new "act" .operation

/-- Both attempts match a `Twin` of the same interval, and only the children of these differ. -/
def twins : Walk :=
  attempts "Twin" "Twin"
    #[⟨.nonterminal "Twin", ⟨0, 1⟩, [⟨2⟩]⟩, ⟨.nonterminal "Twin", ⟨0, 1⟩, [⟨3⟩]⟩,
      ⟨.terminal, ⟨0, 0⟩, []⟩, ⟨.terminal, ⟨0, 1⟩, []⟩] none bare

theorem validate_twins : twins.trace.validate = .ok () := by
  have hchecks : twins.trace.validate = twins.trace.checkAcyclic := rfl
  rw [hchecks, Trace.checkAcyclic_eq_ok]
  constructor
  · cbv
  · cbv

/-- A `Twin` has the text of its child. -/
theorem outcomeOf_twin (id : CstId) {child : CstId} {i : Interval}
    (hnode : twins.trace.cstNode? id = some ⟨.nonterminal "Twin", ⟨0, 1⟩, [child]⟩)
    (hchild : twins.trace.cstNode? child = some ⟨.terminal, i, []⟩) :
    ∃ m, twins.outcomeOf bare id (wholeKey "Twin") .empty =
      (.succeeded (.string (twins.trace.text i)), m) ∧ m.todo = [] ∧
      m.get? (wholeKey "Twin") = some (.succeeded (.string (twins.trace.text i))) := by
  have hv := Trace.valid_of_validate validate_twins
  have htext := Evaluation.evaluate_of_finished (c := twins.evaluation bare)
    (m := (Memo.empty.start (wholeKey "Twin")).addPassThrough (wholeKey "Twin")) hv hchild rfl
    (.terminal rfl rfl)
  have hfinished : (twins.evaluation bare).Finished ⟨.nonterminal "Twin", ⟨0, 1⟩, [child]⟩
    (Memo.empty.start (wholeKey "Twin")) _ _ := .passThrough rfl rfl rfl
  have htwin := Evaluation.evaluate_of_finished hv hnode rfl hfinished
  -- the key under which the node is listed is that of both of them
  have hkey : (twins.evaluation bare).keyOf ⟨.nonterminal "Twin", ⟨0, 1⟩, [child]⟩ =
    wholeKey "Twin" := rfl
  rw [hkey, htext] at htwin
  exact ⟨_, htwin, rfl, Memo.get?_set_self _ _ _⟩

/-- The result of the second `Twin` is its own text, unless that of the first one was found
before. -/
theorem outcomes_twins :
    ((twins.showing true).run ⟨0⟩ none).report.todo = [] ∧
    ((twins.showing false).run ⟨0⟩ none).requests.map outcome? =
      [none, some (.succeeded (.string "a"))] ∧
    (withoutFailures ((twins.showing true).run ⟨0⟩ none).requests).map outcome? =
      [none, some (.succeeded (.string ""))] := by
  obtain ⟨m, hfirst, htodo, hget⟩ := outcomeOf_twin ⟨0⟩ rfl rfl
  obtain ⟨m', hsecond, -, -⟩ := outcomeOf_twin ⟨1⟩ rfl rfl
  have hfound : twins.outcomeOf bare ⟨1⟩ (wholeKey "Twin") m = (.succeeded (.string ""), m) := by
    rw [outcomeOf, hget]
    rfl
  have hoff : ((twins.showing false).run ⟨0⟩ none).requests.map outcome? =
      [none, some (twins.outcomeOf bare ⟨1⟩ (wholeKey "Twin") .empty).1] := by
    rw [requests_run, final, Trace.walk_eq_visit]
    rfl
  have hon : (withoutFailures ((twins.showing true).run ⟨0⟩ none).requests).map outcome? =
      [none, some (twins.outcomeOf bare ⟨1⟩ (wholeKey "Twin")
        (twins.outcomeOf bare ⟨0⟩ (wholeKey "Twin") .empty).2).1] := by
    rw [requests_run, final, Trace.walk_eq_visit]
    rfl
  have hmemo : ((twins.showing true).run ⟨0⟩ none).report.todo =
      (twins.outcomeOf bare ⟨1⟩ (wholeKey "Twin")
        (twins.outcomeOf bare ⟨0⟩ (wholeKey "Twin") .empty).2).2.todo := by
    rw [todo_run, final, Trace.walk_eq_visit]
    rfl
  rw [hmemo, hoff, hon, hfirst, hsecond, hfound]
  exact ⟨htodo, rfl, rfl⟩

/-- **The results on panels can differ.** A missing body that is found below a failed attempt turns
an error into a failure, and a value that is found there is used for another node with the same
key. -/
theorem results_that_failures_change :
    ((gaps none).trace.validate = .ok () ∧ (gaps none).trace.Distinct ∧
      (((gaps none).showing false).run ⟨0⟩ none).requests.map outcome? ≠
        (withoutFailures (((gaps none).showing true).run ⟨0⟩ none).requests).map outcome?) ∧
    twins.trace.validate = .ok () ∧ ((twins.showing true).run ⟨0⟩ none).report.todo = [] ∧
      ((twins.showing false).run ⟨0⟩ none).requests.map outcome? ≠
        (withoutFailures ((twins.showing true).run ⟨0⟩ none).requests).map outcome? := by
  obtain ⟨htodo, hoff, hon⟩ := outcomes_twins
  refine ⟨⟨validate_gaps none (.inl rfl), distinct_gaps none, ?_⟩, validate_twins, htodo, ?_⟩
  · rw [outcomes_gaps.1, outcomes_gaps.2]
    nofun
  · rw [hoff, hon]
    simp

end ParseActions.Walk
