import ParseActions.Proofs.Memo.Ending
import ParseActions.Proofs.Walk.History

/-!
# Failures and errors of walks

A walk that finds no rule without a body records no failure and shows none. Once it has found one,
no outcome becomes an error any more, whatever is evaluated up to the end; a walk that finds one
while it evaluates the step that it begins at shows no error at all.

## Main results

* `Walk.failures_and_errors`: when a walk records and shows failures and errors
-/

namespace ParseActions.Walk

variable {w : Walk}

/-! ## Failures -/

/-- Failures are recorded and shown only where a body is missing. -/
theorem excused_of_run (hv : w.trace.Valid) (focus : TraceId) (lastEdited : Option NodeKey) :
    (w.run focus lastEdited).memo.Excused ∧
      ∀ panel ∈ (w.run focus lastEdited).panels, panel.outcome = .failed →
        (w.run focus lastEdited).memo.permissive := by
  have hevaluate (action : Action) (_ : w.action = some action) (id : CstId) (m : Memo)
      (hm : m.Excused) : ((w.evaluation action).evaluate id m).2.Excused :=
    Evaluation.excused_evaluate (c := w.evaluation action) hv id m hm
  refine ⟨run_invariant hevaluate .empty focus lastEdited, ?_⟩
  refine panels_invariant (Q := fun m panel => panel.outcome = .failed → m.permissive) hv hevaluate
    ?_ ?_ (evaluateFocus_invariant hevaluate .empty focus) lastEdited
  · intro action _ id m panel _ hpanel hfailed
    exact (Evaluation.progress_evaluate (c := w.evaluation action) hv id m).permissive
      (hpanel hfailed)
  · intro m panel hm hget hfailed
    exact hm panel.key (hget.trans (congrArg some hfailed))

/-! ## Errors -/

/-- No outcome becomes an error between any two memos that a walk passes, once a body is missing. -/
theorem lenient_of_run (hv : w.trace.Valid) {action : Action} (haction : w.action = some action)
    (focus : TraceId) (lastEdited : Option NodeKey) :
    (w.memos action focus lastEdited).getLast? = some (w.run focus lastEdited).memo ∧
      (w.memos action focus lastEdited).Pairwise Memo.Lenient := by
  obtain ⟨before, hmemos, hpairwise⟩ : ∃ before,
      w.memos action focus lastEdited = before ++ [(w.run focus lastEdited).memo] ∧
      (before ++ [(w.run focus lastEdited).memo]).Pairwise Memo.Lenient := by
    refine starts_invariant (P := fun m starts => ∃ before,
      (Memo.empty :: starts.flatMap fun start => (w.evaluation action).memos start.1 start.2) =
        before ++ [m] ∧ (before ++ [m]).Pairwise Memo.Lenient) ?_
      ⟨[], rfl, List.pairwise_singleton _ _⟩ focus lastEdited
    rintro action' haction' id m starts ⟨before, hbefore, hpairwise⟩
    obtain rfl := Option.some.inj (haction.symm.trans haction')
    -- the memos of an evaluation come after the one that it finds
    obtain ⟨passed, hpassed, hpairwise⟩ :=
      Evaluation.lenient_memos (c := w.evaluation action) hv id hpairwise
    refine ⟨before ++ [m] ++ passed, ?_, ?_⟩
    · rw [List.flatMap_append, ← List.cons_append, hbefore, List.flatMap_singleton, hpassed,
        List.append_assoc (before ++ [m])]
    · rwa [List.append_assoc (before ++ [m])]
  rw [hmemos]
  exact ⟨List.getLast?_concat, hpairwise⟩

/-- Where the first evaluation finds a body missing, it leaves no error. -/
theorem not_isErrored_of_focus (hv : w.trace.Valid) {focus : TraceId}
    (hp : (w.evaluateFocus focus).2.permissive) :
    (∀ key outcome, (w.evaluateFocus focus).2.get? key = some outcome → ¬ outcome.IsErrored) ∧
      ∀ outcome ∈ (w.evaluateFocus focus).1, ¬ outcome.IsErrored := by
  rw [evaluateFocus] at hp ⊢
  split at hp
  · next action id haction hfocus =>
    -- of the three ways in which the evaluation can leave the memo, two find all bodies written
    obtain ⟨ending, hends⟩ := Evaluation.exists_endsAs (c := w.evaluation action) hv id
    have htodo := Memo.permissive_eq_true.mp hp
    cases ending with
    | complete => exact absurd hends.1 htodo
    | raised =>
      obtain ⟨e, -, hraised⟩ := hends
      exact absurd hraised.written htodo
    | unfinished =>
      have hentries (key : NodeKey) (outcome : Outcome)
          (hget : ((w.evaluation action).evaluate id .empty).2.get? key = some outcome) :
          ¬ outcome.IsErrored := by
        rintro ⟨e, rfl⟩
        rcases hends.2 key _ hget with ⟨v, hv⟩ | hfailed
        · cases hv
        · cases hfailed
      refine ⟨hentries, fun outcome houtcome => ?_⟩
      obtain rfl := Option.some.inj houtcome
      cases hnode : w.trace.cstNode? id with
      | none =>
        rw [Evaluation.evaluate_of_missing (c := w.evaluation action) hv hnode]
        exact Outcome.not_isErrored_failed
      | some node =>
        exact hentries _ _ (Evaluation.get?_evaluate (c := w.evaluation action) hv hnode .empty)
  · cases hp

/-- Where the first evaluation finds a body missing, no panel shows an error. -/
theorem not_isErrored_of_panel (hv : w.trace.Valid) {focus : TraceId}
    (hp : (w.evaluateFocus focus).2.permissive) (lastEdited : Option NodeKey) :
    ∀ panel ∈ (w.run focus lastEdited).panels, ¬ panel.outcome.IsErrored := by
  refine panels_invariant (P := fun m => m.permissive ∧
    ∀ key outcome, m.get? key = some outcome → ¬ outcome.IsErrored)
    (Q := fun _ panel => ¬ panel.outcome.IsErrored) hv ?_ (fun _ _ _ _ _ _ h => h) ?_
    ⟨hp, (not_isErrored_of_focus hv hp).1⟩ lastEdited
  · rintro action - id m ⟨hm, hentries⟩
    have hprogress := Evaluation.progress_evaluate (c := w.evaluation action) hv id m
    refine ⟨hprogress.permissive hm, ?_⟩
    rintro key outcome hget ⟨e, rfl⟩
    exact hentries key _ (hprogress.errored hm key e hget) ⟨e, rfl⟩
  · exact fun m panel hm hget => hm.2 panel.key panel.outcome hget

/-- **Failures and errors of a walk.** Without a rule that lacks a body nothing fails. From the
moment such a rule is found, no outcome becomes an error; if it is found by the first evaluation,
the walk shows none. -/
theorem failures_and_errors (ht : w.trace.validate = .ok ()) {action : Action}
    (haction : w.action = some action) (focus : TraceId) (lastEdited : Option NodeKey) :
    let r := w.run focus lastEdited
    (r.report.todo = [] → (∀ key, r.memo.get? key ≠ some .failed) ∧
      ∀ panel ∈ r.panels, panel.outcome ≠ .failed) ∧
    ((w.memos action focus lastEdited).getLast? = some r.memo ∧
      (w.memos action focus lastEdited).Pairwise fun m m' => m.todo ≠ [] →
        ∀ key e, m'.get? key = some (.errored e) → m.get? key = some (.errored e)) ∧
    ((w.evaluateFocus focus).2.todo ≠ [] → r.report.errors = [] ∧ r.report.escaped = none ∧
      ∀ panel ∈ r.panels, ¬ panel.outcome.IsErrored) := by
  intro r
  have hv := Trace.valid_of_validate ht
  refine ⟨fun htodo => ?_, ?_, fun htodo => ?_⟩
  · obtain ⟨hentries, hpanels⟩ := excused_of_run hv focus lastEdited
    have hp : ¬ r.memo.permissive = true := fun hp => Memo.permissive_eq_true.mp hp htodo
    exact ⟨fun key hget => hp (hentries key hget),
      fun panel hpanel hfailed => hp (hpanels panel hpanel hfailed)⟩
  · obtain ⟨hlast, hpairwise⟩ := lenient_of_run hv haction focus lastEdited
    exact ⟨hlast, hpairwise.imp fun h hm => h.errored (Memo.permissive_eq_true.mpr hm)⟩
  · have hp := Memo.permissive_eq_true.mpr htodo
    have hpanels := not_isErrored_of_panel hv hp lastEdited
    refine ⟨?_, ?_, hpanels⟩
    · rw [List.eq_nil_iff_forall_not_mem]
      intro e he
      obtain ⟨panel, hpanel, herrored⟩ := exists_panel_of_error focus lastEdited he
      exact hpanels panel hpanel herrored
    · have hescaped : r.report.escaped =
        ((w.evaluateFocus focus).1.bind Outcome.error?).map RaisedError.surfaced := rfl
      rw [hescaped, Option.map_eq_none_iff, Option.bind_eq_none_iff]
      intro outcome houtcome
      cases outcome with
      | errored e => exact absurd ⟨e, rfl⟩ ((not_isErrored_of_focus hv hp).2 _ houtcome)
      | _ => rfl

theorem failures_and_errors_sample :
    let w : Walk := { sample with action := some ⟨"show", .operation, []⟩ }
    w.trace.validate = .ok () ∧ (w.evaluateFocus ⟨0⟩).2.todo = [⟨"Twice", 0, 1, "show"⟩] ∧
      (w.run ⟨0⟩ none).report.errors = [] := by
  intro w
  have hnode : w.trace.cstNode? ⟨0⟩ = some ⟨.nonterminal "Twice", ⟨0, 1⟩, [⟨1⟩, ⟨1⟩]⟩ := rfl
  have hfocus : (w.evaluateFocus ⟨0⟩).2 =
      ((w.evaluation ⟨"show", .operation, []⟩).evaluate ⟨0⟩ .empty).2 := rfl
  have htodo : (w.evaluateFocus ⟨0⟩).2.todo = [⟨"Twice", 0, 1, "show"⟩] := by
    rw [hfocus, Evaluation.evaluate_of_finished (Trace.valid_of_validate Trace.validate_sample)
      hnode rfl (.unwritten rfl rfl (by simp))]
    rfl
  obtain ⟨-, -, h⟩ := failures_and_errors (w := w) Trace.validate_sample rfl ⟨0⟩ none
  exact ⟨Trace.validate_sample, htodo, (h (by simp [htodo])).1⟩

end ParseActions.Walk
