import ParseActions.Proofs.Memo.Cases

/-!
# What every evaluation keeps

Whatever is known before an evaluation in a valid trace, after it no less is known, no more is
pending, and both lists have only grown. Once a body is missing, no outcome becomes an error.

## Main definitions

* `Memo.Progress`: what is kept between two memos

## Main results

* `Evaluation.progress_evaluate`: an evaluation makes progress
* `Evaluation.get?_evaluate`: the outcome of a node is recorded
-/

namespace ParseActions

/-- What is kept between two memos. -/
structure Memo.Progress (m m' : Memo) : Prop where
  known : ∀ key, m.get? key ≠ none → m'.get? key ≠ none
  pending : ∀ key, m'.get? key = some .pending → m.get? key = some .pending
  todo : m.todo <+: m'.todo
  passThrough : m.passThrough <+: m'.passThrough
  errored : m.permissive → ∀ key e, m'.get? key = some (.errored e) → m.get? key = some (.errored e)

namespace Memo.Progress

variable {m m₁ m₂ : Memo}

theorem refl (m : Memo) : Progress m m :=
  ⟨fun _ h => h, fun _ h => h, List.prefix_rfl, List.prefix_rfl, fun _ _ _ h => h⟩

/-- Once a body is missing, one is missing. -/
theorem permissive (h : Progress m m₁) (hp : m.permissive = true) : m₁.permissive = true := by
  rw [permissive_eq_true] at hp ⊢
  exact fun hnil => hp (List.prefix_nil.mp (hnil ▸ h.todo))

/-- While no body is missing, none was. -/
theorem written (h : Progress m m₁) (hwritten : m₁.todo = []) : m.todo = [] :=
  List.prefix_nil.mp (hwritten ▸ h.todo)

/-- What is settled stays settled. -/
theorem ended (h : Progress m m₁) {key : NodeKey} (hk : m.Ended key) : m₁.Ended key := by
  obtain ⟨outcome, hget, hsettled⟩ := hk
  have hknown : m₁.get? key ≠ none := h.known key (by rw [hget]; nofun)
  obtain ⟨outcome', hget'⟩ := Option.ne_none_iff_exists'.mp hknown
  refine ⟨outcome', hget', ?_⟩
  rintro rfl
  rw [h.pending key hget', Option.some.injEq] at hget
  exact hsettled hget.symm

theorem trans (h : Progress m m₁) (h' : Progress m₁ m₂) : Progress m m₂ where
  known key hk := h'.known key (h.known key hk)
  pending key hk := h.pending key (h'.pending key hk)
  todo := h.todo.trans h'.todo
  passThrough := h.passThrough.trans h'.passThrough
  errored hp key e hk := h.errored hp key e (h'.errored (h.permissive hp) key e hk)

theorem addTodo (m : Memo) (key : NodeKey) : Progress m (m.addTodo key) :=
  ⟨fun _ h => h, fun _ h => h, prefix_addNew key m.todo, List.prefix_rfl, fun _ _ _ h => h⟩

theorem addPassThrough (m : Memo) (key : NodeKey) : Progress m (m.addPassThrough key) :=
  ⟨fun _ h => h, fun _ h => h, List.prefix_rfl, prefix_addNew key m.passThrough, fun _ _ _ h => h⟩

/-- Recording the outcome of an evaluation that has begun makes progress since before it began. -/
theorem record {key : NodeKey} {outcome : Outcome} (h : Progress (m.start key) m₁)
    (hsettled : outcome.Settled) (herrored : m.permissive → ¬ outcome.IsErrored) :
    Progress m (m₁.set key outcome) where
  known k hk := by
    -- what another key has was there before, as only this key was pending
    by_cases he : k = key
    · simp [he]
    · rw [get?_set_of_ne _ _ he]
      refine h.known k ?_
      rwa [get?_start, if_neg he]
  pending k hk := by
    by_cases he : k = key
    · rw [he, get?_set_self, Option.some.injEq] at hk
      exact absurd hk hsettled
    · rw [get?_set_of_ne _ _ he] at hk
      have hstart := h.pending k hk
      rwa [get?_start, if_neg he] at hstart
  todo := h.todo
  passThrough := h.passThrough
  errored hp k e hk := by
    -- the node itself was pending, and is no error now
    by_cases he : k = key
    · rw [he, get?_set_self, Option.some.injEq] at hk
      exact absurd ⟨e, hk⟩ (herrored hp)
    · rw [get?_set_of_ne _ _ he] at hk
      have hstart := h.errored hp k e hk
      rwa [get?_start, if_neg he] at hstart

end Memo.Progress

namespace Outcome

theorem settled_propagated {outcome : Outcome} (h : outcome.Settled) (p : Bool) :
    (outcome.propagated p).Settled := by
  cases outcome with
  | pending => exact absurd rfl h
  | failed => exact settled_failed
  | errored e =>
    cases p with
    | false => exact settled_errored e
    | true => exact settled_failed
  | succeeded v => exact settled_succeeded v

theorem not_isErrored_propagated (outcome : Outcome) : ¬ (outcome.propagated true).IsErrored := by
  rintro ⟨e, he⟩
  cases outcome <;> cases he

theorem settled_collected (outcomes : List Outcome) :
    (collected outcomes).Settled ∧ ¬ (collected outcomes).IsErrored := by
  rw [collected]
  cases outcomes.mapM value? with
  | none => exact ⟨settled_failed, not_isErrored_failed⟩
  | some values => exact ⟨settled_succeeded _, not_isErrored_succeeded _⟩

end Outcome

namespace Evaluation

variable {c : Evaluation}

/-- The outcome of a body is settled, and no error where a body is missing. -/
theorem settled_runBody (a : RuleAction) (node : CstNode) (args : List Value) (m : Memo) :
    (c.runBody a node args m).Settled ∧
      (m.permissive → ¬ (c.runBody a node args m).IsErrored) := by
  rw [runBody]
  split
  · split
    · exact ⟨Outcome.settled_failed, fun _ => Outcome.not_isErrored_failed⟩
    · exact ⟨Outcome.settled_succeeded _, fun _ => Outcome.not_isErrored_succeeded _⟩
  · next e _ =>
    refine ⟨Outcome.settled_propagated (Outcome.settled_errored _) _, fun hp => ?_⟩
    rw [hp]
    exact Outcome.not_isErrored_propagated _

/-- What an evaluation of a node keeps, whatever is known before. -/
def Progresses (c : Evaluation) (id : CstId) : Prop :=
  ∀ m, Memo.Progress m (c.evaluate id m).2 ∧ (c.evaluate id m).1.Settled

/-- What decides the outcome of a node is settled, and no error where a body is missing. -/
theorem settled_decided {ids : List CstId} (hids : ∀ id ∈ ids, c.Progresses id) {m m₁ : Memo}
    {decided : Outcome} (h : outcomes c.evaluate ids m = (.error decided, m₁)) :
    decided.Settled ∧ (m.permissive → ¬ decided.IsErrored) := by
  obtain ⟨id, hid, n, hn, -, rfl, rfl⟩ := exists_of_outcomes_eq_error (P := Memo.Progress m)
    (fun id hid n hn => hn.trans (hids id hid n).1) (.refl m) h
  obtain ⟨hprogress, hsettled⟩ := hids id hid n
  -- the error decides as it reaches the node above: as a failure once a body is missing
  refine ⟨Outcome.settled_propagated hsettled _, fun hp => ?_⟩
  rw [hprogress.permissive (hn.permissive hp)]
  exact Outcome.not_isErrored_propagated _

/-- What an evaluation that has begun keeps. -/
theorem Finished.progress {node : CstNode} {m m₁ : Memo} {outcome : Outcome}
    (h : c.Finished node m outcome m₁) (hchildren : ∀ id ∈ node.children, c.Progresses id) :
    Memo.Progress m m₁ ∧ outcome.Settled ∧ (m.permissive → ¬ outcome.IsErrored) := by
  have hprogress : Memo.Progress m m₁ := h.invariant
    (fun child hchild n hn => hn.trans (hchildren child hchild n).1)
    (fun _ _ _ => .addTodo m _) (fun _ => .addPassThrough m _) (.refl m)
  refine ⟨hprogress, ?_⟩
  cases h with
  | terminal => exact ⟨Outcome.settled_succeeded _, fun _ => Outcome.not_isErrored_succeeded _⟩
  | unwritten => exact ⟨Outcome.settled_failed, fun _ => Outcome.not_isErrored_failed⟩
  | passThrough _ _ hchild =>
    have hsettled := (hchildren _ (hchild ▸ List.mem_singleton_self _)
      (m.addPassThrough (c.keyOf node))).2
    refine ⟨Outcome.settled_propagated hsettled _, fun hp => ?_⟩
    rw [hprogress.permissive hp]
    exact Outcome.not_isErrored_propagated _
  | body =>
    obtain ⟨hsettled, herrored⟩ := settled_runBody _ node _ m₁
    exact ⟨hsettled, fun hp => herrored (hprogress.permissive hp)⟩
  | collect => exact ⟨(Outcome.settled_collected _).1, fun _ => (Outcome.settled_collected _).2⟩
  | decided _ hos => exact settled_decided hchildren hos

/-- **Every evaluation** in a valid trace makes progress, and its outcome is settled. -/
theorem progresses (hv : c.trace.Valid) (id : CstId) : c.Progresses id := by
  refine evaluate_induction hv (P := fun _ m outcome m' => Memo.Progress m m' ∧ outcome.Settled)
    ?_ ?_ ?_ id
  · exact fun _ m _ => ⟨.refl m, Outcome.settled_failed⟩
  · exact fun _ _ m _ _ h => ⟨.refl m, (known?_eq_some h).2⟩
  · intro _ node m outcome m₁ _ _ h ih
    obtain ⟨hprogress, hsettled, herrored⟩ := h.progress ih
    exact ⟨hprogress.record hsettled herrored, hsettled⟩

/-- **An evaluation** makes progress. -/
theorem progress_evaluate (hv : c.trace.Valid) (id : CstId) (m : Memo) :
    Memo.Progress m (c.evaluate id m).2 :=
  (progresses hv id m).1

theorem settled_evaluate (hv : c.trace.Valid) (id : CstId) (m : Memo) :
    (c.evaluate id m).1.Settled :=
  (progresses hv id m).2

theorem progress_outcomes (hv : c.trace.Valid) (ids : List CstId) (m : Memo) :
    Memo.Progress m (outcomes c.evaluate ids m).2 :=
  outcomes_invariant (P := Memo.Progress m)
    (fun id _ n hn => hn.trans (progress_evaluate hv id n)) (.refl m)

/-- **The outcome of a node** is recorded. -/
theorem get?_evaluate (hv : c.trace.Valid) {id : CstId} {node : CstNode}
    (hnode : c.trace.cstNode? id = some node) (m : Memo) :
    (c.evaluate id m).2.get? (c.keyOf node) = some (c.evaluate id m).1 := by
  have hevaluated := evaluated hv id m
  generalize (c.evaluate id m).1 = outcome at hevaluated ⊢
  generalize (c.evaluate id m).2 = m' at hevaluated ⊢
  cases hevaluated with
  | missing hnone =>
    rw [hnode] at hnone
    cases hnone
  | known hnode' h =>
    obtain rfl := Option.some.inj (hnode.symm.trans hnode')
    exact (known?_eq_some h).1
  | new hnode' _ _ =>
    obtain rfl := Option.some.inj (hnode.symm.trans hnode')
    exact Memo.get?_set_self _ _ _

/-- A node that was evaluated has a settled outcome. -/
theorem ended_evaluate (hv : c.trace.Valid) {id : CstId} {node : CstNode}
    (hnode : c.trace.cstNode? id = some node) (m : Memo) :
    (c.evaluate id m).2.Ended (c.keyOf node) :=
  ⟨_, get?_evaluate hv hnode m, settled_evaluate hv id m⟩

end Evaluation

end ParseActions
