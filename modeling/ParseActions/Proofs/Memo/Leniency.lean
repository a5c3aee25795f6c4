import ParseActions.Proofs.Memo.Reference
import ParseActions.Proofs.Memo.Rounds

/-!
# Missing bodies and failures

While a body is missing, errors count as failures, and without one nothing fails. Both are seen in
every memo that an evaluation passes: a failure is recorded only once a body has been found missing,
and from then on no outcome becomes an error, not even for a moment.

## Main definitions

* `Memo.Lenient`: between two memos no outcome becomes an error, if a body is missing
* `Memo.Excused`: where a failure is recorded, a body is missing

## Main results

* `Evaluation.lenient_memos`: no outcome becomes an error between any two memos that an evaluation
  passes
* `Evaluation.excused_evaluate`: an evaluation records failures only where a body is missing
-/

namespace ParseActions

/-! ## No outcome becomes an error -/

/-- Once a body is missing one stays missing, and no outcome becomes an error. -/
structure Memo.Lenient (m m' : Memo) : Prop where
  permissive : m.permissive → m'.permissive
  errored : m.permissive → ∀ key e, m'.get? key = some (.errored e) → m.get? key = some (.errored e)

namespace Memo.Lenient

variable {m m₁ m₂ : Memo}

theorem refl (m : Memo) : Lenient m m :=
  ⟨id, fun _ _ _ h => h⟩

theorem trans (h : Lenient m m₁) (h' : Lenient m₁ m₂) : Lenient m m₂ where
  permissive hp := h'.permissive (h.permissive hp)
  errored hp key e hget := h.errored hp key e (h'.errored (h.permissive hp) key e hget)

/-- An outcome that is no error may be recorded. -/
theorem set (h : Lenient m m₁) (key : NodeKey) {outcome : Outcome}
    (ho : m.permissive → ¬ outcome.IsErrored) : Lenient m (m₁.set key outcome) where
  permissive := h.permissive
  errored hp k e hget := by
    rw [get?_set] at hget
    split at hget
    · exact absurd ⟨e, Option.some.inj hget⟩ (ho hp)
    · exact h.errored hp k e hget

theorem start (m : Memo) (key : NodeKey) : Lenient m (m.start key) where
  permissive := id
  errored _ k e hget := by
    rw [get?_start] at hget
    split at hget
    · cases hget
    · exact hget

theorem addTodo (h : Lenient m m₁) (key : NodeKey) : Lenient m (m₁.addTodo key) :=
  ⟨fun _ => permissive_addTodo m₁ key, h.errored⟩

/-- One more memo at the end of a list, which makes no outcome of the last one an error. -/
theorem pairwise_concat {memos : List Memo} (hmemos : (memos ++ [m]).Pairwise Lenient)
    (h : Lenient m m₁) : (memos ++ [m] ++ [m₁]).Pairwise Lenient := by
  rw [List.pairwise_append]
  refine ⟨hmemos, List.pairwise_singleton _ _, fun x hx y hy => ?_⟩
  obtain rfl := List.mem_singleton.mp hy
  rcases List.mem_append.mp hx with hx | hx
  · exact ((List.pairwise_append.mp hmemos).2.2 x hx m (List.mem_singleton_self m)).trans h
  · exact List.mem_singleton.mp hx ▸ h

end Memo.Lenient

/-- Where a failure is recorded, a body is missing. -/
def Memo.Excused (m : Memo) : Prop :=
  ∀ key, m.get? key = some .failed → m.permissive

namespace Memo.Excused

variable {m : Memo}

theorem empty : Memo.empty.Excused := by
  intro key hget
  cases hget

theorem start (h : m.Excused) (key : NodeKey) : (m.start key).Excused := by
  intro k hget
  rw [get?_start] at hget
  split at hget
  · cases hget
  · exact h k hget

theorem addTodo (m : Memo) (key : NodeKey) : (m.addTodo key).Excused :=
  fun _ _ => permissive_addTodo m key

theorem addPassThrough (h : m.Excused) (key : NodeKey) : (m.addPassThrough key).Excused :=
  h

theorem set (h : m.Excused) (key : NodeKey) {outcome : Outcome}
    (ho : outcome = .failed → m.permissive) : (m.set key outcome).Excused := by
  intro k hget
  rw [get?_set] at hget
  split at hget
  · exact ho (Option.some.inj hget)
  · exact h k hget

end Memo.Excused

namespace Evaluation

variable {c : Evaluation}

/-- Entering a node makes no outcome an error. -/
theorem lenient_descend (id : CstId) (m : Memo) (stack : List Frame) :
    Memo.Lenient m (c.descend id m stack).memo := by
  cases henter : c.enter id m with
  | mk opening m₁ =>
    have hentered : c.Entered id m opening m₁ := by simpa only [henter] using c.entered id m
    cases hentered with
    | missing =>
      rw [descend_of_done henter]
      exact .refl m
    | known =>
      rw [descend_of_done henter]
      exact .refl m
    | terminal =>
      rw [descend_of_done henter]
      exact (Memo.Lenient.start m _).set _ fun _ => Outcome.not_isErrored_succeeded _
    | unwritten =>
      rw [descend_of_done henter]
      exact ((Memo.Lenient.start m _).addTodo _).set _ fun _ => Outcome.not_isErrored_failed
    | @opened node mode =>
      rw [descend_of_opened henter]
      have hstart := Memo.Lenient.start m (c.keyOf node)
      cases mode with
      | passThrough => exact ⟨hstart.permissive, hstart.errored⟩
      | body => exact hstart
      | collect => exact hstart

/-- **A round** makes no outcome an error. -/
theorem Moved.lenient {work next : Work} {ids : List CstId} (h : c.Moved work ids next) :
    Memo.Lenient work.memo next.memo := by
  cases h with
  | entered => exact lenient_descend _ _ _
  | @closed f stack child m =>
    exact (Memo.Lenient.refl m).set _ (c.conclude_gathered f child m).1

/-- **No outcome becomes an error** between any two memos that an evaluation passes, also when it
comes after others. -/
theorem lenient_memos (hv : c.trace.Valid) (id : CstId) {m : Memo} {before : List Memo}
    (h : (before ++ [m]).Pairwise Memo.Lenient) :
    ∃ passed, c.memos id m = passed ++ [(c.evaluate id m).2] ∧
      (before ++ [m] ++ (passed ++ [(c.evaluate id m).2])).Pairwise Memo.Lenient := by
  obtain ⟨works, last, hrounds, hlast, hpairwise⟩ :=
    exists_rounds (P := fun memos work => (memos ++ [work.memo]).Pairwise Memo.Lenient)
      (fun work => [work.memo])
      (fun _ _ _ hmemos hstep => Memo.Lenient.pairwise_concat hmemos (moved hstep).lenient)
      (ends_dispatch hv id m) (before ++ [m])
      (Memo.Lenient.pairwise_concat h (lenient_descend id m []))
  rw [evaluate_eq_dispatch hv, ← (step_eq_inr hlast).2]
  refine ⟨works.map Work.memo, by simp [memos, hrounds], ?_⟩
  rwa [List.append_assoc, ← List.map_eq_flatMap] at hpairwise

/-! ## Failures -/

/-- A failure is recorded for a repetition only where a child has no value. -/
theorem exists_of_collected {os : List Outcome} (h : Outcome.collected os = .failed) :
    ∃ o ∈ os, o.value? = none := by
  rw [Outcome.collected] at h
  cases hvalues : os.mapM Outcome.value? with
  | none => exact Option.exists_of_mapM_eq_none hvalues
  | some values =>
    rw [hvalues] at h
    cases h

/-- An evaluation of a node records failures only where a body is missing. -/
def Excuses (c : Evaluation) (id : CstId) : Prop :=
  ∀ m, m.Excused → (c.evaluate id m).2.Excused

/-- The outcome of a node is a failure only where a body is missing. -/
theorem Excuses.permissive (hv : c.trace.Valid) {id : CstId} {node : CstNode} (h : c.Excuses id)
    (hnode : c.trace.cstNode? id = some node) {m : Memo} (hm : m.Excused)
    (hfailed : (c.evaluate id m).1 = .failed) : (c.evaluate id m).2.permissive := by
  refine h m hm (c.keyOf node) ?_
  rw [get?_evaluate hv hnode, hfailed]

/-- How an evaluation that has begun ends where failures are excused. -/
theorem Finished.excused (hv : c.trace.Valid) {id : CstId} {node : CstNode} {m m₁ : Memo}
    {outcome : Outcome} (h : c.Finished node m outcome m₁)
    (hnode : c.trace.cstNode? id = some node) (hchildren : ∀ child ∈ node.children, c.Excuses child)
    (hm : m.Excused) : m₁.Excused ∧ (outcome = .failed → m₁.permissive) := by
  have hm₁ : m₁.Excused := h.invariant hchildren (fun _ _ _ => .addTodo m _)
    (fun _ => hm.addPassThrough _) hm
  refine ⟨hm₁, fun hfailed => ?_⟩
  -- a child that failed recorded a failure, and bodies that are missing stay missing
  have hchild {child : CstId} (hmem : child ∈ node.children) {n : Memo} (hn : n.Excused)
      (hfailed : (c.evaluate child n).1 = .failed) : (c.evaluate child n).2.permissive := by
    obtain ⟨below, hbelow⟩ := hv.exists_child hnode hmem
    exact (hchildren child hmem).permissive hv hbelow hn hfailed
  cases h with
  | terminal => cases hfailed
  | unwritten => exact Memo.permissive_addTodo m _
  | @passThrough rule child _ _ hone =>
    have hmem : child ∈ node.children := hone ▸ List.mem_singleton_self child
    exact (permissive_of_propagated hfailed).elim (hchild hmem (hm.addPassThrough _)) fun hp => hp
  | body _ hos =>
    rcases anyChildFailed_of_runBody hfailed with hany | hp
    · obtain ⟨child, -, below, -, hget⟩ := anyChildFailed_iff.mp hany
      exact hm₁ _ hget
    · exact hp
  | collect _ _ hos =>
    obtain ⟨o, ho, hnone⟩ := exists_of_collected hfailed
    obtain ⟨child, hmem, n, hn, rfl, hnot, later, rfl⟩ := exists_of_mem_outcomes hchildren hm hos ho
    -- without a value and no error, the outcome is a failure
    have hfailed :=
      (Outcome.failed_or_errored (settled_evaluate hv child n) hnone).resolve_right hnot
    exact (progress_outcomes hv later _).permissive (hchild hmem hn hfailed)
  | decided _ hos =>
    obtain ⟨child, hmem, n, hn, ⟨e, he⟩, rfl, hdecided⟩ :=
      exists_of_outcomes_eq_error hchildren hm hos
    -- an error reaches the node above as a failure only once a body is missing
    rw [← hdecided, he] at hfailed
    exact (permissive_of_propagated hfailed).resolve_left nofun

/-- **An evaluation** records failures only where a body is missing. -/
theorem excused_evaluate (hv : c.trace.Valid) (id : CstId) : c.Excuses id := by
  refine evaluate_induction hv (P := fun _ m _ m' => m.Excused → m'.Excused) ?_ ?_ ?_ id
  · exact fun _ _ _ hm => hm
  · exact fun _ _ _ _ _ _ hm => hm
  · intro _ node m outcome m₁ hnode _ h ih hm
    obtain ⟨hm₁, hfailed⟩ := h.excused hv hnode ih (hm.start _)
    exact hm₁.set _ hfailed

end Evaluation

end ParseActions
