import ParseActions.Proofs.Memo.Progress

/-!
# The rounds of an evaluation

What an evaluation does on the way, beside what it leaves: the states that its loop goes through,
the memos among them, and the nodes whose evaluation begins. A round enters the next child of the
topmost node or closes this node, and what each of the two keeps is kept up to the end.

## Main definitions

* `Evaluation.rounds`: the states that the loop goes through
* `Evaluation.memos`, `Evaluation.allBegun`: the memos that an evaluation passes, and the nodes
  whose evaluation begins, in turn
* `Evaluation.Moved`: what a round can do

## Main results

* `Evaluation.exists_rounds`: what every round keeps holds at the end
* `Evaluation.conclude_gathered`: the outcome of a node that is closed is settled, and no error once
  a body is missing
-/

namespace ParseActions.Evaluation

/-- One round of the loop, which records the state that it begins with. -/
def stepRecorded (c : Evaluation) : List Work × Work → (List Work × Work) ⊕ List Work
  | (works, work) =>
    match c.step work with
    | .inl next => .inl (works ++ [work], next)
    | .inr _ => .inr (works ++ [work])

/-- The states that the loop goes through, the last one included. -/
def rounds (c : Evaluation) (work : Work) : List Work :=
  repeatM (m := Id) c.stepRecorded ([], work)

variable {c : Evaluation}

/-! ## What a round does -/

/-- The nodes whose evaluation begins when a node is entered: this one, unless it does not exist or
its outcome is known. -/
def begun (c : Evaluation) (id : CstId) (m : Memo) : List CstId :=
  match c.trace.cstNode? id with
  | none => []
  | some node => if (c.known? (c.keyOf node) m).isNone then [id] else []

/-- The nodes whose evaluation begins in a round. -/
def begunIn (c : Evaluation) : Work → List CstId
  | ⟨[], _, _⟩ => []
  | ⟨f :: _, child, m⟩ =>
    match f.gathered child m, f.rest with
    | .ok _, id :: _ => c.begun id m
    | _, _ => []

/-- What a round can do, and the nodes whose evaluation begins: it enters the next child of the
topmost node, or closes this node. -/
inductive Moved (c : Evaluation) : Work → List CstId → Work → Prop where
  | entered {f : Frame} {stack : List Frame} {child : Option Outcome} {m : Memo}
    {results : Gathered} {id : CstId} {rest : List CstId} (hrest : f.rest = id :: rest) :
    Moved c ⟨f :: stack, child, m⟩ (c.begun id m)
      (c.descend id m ({ f with results, rest } :: stack))
  | closed {f : Frame} {stack : List Frame} {child : Option Outcome} {m : Memo} :
    Moved c ⟨f :: stack, child, m⟩ []
      (.after stack (c.close f.node f.mode (f.gathered child m) m))

/-- **A round** is one of the two. -/
theorem moved {work next : Work} (h : c.step work = .inl next) :
    c.Moved work (c.begunIn work) next := by
  obtain ⟨- | ⟨f, stack⟩, child, m⟩ := work
  · cases h
  · cases hgathered : f.gathered child m with
    | error outcome =>
      simp only [step, hgathered] at h
      obtain rfl := Sum.inl.inj h
      simp only [begunIn, hgathered]
      rw [← hgathered]
      exact .closed
    | ok results =>
      cases hrest : f.rest with
      | nil =>
        simp only [step, hgathered, hrest] at h
        obtain rfl := Sum.inl.inj h
        simp only [begunIn, hgathered, hrest]
        rw [← hgathered]
        exact .closed
      | cons id rest =>
        simp only [step, hgathered, hrest] at h
        obtain rfl := Sum.inl.inj h
        simp only [begunIn, hgathered, hrest]
        exact .entered hrest

/-- The last round leaves what the loop gives. -/
theorem step_eq_inr {work : Work} {r : Outcome × Memo} (h : c.step work = .inr r) :
    work.stack = [] ∧ work.memo = r.2 := by
  obtain ⟨- | ⟨f, stack⟩, child, m⟩ := work
  · obtain rfl := Sum.inr.inj h
    exact ⟨rfl, rfl⟩
  · simp only [step] at h
    split at h <;> cases h

section Begun

variable {id : CstId} {m : Memo}

theorem begun_of_missing (h : c.trace.cstNode? id = none) : c.begun id m = [] := by
  rw [begun, h]

variable {node : CstNode} (hnode : c.trace.cstNode? id = some node)
include hnode

theorem begun_of_known {outcome : Outcome} (h : c.known? (c.keyOf node) m = some outcome) :
    c.begun id m = [] := by
  simp [begun, hnode, h]

theorem begun_of_new (h : c.known? (c.keyOf node) m = none) : c.begun id m = [id] := by
  simp [begun, hnode, h]

end Begun

/-- **The number of evaluations** grows by one for each node whose evaluation begins. -/
theorem evaluations_descend (id : CstId) (m : Memo) (stack : List Frame) :
    (c.descend id m stack).memo.evaluations = m.evaluations + (c.begun id m).length := by
  cases henter : c.enter id m with
  | mk opening m₁ =>
    have hentered : c.Entered id m opening m₁ := by simpa only [henter] using c.entered id m
    cases hentered with
    | missing hnode =>
      rw [descend_of_done henter, begun_of_missing hnode]
      rfl
    | known hnode h =>
      rw [descend_of_done henter, begun_of_known hnode h]
      rfl
    | terminal hnode hnew =>
      rw [descend_of_done henter, begun_of_new hnode hnew]
      rfl
    | unwritten hnode hnew =>
      rw [descend_of_done henter, begun_of_new hnode hnew]
      rfl
    | opened hnode hnew h =>
      rw [descend_of_opened henter, begun_of_new hnode hnew]
      cases h <;> rfl

theorem evaluations_of_moved {work next : Work} {ids : List CstId} (h : c.Moved work ids next) :
    next.memo.evaluations = work.memo.evaluations + ids.length := by
  cases h with
  | entered => exact evaluations_descend _ _ _
  | closed => rfl

/-- The outcome of a node that is closed is no error once a body is missing, and it is settled if
that of the child was. -/
theorem conclude_gathered (f : Frame) (child : Option Outcome) (m : Memo) :
    (m.permissive → ¬ (c.conclude f.node f.mode (f.gathered child m) m).IsErrored) ∧
      ((∀ o ∈ child, o.Settled) →
        (c.conclude f.node f.mode (f.gathered child m) m).Settled) := by
  -- what the results of all children make
  have hall (results : Gathered) :
      (c.conclude f.node f.mode (.ok results) m).Settled ∧
        (m.permissive → ¬ (c.conclude f.node f.mode (.ok results) m).IsErrored) := by
    cases f.mode with
    | body a => exact settled_runBody a f.node _ m
    | passThrough => exact ⟨Outcome.settled_failed, fun _ => Outcome.not_isErrored_failed⟩
    | collect =>
      rw [conclude]
      split
      · exact ⟨Outcome.settled_failed, fun _ => Outcome.not_isErrored_failed⟩
      · exact ⟨Outcome.settled_succeeded _, fun _ => Outcome.not_isErrored_succeeded _⟩
  -- an outcome that a child decides reaches the node as the outcome of the child does
  have hone (o : Outcome) : (m.permissive → ¬ (o.propagated m.permissive).IsErrored) ∧
      (o.Settled → (o.propagated m.permissive).Settled) := by
    refine ⟨fun hp => ?_, fun ho => Outcome.settled_propagated ho _⟩
    rw [hp]
    exact Outcome.not_isErrored_propagated o
  cases child with
  | none => exact ⟨(hall _).2, fun _ => (hall _).1⟩
  | some o =>
    rw [Frame.gathered]
    by_cases hm : f.mode = .passThrough
    · rw [hm, accept_passThrough]
      exact ⟨(hone o).1, fun ho => (hone o).2 (ho o rfl)⟩
    by_cases h : o.IsErrored
    · rw [accept_of_errored h]
      exact ⟨(hone o).1, fun ho => (hone o).2 (ho o rfl)⟩
    · rw [accept_of_not_errored hm h]
      exact ⟨(hall _).2, fun _ => (hall _).1⟩

/-! ## Up to the end -/

/-- **What every round keeps** of what the rounds before it have shown holds at the end. -/
theorem exists_rounds {α : Type} (observe : Work → List α) {P : List α → Work → Prop}
    (hstep : ∀ shown work next, P shown work → c.step work = .inl next →
      P (shown ++ observe work) next)
    {work : Work} {r : Outcome × Memo} (hends : c.Ends work r) (shown : List α)
    (h : P shown work) :
    ∃ works last, c.rounds work = works ++ [last] ∧ c.step last = .inr r ∧
      P (shown ++ works.flatMap observe) last := by
  -- the loop may have recorded some states before
  suffices hall : ∀ before, ∃ works last,
      repeatM (m := Id) c.stepRecorded (before, work) = before ++ (works ++ [last]) ∧
        c.step last = .inr r ∧ P (shown ++ works.flatMap observe) last from hall []
  induction hends generalizing shown with
  | @last work r hlast =>
    refine fun before => ⟨[], work, ?_, hlast, by simpa using h⟩
    rw [repeatM_eq_of_monadTail, repeatM.body, stepRecorded, hlast]
    rfl
  | @next work next r hnext _ ih =>
    intro before
    obtain ⟨works, last, hrounds, hlast, hP⟩ :=
      ih _ (hstep shown work next h hnext) (before ++ [work])
    refine ⟨work :: works, last, ?_, hlast, by simpa using hP⟩
    rw [repeatM_eq_of_monadTail, repeatM.body, stepRecorded, hnext]
    exact hrounds.trans (List.append_assoc before [work] _)

/-- The memos that an evaluation passes after it has entered the node. -/
def memos (c : Evaluation) (id : CstId) (m : Memo) : List Memo :=
  (c.rounds (c.descend id m [])).map Work.memo

/-- The nodes whose evaluation begins in the course of an evaluation, in turn. -/
def allBegun (c : Evaluation) (id : CstId) (m : Memo) : List CstId :=
  c.begun id m ++ (c.rounds (c.descend id m [])).flatMap c.begunIn

end ParseActions.Evaluation
