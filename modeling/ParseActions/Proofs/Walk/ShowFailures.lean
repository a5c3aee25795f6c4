import ParseActions.Proofs.Walk.Requests

/-!
# Showing failures

A walk that shows failures draws, besides the steps that it draws anyway, the steps that failed and
those below them. What is drawn anyway is drawn in the same order and at the same depth. The two
walks are followed side by side: one that shows no failures waits while the other one is below a
step that failed.

The results on panels can differ, since the panels that are drawn in addition may ask for
evaluations, and what these record is found later on.

## Main definitions

* `Walk.showing`: the walk that shows failures or does not
* `DrawRequest.withoutFailures`: the requests for steps with no failure on the way to them
* `DrawRequest.unevaluated`, `DrawRequest.outcome?`, `DrawRequest.value?`: a request without what
  evaluations have found, and the outcome and the value on its panel

## Main results

* `Walk.final_follows`: a relation between the two walks that all draws keep
* `Walk.same_of_draws`: what is the same for all steps that both walks draw
* `Walk.same_unevaluated`: the same steps are drawn, but for those that a failure is on the way to
-/

namespace ParseActions

/-- A panel without what evaluations have found. -/
def ActionPanel.unevaluated (panel : ActionPanel) : ActionPanel :=
  { panel with outcome := .pending, passThrough := false, todo := false, marked := false,
               editorOpen := false }

namespace DrawRequest

/-- A request without what evaluations have found. -/
def unevaluated (r : DrawRequest) : DrawRequest :=
  { r with panel := r.panel.map ActionPanel.unevaluated }

/-- The outcome on the panel, if there is a panel. -/
def outcome? (r : DrawRequest) : Option Outcome :=
  r.panel.map ActionPanel.outcome

/-- The value on the panel, if there is a panel. -/
def value? (r : DrawRequest) : Option (Option Value) :=
  r.outcome?.map Outcome.value?

/-- Whether no step on a way has failed. -/
def allSucceeded (way : List DrawRequest) : Bool :=
  way.all DrawRequest.succeeded

/-- The requests for steps with no failure on the way to them. -/
def withoutFailures (requests : List DrawRequest) : List DrawRequest :=
  ((ways requests).filter allSucceeded).filterMap List.getLast?

theorem withoutFailures_concat (requests : List DrawRequest) (r : DrawRequest) :
    withoutFailures (requests ++ [r]) = withoutFailures requests ++
      if allSucceeded (r.wayFrom (lastWay requests)) then [r] else [] := by
  rw [withoutFailures, ways_concat, List.filter_append, List.filterMap_append, withoutFailures,
    List.filter_singleton]
  cases allSucceeded (r.wayFrom (lastWay requests)) with
  | false => rfl
  | true => exact congrArg _ (List.filterMap_cons_some (getLast?_wayFrom r _))

/-- The requests keep their order. -/
theorem withoutFailures_sublist (requests : List DrawRequest) :
    (withoutFailures requests).Sublist requests := by
  induction requests using List.reverseRecOn with
  | nil => exact .slnil
  | append_singleton requests r ih =>
    rw [withoutFailures_concat]
    refine ih.append ?_
    split
    · exact .refl [r]
    · exact List.nil_sublist [r]

theorem allSucceeded_concat (way : List DrawRequest) (r : DrawRequest) :
    allSucceeded (way ++ [r]) = (allSucceeded way && r.succeeded) := by
  simp [allSucceeded]

/-- A failure that is on a part of a way is on the way. -/
theorem allSucceeded_of_prefix {part way : List DrawRequest} (h : part <+: way)
    (hway : allSucceeded way = true) : allSucceeded part = true := by
  rw [allSucceeded, List.all_eq_true] at hway ⊢
  exact fun r hr => hway r (h.subset hr)

end DrawRequest

namespace Walk

open DrawRequest

/-- The walk that shows failures, or that does not. -/
def showing (w : Walk) (failures : Bool) : Walk :=
  { w with config := { w.config with showFailures := failures } }

variable {w : Walk}

/-- What is hidden where failures are shown is hidden where they are not. -/
theorem isHidden_showing {node : TraceNode} (h : (w.showing true).isHidden node = true) :
    (w.showing false).isHidden node = true := by
  simp only [isHidden, showing, Bool.not_true, Bool.false_and, Bool.false_or] at h
  simp [isHidden, h]

/-- What is hidden only where failures are not shown has failed. -/
theorem not_succeeded_of_isHidden {node : TraceNode}
    (hshown : (w.showing true).isHidden node = false)
    (hhidden : (w.showing false).isHidden node = true) : node.succeeded = false := by
  simp only [isHidden, showing, Bool.not_true, Bool.false_and, Bool.false_or] at hshown
  simpa [isHidden, showing, hshown] using hhidden

/-- Where failures are not shown, a step that is drawn has succeeded. -/
theorem succeeded_of_not_isHidden {node : TraceNode}
    (h : (w.showing false).isHidden node = false) : node.succeeded = true := by
  simp only [isHidden, showing, Bool.not_false, Bool.true_and, Bool.or_eq_false_iff,
    Bool.not_eq_false'] at h
  exact h.1

/-- A step is passed over by both walks, or it failed and is passed over by the one that does not
show failures, or it succeeded and is drawn by both. -/
theorem enter_showing (w : Walk) (visit : Visit) :
    (∀ failures s, (w.showing failures).visitor.enter visit s = (.skip, s)) ∨
    (∃ node, w.trace.node? visit.node = some node ∧ node.succeeded = false ∧
      ∀ s, (w.showing false).visitor.enter visit s = (.skip, s)) ∨
    ∃ node, w.trace.node? visit.node = some node ∧ node.succeeded = true ∧
      ∀ failures s, (w.showing failures).visitor.enter visit s =
        (if isLeaf node then .skip else .descend, w.draw visit node s) := by
  cases hnode : w.trace.node? visit.node with
  | none => exact .inl fun failures => enter_of_missing (w := w.showing failures) hnode
  | some node =>
    cases hshown : (w.showing true).isHidden node with
    | true =>
      refine .inl fun failures => enter_of_hidden (w := w.showing failures) hnode ?_
      cases failures with
      | true => exact hshown
      | false => exact isHidden_showing hshown
    | false =>
      cases hhidden : (w.showing false).isHidden node with
      | true =>
        refine .inr (.inl ⟨node, rfl, ?_, enter_of_hidden (w := w.showing false) hnode hhidden⟩)
        exact not_succeeded_of_isHidden hshown hhidden
      | false =>
        refine .inr (.inr ⟨node, rfl, succeeded_of_not_isHidden hhidden, fun failures => ?_⟩)
        refine enter_of_shown (w := w.showing failures) hnode ?_
        cases failures with
        | true => exact hshown
        | false => exact hhidden

/-! ## Two walks side by side -/

section Follows

variable {R : State → State → Prop}
  (hshown : ∀ visit node s s', allSucceeded (w.draw visit node s).way = true → R s s' →
    R (w.draw visit node s) (w.draw visit node s'))
  (hhidden : ∀ visit node s s', allSucceeded (w.draw visit node s).way = false → R s s' →
    R (w.draw visit node s) s')
  (hleave : ∀ visit s s', R s s' →
    R (w.visitor.leave visit s) s' ∧ R s (w.visitor.leave visit s'))

include hhidden hleave in
/-- The visit of a step that failed, and of what is below it, keeps the relation on one side. -/
theorem visitNode_of_failed {start : TraceId} {above : List DrawRequest} (room : Nat)
    {visit : Visit} {node : TraceNode} {s s' : State}
    (hnode : w.trace.node? visit.node = some node) (hfailed : node.succeeded = false)
    (habove : LeadsTo w.trace start above visit) (hway : s.way.take visit.depth = above)
    (h : R s s') :
    R (w.trace.visitNode (w.showing true).visitor room visit s) s' ∧
      (w.trace.visitNode (w.showing true).visitor room visit s).way.take visit.depth = above := by
  refine visitNode_invariant (w := w.showing true) (P := fun s => R s s') room habove hway ?_
    (fun visit s hs => (hleave visit s s' hs).1) h
  rintro below belowNode s - - ⟨top, panel, htop, hprefix⟩ hs
  -- the failed step is on the way to all that is drawn
  obtain rfl : node = top := Option.some.inj (hnode.symm.trans htop)
  refine hhidden below belowNode s s' ?_ hs
  rw [Bool.eq_false_iff]
  intro hsucceeded
  have hpart := allSucceeded_of_prefix hprefix hsucceeded
  rw [allSucceeded_concat, Bool.and_eq_true] at hpart
  exact Bool.false_ne_true (hfailed.symm.trans hpart.2)

include hshown hhidden hleave

/-- The visits of a step keep the relation, if no step above it has failed. -/
theorem visitNode_follows {start : TraceId} {above : List DrawRequest} (room : Nat)
    {visit : Visit} {s s' : State} (habove : LeadsTo w.trace start above visit)
    (hsucceeded : allSucceeded above = true) (hway : s.way.take visit.depth = above) (h : R s s') :
    R (w.trace.visitNode (w.showing true).visitor room visit s)
        (w.trace.visitNode (w.showing false).visitor room visit s') ∧
      (w.trace.visitNode (w.showing true).visitor room visit s).way.take visit.depth = above := by
  induction room using Nat.strong_induction_on generalizing visit s s' above with
  | _ room ih =>
    rcases w.enter_showing visit with hskip | ⟨node, hnode, hfailed, hskip⟩ |
      ⟨node, hnode, hok, hdraw⟩
    -- both walks pass over the step
    · rw [Trace.visitNode_of_skip (hskip true s), Trace.visitNode_of_skip (hskip false s')]
      exact ⟨h, hway⟩
    -- the step failed, and the walk that shows no failures waits
    · rw [Trace.visitNode_of_skip (hskip s')]
      exact visitNode_of_failed hhidden hleave room hnode hfailed habove hway h
    -- both walks draw the step, and no failure is on the way to it
    · generalize hpanel : (w.panel visit.node node s).1 = panel
      have hend : (w.draw visit node s).way = above ++ [w.request visit node panel] := by
        rw [way_draw, hway, hpanel]
      have hall : allSucceeded (above ++ [w.request visit node panel]) = true := by
        rw [allSucceeded_concat, hsucceeded]
        exact hok
      have hnext := hshown visit node s s' (hend ▸ hall) h
      have hdown : (w.draw visit node s).way.take (visit.depth + 1) =
          above ++ [w.request visit node panel] := by
        rw [hend, habove.take_succ]
      by_cases hstop : room = 0 ∨ isLeaf node = true
      · have hdrawn (failures : Bool) (s : State) :
            w.trace.visitNode (w.showing failures).visitor room visit s = w.draw visit node s :=
          visitNode_of_leaf (w := w.showing failures) (hdraw failures s) hstop
        rw [hdrawn, hdrawn]
        exact ⟨hnext, habove.take_of_take_succ hdown⟩
      · obtain ⟨hroom, hinner⟩ := not_or.mp hstop
        obtain ⟨room, rfl⟩ := Nat.exists_eq_succ_of_ne_zero hroom
        have hopened (failures : Bool) (s : State) :
            w.trace.visitNode (w.showing failures).visitor (room + 1) visit s =
              w.visitor.leave visit (w.trace.visitBelow (w.showing failures).visitor room visit
                (w.trace.children visit.node) (w.draw visit node s)) :=
          visitNode_of_not_leaf (w := w.showing failures) (hdraw failures s) hinner
        rw [hopened, hopened]
        -- both walks go down to the same children
        have hbelow : R _ _ ∧ _ := List.foldl_rel (r := fun s s' => R s s' ∧
            s.way.take (visit.depth + 1) = above ++ [w.request visit node panel])
          (l := w.trace.children visit.node)
          (f := fun s child => w.trace.visitNode (w.showing true).visitor room
            ⟨child, some visit.node, visit.depth + 1⟩ s)
          (g := fun s child => w.trace.visitNode (w.showing false).visitor room
            ⟨child, some visit.node, visit.depth + 1⟩ s) ⟨hnext, hdown⟩
          fun child hchild s s' hs =>
            ih room (Nat.lt_succ_self room) (habove.down rfl rfl hchild) hall hs.2 hs.1
        exact ⟨(hleave visit _ _ (hleave visit _ _ hbelow.1).1).2,
          habove.take_of_take_succ ((congrArg _ (way_leave visit _)).trans hbelow.2)⟩

/-- **A relation that all draws keep** holds between the states in which the two walks end. A draw
that no failure is on the way to is one of both walks, any other one is of the walk that shows
failures. -/
theorem final_follows (focus : TraceId) (lastEdited : Option NodeKey)
    (hstart : R ⟨(w.evaluateFocus focus).2, lastEdited, #[], []⟩
      ⟨(w.evaluateFocus focus).2, lastEdited, #[], []⟩) :
    R ((w.showing true).final focus lastEdited) ((w.showing false).final focus lastEdited) := by
  -- nothing is above the step that the walks begin at, so no failure is
  have hvisit := fun room => (visitNode_follows hshown hhidden hleave room
    (leadsTo_start w.trace focus) rfl List.take_zero hstart).1
  simp only [final, Trace.walk_eq_visit, Trace.visit]
  by_cases hfocus : (w.trace.node? focus).isSome
  · simp only [showing, hfocus, if_true]
    exact hvisit _
  · simp only [showing, hfocus]
    exact hstart

end Follows

/-! ## What is the same for the steps that both walks draw -/

section Same

variable {β : Type} {f : DrawRequest → β}

/-- What the requests of a walk without failures show is what those of the other walk show, leaving
out the steps that a failure is on the way to. -/
def Same (f : DrawRequest → β) (s s' : State) : Prop :=
  s'.requests.map f = (withoutFailures s.requests).map f

theorem same_start (m : Memo) (lastEdited : Option NodeKey) :
    Same f ⟨m, lastEdited, #[], []⟩ ⟨m, lastEdited, #[], []⟩ :=
  rfl

theorem Same.leave {s s' : State} (h : Same f s s') (visit : Visit) :
    Same f (w.visitor.leave visit s) s' ∧ Same f s (w.visitor.leave visit s') := by
  rw [Same, Same, requests_leave, requests_leave]
  exact ⟨h, h⟩

/-- Both walks draw a step. -/
theorem Same.shown {s s' : State} (h : Same f s s') {visit : Visit} {node : TraceNode}
    (hall : allSucceeded (w.draw visit node s).way = true)
    (hf : f (w.request visit node (w.panel visit.node node s).1) =
      f (w.request visit node (w.panel visit.node node s').1)) :
    Same f (w.draw visit node s) (w.draw visit node s') := by
  rw [State.way, requests_draw, lastWay_concat] at hall
  rw [Same, requests_draw, requests_draw, withoutFailures_concat, hall, if_pos rfl, List.map_append,
    List.map_append, h, List.map_singleton, List.map_singleton, hf]

/-- Only the walk that shows failures draws a step. -/
theorem Same.hidden {s s' : State} (h : Same f s s') {visit : Visit} {node : TraceNode}
    (hall : allSucceeded (w.draw visit node s).way = false) :
    Same f (w.draw visit node s) s' := by
  rw [State.way, requests_draw, lastWay_concat] at hall
  rw [Same, requests_draw, withoutFailures_concat, hall, if_neg Bool.false_ne_true, List.append_nil]
  exact h

/-- **What is the same for the steps that both walks draw**, as long as the memos of the two walks
are in some relation. The relation needs to be kept only where the requests and the memo of the walk
that shows failures satisfy a condition in the end. -/
theorem same_of_draws {G : List DrawRequest → Memo → Prop} {M : Memo → Memo → Prop}
    (hback : ∀ visit node s, G (w.draw visit node s).requests (w.draw visit node s).memo →
      G s.requests s.memo)
    (hshown : ∀ visit node s s', G (w.draw visit node s).requests (w.draw visit node s).memo →
      M s.memo s'.memo → M (w.draw visit node s).memo (w.draw visit node s').memo ∧
        f (w.request visit node (w.panel visit.node node s).1) =
          f (w.request visit node (w.panel visit.node node s').1))
    (hhidden : ∀ visit node s m', allSucceeded (w.draw visit node s).way = false →
      G (w.draw visit node s).requests (w.draw visit node s).memo →
      M s.memo m' → M (w.draw visit node s).memo m')
    {focus : TraceId} {lastEdited : Option NodeKey}
    (hstart : M (w.evaluateFocus focus).2 (w.evaluateFocus focus).2)
    (h : G ((w.showing true).final focus lastEdited).requests
      ((w.showing true).final focus lastEdited).memo) :
    Same f ((w.showing true).final focus lastEdited)
      ((w.showing false).final focus lastEdited) := by
  refine (final_follows (w := w) (R := fun s s' => G s.requests s.memo →
    M s.memo s'.memo ∧ Same f s s') ?_ ?_ ?_ focus lastEdited
    (fun _ => ⟨hstart, same_start _ _⟩) h).2
  -- the condition holds after the draw, so it holds before, and the memos are related there
  · intro visit node s s' hall hs hG
    obtain ⟨hmemo, hsame⟩ := hs (hback visit node s hG)
    obtain ⟨hmemo', hf⟩ := hshown visit node s s' hG hmemo
    exact ⟨hmemo', hsame.shown hall hf⟩
  · intro visit node s s' hall hs hG
    obtain ⟨hmemo, hsame⟩ := hs (hback visit node s hG)
    exact ⟨hhidden visit node s _ hall hG hmemo, hsame.hidden hall⟩
  -- leaving a step changes no request and no memo
  · intro visit s s' hs
    refine ⟨fun hG => ?_, fun hG => ?_⟩
    · rw [requests_leave] at hG
      obtain ⟨hmemo, hsame⟩ := hs hG
      exact ⟨hmemo, (hsame.leave visit).1⟩
    · obtain ⟨hmemo, hsame⟩ := hs hG
      exact ⟨hmemo, (hsame.leave visit).2⟩

end Same

/-- A step has a panel in every state or in none. -/
theorem panel_eq (w : Walk) (id : TraceId) (node : TraceNode) :
    (∀ s, w.panel id node s = (none, s)) ∨
      ∃ action rule cst cstNode, w.action = some action ∧ w.trace.cstNode? cst = some cstNode ∧
        ∀ s, w.panel id node s = (some (w.rulePanel action id rule cst cstNode s).1,
          (w.rulePanel action id rule cst cstNode s).2) := by
  simp only [panel]
  split
  · next action rule cst haction _ _ =>
    split
    · exact .inl fun _ => rfl
    · split
      · exact .inl fun _ => rfl
      · next cstNode hnode => exact .inr ⟨action, rule, cst, cstNode, haction, hnode, fun _ => rfl⟩
  · exact .inl fun _ => rfl

/-- What evaluations have not found does not depend on what they have found. -/
theorem unevaluated_request (visit : Visit) (node : TraceNode) (s s' : State) :
    (w.request visit node (w.panel visit.node node s).1).unevaluated =
      (w.request visit node (w.panel visit.node node s').1).unevaluated := by
  rcases w.panel_eq visit.node node with hnone | ⟨action, rule, cst, cstNode, -, -, hsome⟩
  · rw [hnone, hnone]
  · rw [hsome, hsome]
    rfl

/-- **The same steps are drawn** in the same order and at the same depth, and all is the same of
them that evaluations have not found. -/
theorem same_unevaluated (focus : TraceId) (lastEdited : Option NodeKey) :
    Same unevaluated ((w.showing true).final focus lastEdited)
      ((w.showing false).final focus lastEdited) :=
  same_of_draws (G := fun _ _ => True) (M := fun _ _ => True) (fun _ _ _ h => h)
    (fun visit node s s' _ _ => ⟨trivial, unevaluated_request visit node s s'⟩)
    (fun _ _ _ _ _ _ h => h) trivial trivial

end Walk

end ParseActions
