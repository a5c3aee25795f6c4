import ParseActions.Proofs.Trace.Factors
import ParseActions.Proofs.Trace.Spans
import ParseActions.Proofs.Walk.Requests

/-!
# The input that a walk shows

A request shows the input that its step consumed if nothing is drawn below the step, and none
otherwise; where white space was skipped, a mark stands for it. A walk that shows no failures goes
down to the steps that make up the interval of its start, so the input on its requests is the text of
this interval, with each character shown once.

## Main definitions

* `DrawRequest.shown`: the input on a request, with the text in place of the mark
* `Walk.State.shown`: the input on the requests that were made

## Main results

* `Walk.shown_visitNode`: what is shown below a step is the text that the step consumed
* `Walk.shown_of_run`: what a walk shows is the text of the interval of its root
-/

namespace ParseActions

/-- The input on a request, with the text that the step matched in place of the mark for white
space. -/
def DrawRequest.shown (t : Trace) (r : DrawRequest) : String :=
  match r.input with
  | none => ""
  | some input =>
    if r.whitespace then (t.node? r.node).elim "" fun node => t.text node.interval else input

namespace Walk

open TraceBuilder

variable {w : Walk} {visit : Visit} {node : TraceNode} {s : State}

/-- The input on the requests that were made. -/
def State.shown (t : Trace) (s : State) : String :=
  String.join (s.requests.map (DrawRequest.shown t))

/-- A step that nothing is drawn below shows what it consumed, and other steps show nothing. -/
theorem shown_request (hnode : w.trace.node? visit.node = some node)
    (hkept : node.replacedBy = none) (hsucceeded : node.succeeded = true)
    (panel : Option ActionPanel) :
    (w.request visit node panel).shown w.trace =
      if isLeaf node then w.trace.text node.interval else "" := by
  have hinput : w.consumed node = if !isLeaf node then some ""
      else if node.isWhitespace then some Label.whitespaceInput
      else some (w.trace.text node.interval) := by
    simp [consumed, hsucceeded, hkept]
  rw [DrawRequest.shown, request]
  dsimp only
  rw [hinput, hnode]
  cases hleaf : isLeaf node with
  | true => cases node.isWhitespace <;> rfl
  | false =>
    have hsolid : node.isWhitespace = false := by
      simp only [isLeaf, Bool.or_eq_false_iff] at hleaf
      exact hleaf.1.2
    rw [hsolid]
    rfl

theorem shown_draw (visit : Visit) (node : TraceNode) (s : State) :
    (w.draw visit node s).shown w.trace =
      s.shown w.trace ++ (w.request visit node (w.panel visit.node node s).1).shown w.trace := by
  rw [State.shown, requests_draw, List.map_append, String.join_append]
  simp [State.shown]

@[simp] theorem shown_leave (visit : Visit) (s : State) :
    (w.visitor.leave visit s).shown w.trace = s.shown w.trace := by
  rw [State.shown, requests_leave, State.shown]

/-- A step that is passed over consumed nothing. -/
theorem text_of_hidden (hfailures : w.config.showFailures = false)
    (hconsumed : w.trace.Consumed visit.node.index node) (hhidden : w.isHidden node = true) :
    w.trace.text node.interval = "" := by
  apply Trace.text_of_empty
  cases hsucceeded : node.succeeded with
  | false => exact hconsumed.failed hsucceeded
  | true =>
    have horder := hconsumed.order
    simp only [isHidden, hfailures, hsucceeded, Bool.not_true, Bool.and_false, Bool.false_or,
      Bool.and_eq_true, Interval.isEmpty, Interval.length, beq_iff_eq] at hhidden
    omega

/-- The texts of the steps that are visited below a step follow one another. -/
theorem shown_visitBelow (visit : Visit) {room : Nat} (s : State) {ids : List TraceId}
    (hvisit : ∀ id ∈ ids, ∃ node, w.trace.node? id = some node ∧ ∀ visit s, visit.node = id →
      (w.trace.visitNode w.visitor room visit s).shown w.trace =
        s.shown w.trace ++ if node.succeeded then w.trace.text node.interval else "") :
    (w.trace.visitBelow w.visitor room visit ids s).shown w.trace =
      s.shown w.trace ++ String.join ((Trace.parts w.trace.nodes ids).map w.trace.text) := by
  induction ids generalizing s with
  | nil => simp [Trace.visitBelow, Trace.parts]
  | cons id ids ih =>
    obtain ⟨⟨node, hnode, hid⟩, hids⟩ := List.forall_mem_cons.mp hvisit
    rw [Trace.visitBelow, List.foldl_cons, ← Trace.visitBelow, ih _ hids, hid _ _ rfl,
      Trace.parts_cons hnode, List.map_append, String.join_append, String.append_assoc]
    cases node.succeeded <;> simp

/-- **What is shown below a step** is the text that the step consumed. -/
theorem shown_visitNode (hfailures : w.config.showFailures = false)
    (hcontiguous : w.trace.Contiguous)
    (hconsumed : ∀ n node, w.trace.nodes[n]? = some node → w.trace.Consumed n node) {room : Nat}
    (hroom : visit.node.index < room) (hnode : w.trace.node? visit.node = some node) (s : State) :
    (w.trace.visitNode w.visitor room visit s).shown w.trace =
      s.shown w.trace ++ if node.succeeded then w.trace.text node.interval else "" := by
  induction room generalizing visit node s with
  | zero => exact absurd hroom (Nat.not_lt_zero _)
  | succ room ih =>
    have hthis := hconsumed _ node hnode
    cases hhidden : w.isHidden node with
    | true =>
      rw [Trace.visitNode_of_skip (enter_of_hidden hnode hhidden s),
        text_of_hidden hfailures hthis hhidden, ite_self, String.append_empty]
    | false =>
      have hsucceeded : node.succeeded = true := by
        simp only [isHidden, hfailures, Bool.not_false, Bool.true_and, Bool.or_eq_false_iff,
          Bool.not_eq_false'] at hhidden
        exact hhidden.1
      have henter := enter_of_shown hnode hhidden s
      have hdrawn : (w.draw visit node s).shown w.trace =
          s.shown w.trace ++ if isLeaf node then w.trace.text node.interval else "" := by
        rw [shown_draw, shown_request hnode hthis.kept hsucceeded]
      by_cases hleaf : isLeaf node = true
      · rw [visitNode_of_leaf henter (.inr hleaf), hdrawn, if_pos hleaf, if_pos hsucceeded]
      · have hchildren : node.children ≠ [] := by
          rintro hnone
          simp [isLeaf, hnone] at hleaf
        have hids : w.trace.children visit.node = node.children := by
          rw [Trace.children, hnode]
          rfl
        -- the steps below consumed the interval of the step, one after the other
        have hbelow := shown_visitBelow visit (w.draw visit node s) fun id hid => by
          obtain ⟨hlt, hfound⟩ := hthis.below id hid
          obtain ⟨below, hbelow⟩ := Option.isSome_iff_exists.mp hfound
          refine ⟨below, hbelow, ?_⟩
          rintro next s rfl
          exact ih (by omega) hbelow s
        have htext := (Trace.text_of_consecutive (hthis.consecutive hsucceeded hchildren)
          fun i hi => by
            obtain ⟨below, hbelow, rfl⟩ := List.mem_map.mp hi
            obtain ⟨id, -, hid⟩ := List.mem_filterMap.mp (List.mem_filter.mp hbelow).1
            exact hcontiguous.whole hconsumed hid).1
        rw [visitNode_of_not_leaf henter hleaf, shown_leave, hids, hbelow, hdrawn, if_neg hleaf,
          String.append_empty, htext, if_pos hsucceeded]

/-- **A walk shows what its root consumed**, each character once: the input on its requests, in order
and with the text in place of the marks for white space, is the text of the interval of the root. This
holds for each trace that is finished after a program that replaces nothing, where the parts follow
one another, and for each action, if failures are not shown. -/
theorem shown_of_run {input : String} {grammar : Grammar} {steps : List Step} {pieces : Array Piece}
    {b : TraceBuilder} {root : Piece} (lastEdited : Option NodeKey)
    (hsteps : ∀ step ∈ steps, step.isRedirect = false)
    (hrun : run? ⟨input, grammar, #[], #[]⟩ #[] steps = some (pieces, b))
    (hfinish : b.finish root = .ok w.trace) (hcontiguous : w.trace.Contiguous)
    (hfailures : w.config.showFailures = false) :
    ∃ node, w.trace.node? w.trace.root = some node ∧
      String.join ((w.run w.trace.root lastEdited).requests.map (DrawRequest.shown w.trace)) =
        w.trace.text node.interval := by
  have hconsumed := consumed_of_finish hsteps hrun hfinish hcontiguous
  have hvalid : w.trace.Valid := by
    obtain ⟨hvalidated, htrace⟩ := Trace.validated_eq_ok.mp hfinish
    exact htrace ▸ Trace.valid_of_validate hvalidated
  obtain ⟨node, hnode⟩ := Option.isSome_iff_exists.mp (Trace.node?_isSome_iff.mpr hvalid.root)
  refine ⟨node, hnode, ?_⟩
  rw [requests_run]
  change (w.final w.trace.root lastEdited).shown w.trace = _
  rw [final, Trace.walk_eq_visit, Trace.visit, if_pos (Trace.node?_isSome_iff.mpr hvalid.root),
    shown_visitNode hfailures hcontiguous hconsumed (Nat.lt_succ_of_lt hvalid.root) hnode]
  have hnone : State.shown w.trace ⟨(w.evaluateFocus w.trace.root).2, lastEdited, #[], []⟩ = "" := rfl
  rw [hnone, String.empty_append]
  cases hsucceeded : node.succeeded with
  | true => rfl
  | false => exact (Trace.text_of_empty ((hconsumed _ node hnode).failed hsucceeded)).symm

/-- A letter of two bytes, white space, a sign after an attempt at another one, and a letter. -/
def signProgram : List Step :=
  [.range 0 'é' 'é', .apply "Letter" 0, .spaces ⟨2, 3⟩, .failed (.of (.terminal "-")) 3,
    .terminal 3 "+", .alt [3, 4], .range 4 'a' 'z', .apply "Letter" 6,
    .iter .star (.of (.apply "Letter")) 4 [7], .seq [1, 2, 5, 8], .apply "Sum" 9]

/-- The walk over the trace of a sign between letters. -/
def signWalk : Walk :=
  ⟨(recorded "é +x" signProgram).2.toTrace ⟨⟨10⟩, [⟨6⟩]⟩, .standard, some (.new "eval" .operation), [], none⟩

/-- The walk shows the whole input. -/
theorem shown_of_run_sign :
    String.join ((signWalk.run signWalk.trace.root none).requests.map
      (DrawRequest.shown signWalk.trace)) = "é +x" := by
  have horder : InOrder 11 ⟨"é +x", .empty, #[], #[]⟩ #[] signProgram := by decide +kernel
  obtain ⟨hrun, hfinish⟩ := finish_recorded horder
  obtain ⟨node, hnode, hshown⟩ := shown_of_run (w := signWalk) none (by decide) hrun
    (hfinish ⟨⟨10⟩, [⟨6⟩]⟩ (by decide +kernel)) (by decide +kernel) rfl
  have htext : (signWalk.trace.node? signWalk.trace.root).elim ""
      (fun node => signWalk.trace.text node.interval) = "é +x" := by decide +kernel
  rw [hnode] at htext
  exact hshown.trans htext

end Walk

end ParseActions
