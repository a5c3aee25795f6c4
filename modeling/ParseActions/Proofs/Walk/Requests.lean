import Mathlib.Data.List.Chain
import ParseActions.Proofs.Trace.Recursion
import ParseActions.Proofs.Walk.Panels

/-!
# The requests of a walk

A walk asks for steps to be drawn in the order in which it enters them, and tells how deep each of
them is. So the way down to a step can be read off the requests: it goes on from the way to the step
before, as far as the step is deep. A step that is found in several ways is drawn once for each.

## Main definitions

* `Walk.State.requests`, `Walk.Result.requests`: the requests that were made
* `Walk.request`: the request for a step that has a given panel
* `DrawRequest.ways`: the ways down to the steps that are drawn
* `Walk.IsWay`: a way down in a trace
* `Walk.entered`: the steps that a walk enters

## Main results

* `Walk.visitNode_invariant`: what the draws below a step keep, the visit of the step keeps
* `Walk.ways_of_run`: the ways that are read off the requests of a walk lead down from its start
* `Walk.exists_entered_of_request`: what is drawn was entered
-/

namespace ParseActions

/-! ## Ways -/

namespace DrawRequest

/-- The way down to the step of a request, which goes on from the way to the step before. -/
def wayFrom (r : DrawRequest) (before : List DrawRequest) : List DrawRequest :=
  before.take r.depth ++ [r]

/-- The way down to the last step of some that are drawn. -/
def lastWay (requests : List DrawRequest) : List DrawRequest :=
  requests.foldl (fun way r => r.wayFrom way) []

/-- The ways down to the steps that are drawn, each from the step that is drawn first. -/
def ways (requests : List DrawRequest) : List (List DrawRequest) :=
  requests.inits.tail.map lastWay

@[simp] theorem lastWay_concat (requests : List DrawRequest) (r : DrawRequest) :
    lastWay (requests ++ [r]) = r.wayFrom (lastWay requests) :=
  List.foldl_concat ..

@[simp] theorem ways_concat (requests : List DrawRequest) (r : DrawRequest) :
    ways (requests ++ [r]) = ways requests ++ [r.wayFrom (lastWay requests)] := by
  have hinits : (requests ++ [r]).inits = requests.inits ++ [requests ++ [r]] := by simp
  rw [ways, hinits, List.tail_append_of_ne_nil (by cases requests <;> simp), List.map_append,
    List.map_singleton, lastWay_concat, ways]

theorem getLast?_wayFrom (r : DrawRequest) (before : List DrawRequest) :
    (r.wayFrom before).getLast? = some r :=
  List.getLast?_concat

end DrawRequest

namespace Walk

open DrawRequest

/-- The requests that were made. -/
def State.requests (s : State) : List DrawRequest :=
  s.events.toList.filterMap WalkEvent.request?

/-- The requests that were made. -/
def Result.requests (r : Result) : List DrawRequest :=
  r.events.filterMap WalkEvent.request?

/-- The state that a walk ends in. -/
def final (w : Walk) (focus : TraceId) (lastEdited : Option NodeKey) : State :=
  w.trace.walk w.visitor focus ⟨(w.evaluateFocus focus).2, lastEdited, #[], []⟩

/-- The way down to the step that was drawn last. -/
def State.way (s : State) : List DrawRequest :=
  lastWay s.requests

variable {w : Walk}

theorem requests_run (focus : TraceId) (lastEdited : Option NodeKey) :
    (w.run focus lastEdited).requests = (w.final focus lastEdited).requests :=
  rfl

theorem todo_run (focus : TraceId) (lastEdited : Option NodeKey) :
    (w.run focus lastEdited).report.todo = (w.final focus lastEdited).memo.todo :=
  rfl

/-- The request for a step that has a given panel, or none. -/
def request (w : Walk) (visit : Visit) (node : TraceNode) (panel : Option ActionPanel) :
    DrawRequest where
  node := visit.node
  depth := visit.depth
  key := w.key? node
  label := node.label w.config.labelLength
  succeeded := node.succeeded
  labeled := node.isLabeled
  leaf := isLeaf node
  primitive := node.expr.isPrimitive
  whitespace := node.isWhitespace
  input := w.consumed node
  zoomTarget := w.zoomTarget = some visit.node
  panel := panel

theorem requests_draw (visit : Visit) (node : TraceNode) (s : State) :
    (w.draw visit node s).requests =
      s.requests ++ [w.request visit node (w.panel visit.node node s).1] := by
  rw [State.requests, draw]
  simp only [Array.toList_push, List.filterMap_append, (panel_drawings visit.node node s).1]
  rfl

@[simp] theorem requests_leave (visit : Visit) (s : State) :
    (w.visitor.leave visit s).requests = s.requests := by
  simp [State.requests, visitor, WalkEvent.request?]

theorem way_draw (visit : Visit) (node : TraceNode) (s : State) :
    (w.draw visit node s).way =
      s.way.take visit.depth ++ [w.request visit node (w.panel visit.node node s).1] := by
  rw [State.way, requests_draw, lastWay_concat]
  rfl

@[simp] theorem way_leave (visit : Visit) (s : State) :
    (w.visitor.leave visit s).way = s.way := by
  rw [State.way, requests_leave, State.way]

/-! ## Going down -/

/-- The requests are for steps on a way down from a step, one level deeper each. -/
structure IsWay (t : Trace) (start : TraceId) (way : List DrawRequest) : Prop where
  head : ∀ r ∈ way.head?, r.node = start
  chain : way.IsChain fun above below => below.node ∈ t.children above.node
  depths : way.map DrawRequest.depth = List.range way.length

/-- The way leads to a step that is about to be entered: it ends above it. -/
structure LeadsTo (t : Trace) (start : TraceId) (way : List DrawRequest) (visit : Visit) :
    Prop where
  isWay : IsWay t start way
  length : way.length = visit.depth
  top : way = [] → visit.node = start
  below : ∀ r ∈ way.getLast?, visit.node ∈ t.children r.node

section Ways

variable {t : Trace} {start : TraceId} {way : List DrawRequest} {visit : Visit}

/-- The step that a way leads to comes after it. -/
theorem LeadsTo.concat (h : LeadsTo t start way visit) (r : DrawRequest)
    (hnode : r.node = visit.node) (hdepth : r.depth = visit.depth) :
    IsWay t start (way ++ [r]) where
  head first hfirst := by
    -- a way without steps leads to the step that all ways begin at
    cases way with
    | nil =>
      obtain rfl : r = first := Option.some.inj hfirst
      exact hnode.trans (h.top rfl)
    | cons r' way => exact h.isWay.head first hfirst
  chain := by
    refine List.isChain_append.mpr ⟨h.isWay.chain, .singleton r, fun last hlast r' hr' => ?_⟩
    obtain rfl : r = r' := Option.some.inj hr'
    exact hnode ▸ h.below last hlast
  depths := by
    rw [List.map_append, h.isWay.depths, List.map_singleton, hdepth, List.length_append,
      List.length_singleton, List.range_succ, h.length]

/-- A way that ends with a step leads to the children of this step. -/
theorem LeadsTo.down (h : LeadsTo t start way visit) {r : DrawRequest}
    (hnode : r.node = visit.node) (hdepth : r.depth = visit.depth) {child : TraceId}
    (hchild : child ∈ t.children visit.node) :
    LeadsTo t start (way ++ [r]) ⟨child, some visit.node, visit.depth + 1⟩ where
  isWay := h.concat r hnode hdepth
  length := by rw [List.length_append, h.length, List.length_singleton]
  top hnil := absurd hnil (List.concat_ne_nil r way)
  below last hlast := by
    rw [List.getLast?_concat, Option.mem_some_iff] at hlast
    subst hlast
    exact hnode ▸ hchild

/-- A way that goes on below a step goes through it. -/
theorem LeadsTo.take_of_take_succ (h : LeadsTo t start way visit) {longer : List DrawRequest}
    {r : DrawRequest} (hlonger : longer.take (visit.depth + 1) = way ++ [r]) :
    longer.take visit.depth = way := by
  have htake := congrArg (List.take visit.depth) hlonger
  rwa [List.take_take, Nat.min_eq_left (Nat.le_succ _), ← h.length, List.take_left,
    h.length] at htake

theorem LeadsTo.take_succ (h : LeadsTo t start way visit) (r : DrawRequest) :
    (way ++ [r]).take (visit.depth + 1) = way ++ [r] := by
  rw [List.take_of_length_le]
  rw [List.length_append, h.length, List.length_singleton]

end Ways

/-! ## Entering steps -/

section Enter

variable {visit : Visit} {node : TraceNode}

theorem enter_of_missing (hnode : w.trace.node? visit.node = none) (s : State) :
    w.visitor.enter visit s = (.skip, s) := by
  simp only [visitor, hnode]

theorem enter_of_hidden (hnode : w.trace.node? visit.node = some node)
    (h : w.isHidden node = true) (s : State) : w.visitor.enter visit s = (.skip, s) := by
  simp only [visitor, hnode, h, if_true]

theorem enter_of_shown (hnode : w.trace.node? visit.node = some node)
    (h : w.isHidden node = false) (s : State) :
    w.visitor.enter visit s = (if isLeaf node then .skip else .descend, w.draw visit node s) := by
  simp only [visitor, hnode, h, Bool.false_eq_true, if_false]

/-- Nothing is visited below a leaf, or where no level is left. -/
theorem visitNode_of_leaf {room : Nat} {s : State}
    (henter : w.visitor.enter visit s =
      (if isLeaf node then .skip else .descend, w.draw visit node s))
    (hstop : room = 0 ∨ isLeaf node = true) :
    w.trace.visitNode w.visitor room visit s = w.draw visit node s := by
  rw [Trace.visitNode_of_not_descend, henter]
  apply hstop.imp_right
  intro hleaf
  rw [henter, if_pos hleaf]

/-- A step that is drawn and is no leaf is left after its children. -/
theorem visitNode_of_not_leaf {room : Nat} {s : State}
    (henter : w.visitor.enter visit s =
      (if isLeaf node then .skip else .descend, w.draw visit node s))
    (hinner : ¬isLeaf node = true) :
    w.trace.visitNode w.visitor (room + 1) visit s =
      w.visitor.leave visit
        (w.trace.visitBelow w.visitor room visit (w.trace.children visit.node)
          (w.draw visit node s)) := by
  apply Trace.visitNode_of_descend
  rw [henter, if_neg hinner]

end Enter

section Invariant

variable {P : State → Prop} {start : TraceId} {above : List DrawRequest}

/-- What holds is kept by all draws to which a way leads through a step. -/
def KeptBelow (w : Walk) (P : State → Prop) (start : TraceId) (above : List DrawRequest)
    (visit : Visit) : Prop :=
  ∀ below node s, w.trace.node? below.node = some node →
    LeadsTo w.trace start (s.way.take below.depth) below →
    (∃ top panel, w.trace.node? visit.node = some top ∧
      above ++ [w.request visit top panel] <+: (w.draw below node s).way) →
    P s → P (w.draw below node s)

/-- A way that leads through a child leads through the step. -/
theorem KeptBelow.down {visit : Visit} (h : w.KeptBelow P start above visit) {node : TraceNode}
    (hnode : w.trace.node? visit.node = some node) (panel : Option ActionPanel) (child : TraceId) :
    w.KeptBelow P start (above ++ [w.request visit node panel])
      ⟨child, some visit.node, visit.depth + 1⟩ := by
  rintro below belowNode s hbelow hleads ⟨top, topPanel, -, hprefix⟩ hs
  exact h below belowNode s hbelow hleads
    ⟨node, panel, hnode, (List.prefix_append _ _).trans hprefix⟩ hs

/-- What draws keep, entering a step keeps. A step that is descended into ends the way. -/
theorem KeptBelow.enter {visit : Visit} {s : State} (h : w.KeptBelow P start above visit)
    (habove : LeadsTo w.trace start above visit) (hway : s.way.take visit.depth = above)
    (hs : P s) :
    P (w.visitor.enter visit s).2 ∧ (w.visitor.enter visit s).2.way.take visit.depth = above ∧
      ((w.visitor.enter visit s).1 = .descend → ∃ node panel,
        w.trace.node? visit.node = some node ∧
        (w.visitor.enter visit s).2.way = above ++ [w.request visit node panel]) := by
  cases hnode : w.trace.node? visit.node with
  | none =>
    rw [enter_of_missing hnode]
    exact ⟨hs, hway, nofun⟩
  | some node =>
    cases hhidden : w.isHidden node with
    | true =>
      rw [enter_of_hidden hnode hhidden]
      exact ⟨hs, hway, nofun⟩
    | false =>
      -- the step is drawn at the end of the way that led to it
      have hend : (w.draw visit node s).way = above ++
          [w.request visit node (w.panel visit.node node s).1] := by
        rw [way_draw, hway]
      rw [enter_of_shown hnode hhidden]
      exact ⟨h visit node s hnode (hway ▸ habove) ⟨node, _, hnode, by rw [hend]⟩ hs,
        habove.take_of_take_succ (by rw [hend, habove.take_succ]),
        fun _ => ⟨node, _, rfl, hend⟩⟩

/-- **What the draws below a step keep**, the visit of the step keeps. To whatever is drawn a way
leads through the step; the way to the step is the same before and after the visit. -/
theorem visitNode_invariant (room : Nat) {visit : Visit} {s : State}
    (habove : LeadsTo w.trace start above visit) (hway : s.way.take visit.depth = above)
    (hdraw : w.KeptBelow P start above visit)
    (hleave : ∀ visit s, P s → P (w.visitor.leave visit s)) (hs : P s) :
    P (w.trace.visitNode w.visitor room visit s) ∧
      (w.trace.visitNode w.visitor room visit s).way.take visit.depth = above := by
  induction room generalizing visit s above with
  | zero =>
    obtain ⟨hnext, hkept, -⟩ := hdraw.enter habove hway hs
    exact ⟨hnext, hkept⟩
  | succ room ih =>
    obtain ⟨hnext, hkept, hdown⟩ := hdraw.enter habove hway hs
    cases hdescent : w.visitor.enter visit s with
    | mk descent next =>
      rw [hdescent] at hnext hkept hdown
      cases descent with
      | skip =>
        rw [Trace.visitNode_of_skip hdescent]
        exact ⟨hnext, hkept⟩
      | descend =>
        obtain ⟨node, panel, hnode, hend⟩ := hdown rfl
        -- the way to each child goes through the step itself
        have hbelow :
            P (w.trace.visitBelow w.visitor room visit (w.trace.children visit.node) next) ∧
              (w.trace.visitBelow w.visitor room visit (w.trace.children visit.node) next).way.take
                (visit.depth + 1) = above ++ [w.request visit node panel] :=
          List.foldlRecOn (motive := fun s => P s ∧ s.way.take (visit.depth + 1) =
              above ++ [w.request visit node panel]) _ _
            ⟨hnext, by rw [hend, habove.take_succ]⟩
            fun s hs child hchild =>
              ih (habove.down rfl rfl hchild) hs.2 (hdraw.down hnode panel child) hs.1
        rw [Trace.visitNode_of_descend hdescent, way_leave]
        exact ⟨hleave visit _ hbelow.1, habove.take_of_take_succ hbelow.2⟩

/-- Nothing leads to the step that a walk begins at. -/
theorem leadsTo_start (t : Trace) (start : TraceId) : LeadsTo t start [] ⟨start, none, 0⟩ where
  isWay := ⟨by simp, .nil, rfl⟩
  length := rfl
  top _ := rfl
  below := by simp

/-- What draws keep, a walk keeps, and to whatever is drawn a way leads. -/
theorem walk_way_invariant (focus : TraceId) {s : State}
    (hdraw : ∀ visit node s, w.trace.node? visit.node = some node →
      LeadsTo w.trace focus (s.way.take visit.depth) visit → P s → P (w.draw visit node s))
    (hleave : ∀ visit s, P s → P (w.visitor.leave visit s)) (hs : P s) :
    P (w.trace.walk w.visitor focus s) := by
  rw [Trace.walk_eq_visit, Trace.visit]
  split
  · exact (visitNode_invariant _ (leadsTo_start w.trace focus) List.take_zero
      (fun visit node s hnode hleads _ => hdraw visit node s hnode hleads) hleave hs).1
  · exact hs

end Invariant

/-- **The ways that are read off** the requests of a walk lead down from the step at which it
begins. -/
theorem ways_of_run (focus : TraceId) (lastEdited : Option NodeKey) :
    ∀ way ∈ ways (w.run focus lastEdited).requests, IsWay w.trace focus way := by
  refine walk_way_invariant (P := fun s => ∀ way ∈ ways s.requests, IsWay w.trace focus way) focus
    ?_ (fun visit s hs => by rwa [requests_leave]) (fun way hway => nomatch hway)
  intro visit node s _ hleads hs way hway
  rw [requests_draw, ways_concat] at hway
  rcases List.mem_append.mp hway with hway | hway
  · exact hs way hway
  · obtain rfl := List.mem_singleton.mp hway
    exact hleads.concat _ rfl rfl

/-! ## What a walk enters -/

/-- The steps that a walk enters, in turn. -/
def entered (w : Walk) (focus : TraceId) (lastEdited : Option NodeKey) : List Visit :=
  w.trace.entered w.visitor focus ⟨(w.evaluateFocus focus).2, lastEdited, #[], []⟩

/-- **What is drawn was entered**, at the same depth. -/
theorem exists_entered_of_request (focus : TraceId) (lastEdited : Option NodeKey) :
    ∀ r ∈ (w.run focus lastEdited).requests,
      ∃ visit ∈ w.entered focus lastEdited, r.node = visit.node ∧ r.depth = visit.depth := by
  -- the walk that notes what it enters makes the same requests
  rw [requests_run, final, ← Trace.walk_noting w.visitor focus _ []]
  refine Trace.walk_invariant (v := w.visitor.noting)
    (P := fun s => ∀ r ∈ s.1.requests,
      ∃ visit ∈ s.2, r.node = visit.node ∧ r.depth = visit.depth) ?_ ?_ focus
    (fun r hr => nomatch hr)
  · intro visit s hs r hr
    have hbefore (hr : r ∈ s.1.requests) : ∃ before ∈ s.2 ++ [visit],
        r.node = before.node ∧ r.depth = before.depth := by
      obtain ⟨before, hmem, hsame⟩ := hs r hr
      exact ⟨before, List.mem_append_left _ hmem, hsame⟩
    show ∃ before ∈ s.2 ++ [visit], r.node = before.node ∧ r.depth = before.depth
    change r ∈ (w.visitor.enter visit s.1).2.requests at hr
    cases hnode : w.trace.node? visit.node with
    | none =>
      rw [enter_of_missing hnode] at hr
      exact hbefore hr
    | some node =>
      cases hhidden : w.isHidden node with
      | true =>
        rw [enter_of_hidden hnode hhidden] at hr
        exact hbefore hr
      | false =>
        rw [enter_of_shown hnode hhidden, requests_draw] at hr
        rcases List.mem_append.mp hr with hr | hr
        · exact hbefore hr
        · obtain rfl := List.mem_singleton.mp hr
          exact ⟨visit, List.mem_append_right _ (List.mem_singleton_self _), rfl, rfl⟩
  · intro visit s hs r hr
    change r ∈ (w.visitor.leave visit s.1).requests at hr
    rw [requests_leave] at hr
    exact hs r hr

end Walk

end ParseActions
