import ParseActions.Proofs.Text.Slices
import ParseActions.Proofs.Trace.Building

/-!
# What the steps below a step consumed

The interval of a step that is built is put together from the intervals of the steps below it. Where
the parts of a sequence or a repetition follow one another, and an alternation has one attempt that
succeeded at most, the steps below a step that succeeded consumed its interval, one after the other.
So the text of its interval is made up of theirs.

## Main definitions

* `Interval.Consecutive`: intervals from one place to another, one after the other
* `Trace.parts`: the intervals of those steps that succeeded
* `Trace.Contiguous`: traces whose parts follow one another
* `Trace.Whole`: intervals that are empty or between two boundaries of the input
* `TraceBuilder.Spans`, `TraceBuilder.Spanned`: what holds of the intervals of steps

## Main results

* `TraceBuilder.spanned_run?`: what holds after a program
* `TraceBuilder.consumed_of_finish`: what the steps below a step consumed
* `Trace.text_of_consecutive`: the text of intervals that follow one another
-/

namespace ParseActions

/-! ## Consecutive intervals -/

namespace Interval

variable {i j : Interval} {is : List Interval} {start stop place : Nat}

/-- Intervals that lead from one place to another, each from where the one before it ends. -/
def Consecutive (start : Nat) : List Interval → Nat → Prop
  | [], stop => start = stop
  | i :: is, stop => i.start = start ∧ Consecutive i.stop is stop

/-- The interval that covers some intervals, or an empty one where there are none. -/
def coverAll (place : Nat) : List Interval → Interval
  | [] => point place
  | i :: is => is.foldl cover i

/-- Intervals of which each starts where the one before it ends are covered from the start of the
first to the end of the last. -/
theorem consecutive_foldl_cover (hchain : (i :: is).IsChain fun i j => i.stop = j.start)
    (horder : ∀ j ∈ i :: is, j.start ≤ j.stop) :
    Consecutive (is.foldl cover i).start (i :: is) (is.foldl cover i).stop := by
  induction is generalizing i with
  | nil => exact ⟨rfl, rfl⟩
  | cons j is ih =>
    obtain ⟨hnext, hchain⟩ := List.isChain_cons_cons.mp hchain
    have hi := horder i List.mem_cons_self
    have hj := horder j (List.mem_cons_of_mem _ List.mem_cons_self)
    -- the cover of the first two takes their place in the chain
    have hcover : i.cover j = ⟨i.start, j.stop⟩ := by
      simp only [cover, mk.injEq]
      omega
    have hlonger : (i.cover j :: is).IsChain fun i j => i.stop = j.start := by
      rw [hcover]
      cases hchain with
      | singleton => exact .singleton _
      | cons_cons hstart hrest => exact .cons_cons hstart hrest
    have horders : ∀ k ∈ i.cover j :: is, k.start ≤ k.stop := by
      refine List.forall_mem_cons.mpr ⟨?_, fun k hk => ?_⟩
      · rw [hcover]
        exact Nat.le_trans hi (hnext ▸ hj)
      · exact horder k (List.mem_cons_of_mem _ (List.mem_cons_of_mem _ hk))
    obtain ⟨hfirst, hrest⟩ := ih hlonger horders
    rw [hcover] at hfirst hrest
    rw [List.foldl_cons, hcover]
    exact ⟨hfirst, hnext.symm, hrest⟩

theorem consecutive_coverAll (hchain : is.IsChain fun i j => i.stop = j.start)
    (horder : ∀ j ∈ is, j.start ≤ j.stop) :
    Consecutive (coverAll place is).start is (coverAll place is).stop := by
  cases is with
  | nil => exact rfl
  | cons i is => exact consecutive_foldl_cover hchain horder

end Interval

open ParseActions.Interval (Consecutive coverAll)

/-! ## Parts -/

/-- Whether parts are matched one after the other. -/
def ParsingExpr.isRow (e : ParsingExpr) : Bool :=
  match e.shape with
  | .seq _ | .iter .. => true
  | _ => false

/-- Whether one of several expressions is matched. -/
def ParsingExpr.isChoice (e : ParsingExpr) : Bool :=
  match e.shape with
  | .alt _ => true
  | _ => false

namespace Trace

/-- The intervals of those of some steps that succeeded. -/
def parts (nodes : Array TraceNode) (ids : List TraceId) : List Interval :=
  ((ids.filterMap fun id => nodes[id.index]?).filter TraceNode.succeeded).map TraceNode.interval

/-- The steps of a trace follow one another: those that succeeded without steps below them consumed
whole characters, the parts of a sequence or a repetition that succeeded start where the one before
ended, and no alternation has two attempts that succeeded. -/
structure Contiguous (t : Trace) : Prop where
  leaves : ∀ node ∈ t.nodes, node.succeeded = true → node.children = [] →
    Text.IsBoundary t.input.toList node.interval.start ∧
      Text.IsBoundary t.input.toList node.interval.stop
  rows : ∀ node ∈ t.nodes, node.succeeded = true → node.expr.isRow = true →
    (parts t.nodes node.children).IsChain fun i j => i.stop = j.start
  choices : ∀ node ∈ t.nodes, node.succeeded = true → node.expr.isChoice = true →
    (parts t.nodes node.children).length ≤ 1

instance (t : Trace) : Decidable t.Contiguous :=
  decidable_of_iff
    ((∀ node ∈ t.nodes, node.succeeded = true → node.children = [] →
        Text.IsBoundary t.input.toList node.interval.start ∧
          Text.IsBoundary t.input.toList node.interval.stop) ∧
      (∀ node ∈ t.nodes, node.succeeded = true → node.expr.isRow = true →
        (parts t.nodes node.children).IsChain fun i j => i.stop = j.start) ∧
      ∀ node ∈ t.nodes, node.succeeded = true → node.expr.isChoice = true →
        (parts t.nodes node.children).length ≤ 1)
    ⟨fun ⟨leaves, rows, choices⟩ => ⟨leaves, rows, choices⟩,
      fun ⟨leaves, rows, choices⟩ => ⟨leaves, rows, choices⟩⟩

theorem parts_cons {nodes : Array TraceNode} {id : TraceId} {node : TraceNode}
    (hnode : nodes[id.index]? = some node) (ids : List TraceId) :
    parts nodes (id :: ids) =
      (if node.succeeded then [node.interval] else []) ++ parts nodes ids := by
  rw [parts, List.filterMap_cons_some (f := fun id : TraceId => nodes[id.index]?) hnode,
    List.filter_cons, parts]
  split <;> rfl

end Trace

namespace TraceBuilder

open Trace (parts)

variable {b b' : TraceBuilder} {p : Piece} {ps : List Piece} {node : TraceNode} {n : Nat}

theorem parts_map_node (hps : ∀ p ∈ ps, (b.nodes[p.node.index]?).isSome) :
    parts b.nodes (ps.map Piece.node) = (ps.filter b.succeeded).map b.intervalOf := by
  induction ps with
  | nil => rfl
  | cons p ps ih =>
    obtain ⟨hp, hps⟩ := List.forall_mem_cons.mp hps
    obtain ⟨node, hnode⟩ := Option.isSome_iff_exists.mp hp
    rw [List.map_cons, Trace.parts_cons hnode, ih hps, List.filter_cons, succeeded_eq hnode]
    split
    · rw [List.map_cons, intervalOf_eq hnode]
      rfl
    · rfl

theorem spanOf_eq_coverAll (b : TraceBuilder) (ps : List Piece) (place : Nat) :
    b.spanOf ps place = coverAll place ((ps.filter b.succeeded).map b.intervalOf) := by
  rw [spanOf]
  split
  · next hnone => rw [hnone]; rfl
  · next i is his => rw [his]; rfl

/-! ## The intervals of steps -/

/-- How the interval of a step that succeeded comes from the intervals of the steps below it. -/
inductive Spans (nodes : Array TraceNode) (node : TraceNode) : Prop
  | body {rule : String} {body : TraceId} {below : TraceNode} (hshape : node.expr.shape = .apply rule)
    (hchildren : node.children = [body]) (hbody : nodes[body.index]? = some below)
    (hinterval : node.interval = below.interval)
  | row (place : Nat) (hrow : node.expr.isRow = true)
    (hinterval : node.interval = coverAll place (parts nodes node.children))
  | choice (hchoice : node.expr.isChoice = true)
    (hfirst : (parts nodes node.children).head? = some node.interval)

/-- A step is shown as it is, it refers to steps that were made before it, and its interval comes from
theirs, or it has none. -/
structure Spanned (b : TraceBuilder) (n : Nat) (node : TraceNode) : Prop where
  kept : node.replacedBy = none
  below : ∀ id ∈ node.children, id.index < n ∧ (b.nodes[id.index]?).isSome
  failed : node.succeeded = false → node.interval.start = node.interval.stop
  spans : node.succeeded = true → node.children ≠ [] → Spans b.nodes node

namespace Grows

theorem isSome (h : b.Grows b') (hn : (b.nodes[n]?).isSome) : (b'.nodes[n]?).isSome := by
  obtain ⟨node, hnode⟩ := Option.isSome_iff_exists.mp hn
  obtain ⟨node', hnode', -⟩ := h.nodes n node hnode
  exact Option.isSome_iff_exists.mpr ⟨node', hnode'⟩

theorem parts (h : b.Grows b') {ids : List TraceId}
    (hids : ∀ id ∈ ids, (b.nodes[id.index]?).isSome) :
    parts b'.nodes ids = parts b.nodes ids := by
  induction ids with
  | nil => rfl
  | cons id ids ih =>
    obtain ⟨hid, hids⟩ := List.forall_mem_cons.mp hids
    obtain ⟨node, hnode⟩ := Option.isSome_iff_exists.mp hid
    obtain ⟨node', hnode', hinterval, hsucceeded⟩ := h.nodes _ node hnode
    rw [Trace.parts_cons hnode, Trace.parts_cons hnode', ih hids, hinterval, hsucceeded]

/-- What a step has below it keeps its interval. -/
theorem spanned (h : b.Grows b') (hnode : b.Spanned n node) : b'.Spanned n node where
  kept := hnode.kept
  below id hid := (hnode.below id hid).imp_right h.isSome
  failed := hnode.failed
  spans hsucceeded hchildren := by
    have hparts := h.parts fun id hid => (hnode.below id hid).2
    cases hnode.spans hsucceeded hchildren with
    | body hshape hchildren hbody hinterval =>
      obtain ⟨below', hbody', hinterval', -⟩ := h.nodes _ _ hbody
      exact .body hshape hchildren hbody' (hinterval.trans hinterval'.symm)
    | row place hrow hinterval => exact .row place hrow (hparts ▸ hinterval)
    | choice hchoice hfirst => exact .choice hchoice (hparts ▸ hfirst)

end Grows

/-- The outcome of a step: the arenas grow, all steps have intervals that come from those below them,
and the step of the piece was made. -/
structure Spanning (b : TraceBuilder) (r : Piece × TraceBuilder) : Prop where
  grows : b.Grows r.2
  nodes : ∀ n node, r.2.nodes[n]? = some node → r.2.Spanned n node
  found : (r.2.nodes[r.1.node.index]?).isSome

section Adding

variable {expr : ParsingExpr} {interval : Interval} {children : List TraceId} {succeeded : Bool}
  {cst : Option CstId} {kind : CstKind} {below : List CstId}

/-- A step is added whose interval comes from those below it. -/
theorem spanned_pushNode (h : ∀ n node, b.nodes[n]? = some node → b.Spanned n node)
    (hchildren : ∀ id ∈ children, (b.nodes[id.index]?).isSome)
    (hfailed : succeeded = false → interval.start = interval.stop)
    (hspans : succeeded = true → children ≠ [] →
      Spans b.nodes ⟨expr, interval, children, succeeded, none, expr.display, cst⟩) :
    ∀ n node, (b.pushNode expr interval children succeeded cst).2.nodes[n]? = some node →
      (b.pushNode expr interval children succeeded cst).2.Spanned n node := by
  intro n node hnode
  rcases eq_or_of_getElem?_push hnode with ⟨rfl, rfl⟩ | hnode
  -- the steps below the new one were there already, so they come before it
  · refine grows_pushNode.spanned
      ⟨rfl, fun id hid => ⟨?_, hchildren id hid⟩, hfailed, hspans⟩
    obtain ⟨below, hbelow⟩ := Option.isSome_iff_exists.mp (hchildren id hid)
    exact (Array.getElem?_eq_some_iff.mp hbelow).1
  · exact grows_pushNode.spanned (h n node hnode)

/-- The piece of a step without a node of the syntax tree. -/
theorem spanning_pushNode {bindings : List CstId}
    (h : ∀ n node, b.nodes[n]? = some node → b.Spanned n node)
    (hchildren : ∀ id ∈ children, (b.nodes[id.index]?).isSome)
    (hfailed : succeeded = false → interval.start = interval.stop)
    (hspans : succeeded = true → children ≠ [] →
      Spans b.nodes ⟨expr, interval, children, succeeded, none, expr.display, none⟩) :
    Spanning b (⟨(b.pushNode expr interval children succeeded none).1, bindings⟩,
      (b.pushNode expr interval children succeeded none).2) where
  grows := grows_pushNode
  nodes := spanned_pushNode h hchildren hfailed hspans
  found := by
    change ((b.nodes.push _)[b.nodes.size]?).isSome
    rw [Array.getElem?_push_size]
    rfl

/-- The piece of a step that succeeded, with a node of the syntax tree of its own. -/
theorem spanning_pushBoth (h : ∀ n node, b.nodes[n]? = some node → b.Spanned n node)
    (hchildren : ∀ id ∈ children, (b.nodes[id.index]?).isSome)
    (hspans : children ≠ [] →
      Spans b.nodes ⟨expr, interval, children, true, none, expr.display, some ⟨b.cst.size⟩⟩) :
    Spanning b (b.pushBoth kind expr interval below children) where
  grows := grows_pushCst.trans grows_pushNode
  nodes := spanned_pushNode (fun n node hnode => grows_pushCst.spanned (h n node hnode)) hchildren
    nofun fun _ => hspans
  found := by
    change ((b.nodes.push _)[b.nodes.size]?).isSome
    rw [Array.getElem?_push_size]
    rfl

end Adding

/-- A step is changed in where its expression was written. -/
theorem spanning_sourced (h : ∀ n node, b.nodes[n]? = some node → b.Spanned n node)
    (hp : (b.nodes[p.node.index]?).isSome) (place : Interval) :
    Spanning b (p, b.sourced p place) := by
  have hgrows : b.Grows (b.sourced p place) := grows_modify (fun _ => rfl) (fun _ => rfl)
  refine ⟨hgrows, fun n node hnode => ?_, hgrows.isSome hp⟩
  rw [sourced, TraceBuilder.modify, Array.getElem?_modify] at hnode
  split at hnode
  · obtain ⟨old, hold, rfl⟩ := Option.map_eq_some_iff.mp hnode
    have hspanned := hgrows.spanned (h n old hold)
    refine ⟨hspanned.kept, hspanned.below, hspanned.failed, ?_⟩
    intro hsucceeded hchildren
    cases hspanned.spans hsucceeded hchildren with
    | body hshape hchildren hbody hinterval => exact .body hshape hchildren hbody hinterval
    | row place hrow hinterval => exact .row place hrow hinterval
    | choice hchoice hfirst => exact .choice hchoice hfirst
  · exact hgrows.spanned (h n node hnode)

/-! ## Pieces that are put together -/

section Combining

variable (h : ∀ n node, b.nodes[n]? = some node → b.Spanned n node)

include h

theorem spanning_apply (hp : (b.nodes[p.node.index]?).isSome) (rule : String) :
    Spanning b (b.apply rule p) := by
  obtain ⟨body, hbody⟩ := Option.isSome_iff_exists.mp hp
  refine spanning_pushBoth h (List.forall_mem_singleton.mpr hp) fun _ => ?_
  exact .body rfl rfl hbody (intervalOf_eq hbody)

theorem spanning_seq (hps : ∀ p ∈ ps, (b.nodes[p.node.index]?).isSome) : Spanning b (b.seq ps) := by
  refine spanning_pushNode h (List.forall_mem_map.mpr hps) nofun fun _ _ => .row 0 rfl ?_
  rw [parts_map_node hps]
  exact spanOf_eq_coverAll b ps 0

theorem spanning_iter (hps : ∀ p ∈ ps, (b.nodes[p.node.index]?).isSome) (op : Repetition)
    (inner : ParsingExpr) (place : Nat) : Spanning b (b.iter op inner place ps) := by
  refine spanning_pushBoth h (List.forall_mem_map.mpr hps) fun _ => .row place rfl ?_
  rw [parts_map_node hps]
  exact spanOf_eq_coverAll b ps place

/-- An alternation has the interval of its first attempt that succeeded. -/
theorem spanning_alt (hps : ∀ p ∈ ps, (b.nodes[p.node.index]?).isSome) : Spanning b (b.alt ps) := by
  rw [alt]
  cases hwinner : ps.find? b.succeeded with
  | some winner =>
    refine spanning_pushNode h (List.forall_mem_map.mpr hps) (by simp) fun _ _ => .choice rfl ?_
    rw [parts_map_node hps, List.head?_map, List.head?_filter, hwinner]
    rfl
  | none => exact spanning_pushNode h (List.forall_mem_map.mpr hps) (fun _ => rfl) (by simp)

end Combining

/-! ## Programs -/

/-- A step that marks another one as replaced. -/
def Step.isRedirect : Step → Bool
  | .redirect .. => true
  | _ => false

/-- **A step of a program** that replaces nothing makes a step whose interval comes from those below
it. -/
theorem spanning_step? {pieces : Array Piece}
    (h : ∀ n node, b.nodes[n]? = some node → b.Spanned n node)
    (hpieces : ∀ p ∈ pieces, (b.nodes[p.node.index]?).isSome) {step : Step}
    (hstep : step.isRedirect = false) {r : Piece × TraceBuilder}
    (hr : b.step? pieces step = some r) : Spanning b r := by
  cases step with
  | terminal place text =>
    obtain rfl := Option.some.inj hr
    exact spanning_pushBoth h nofun fun hnone => (hnone rfl).elim
  | range place first last =>
    obtain rfl := Option.some.inj hr
    exact spanning_pushBoth h nofun fun hnone => (hnone rfl).elim
  | apply rule body =>
    obtain ⟨p, hp, rfl⟩ := Option.map_eq_some_iff.mp hr
    exact spanning_apply h (hpieces p (Array.mem_of_getElem? hp)) rule
  | seq parts =>
    obtain ⟨ps, hps, rfl⟩ := Option.map_eq_some_iff.mp hr
    exact spanning_seq h fun p hp => hpieces p (mem_of_pick? hps p hp)
  | alt attempts =>
    obtain ⟨ps, hps, rfl⟩ := Option.map_eq_some_iff.mp hr
    exact spanning_alt h fun p hp => hpieces p (mem_of_pick? hps p hp)
  | iter op inner place parts =>
    obtain ⟨ps, hps, rfl⟩ := Option.map_eq_some_iff.mp hr
    exact spanning_iter h (fun p hp => hpieces p (mem_of_pick? hps p hp)) op inner place
  | failed expr place =>
    obtain rfl := Option.some.inj hr
    exact spanning_pushNode h nofun (fun _ => rfl) nofun
  | spaces i =>
    obtain rfl := Option.some.inj hr
    exact spanning_pushNode h nofun nofun fun _ hnone => (hnone rfl).elim
  | sourced piece place =>
    obtain ⟨p, hp, rfl⟩ := Option.map_eq_some_iff.mp hr
    exact spanning_sourced h (hpieces p (Array.mem_of_getElem? hp)) place
  | redirect piece other => cases hstep

/-- **A program** without replacements makes steps whose intervals come from those below them. -/
theorem spanned_run? {pieces pieces' : Array Piece} {steps : List Step}
    (h : ∀ n node, b.nodes[n]? = some node → b.Spanned n node)
    (hpieces : ∀ p ∈ pieces, (b.nodes[p.node.index]?).isSome)
    (hsteps : ∀ step ∈ steps, step.isRedirect = false)
    (hrun : b.run? pieces steps = some (pieces', b')) :
    ∀ n node, b'.nodes[n]? = some node → b'.Spanned n node := by
  induction steps generalizing b pieces with
  | nil =>
    obtain ⟨rfl, rfl⟩ := Prod.mk.inj (Option.some.inj hrun)
    exact h
  | cons step steps ih =>
    obtain ⟨hstep, hsteps⟩ := List.forall_mem_cons.mp hsteps
    rw [run?] at hrun
    split at hrun
    · cases hrun
    · next p b₁ hr =>
      have hspanning := spanning_step? h hpieces hstep hr
      refine ih hspanning.nodes (fun q hq => ?_) hsteps hrun
      rcases Array.mem_push.mp hq with hq | rfl
      · exact hspanning.grows.isSome (hpieces q hq)
      · exact hspanning.found

end TraceBuilder

/-! ## What was consumed -/

namespace Trace

open TraceBuilder

variable {t : Trace} {node : TraceNode}

theorem Valid.order_of_mem_parts (h : t.Valid) {ids : List TraceId} {i : Interval}
    (hi : i ∈ parts t.nodes ids) : i.start ≤ i.stop := by
  obtain ⟨node, hnode, rfl⟩ := List.mem_map.mp hi
  obtain ⟨id, -, hid⟩ := List.mem_filterMap.mp (List.mem_filter.mp hnode).1
  exact (h.steps node (Array.mem_of_getElem? hid)).1

/-- The steps below a step that succeeded consumed its interval, one after the other; a step that
failed consumed nothing. -/
structure Consumed (t : Trace) (n : Nat) (node : TraceNode) : Prop where
  kept : node.replacedBy = none
  below : ∀ id ∈ node.children, id.index < n ∧ (t.node? id).isSome
  order : node.interval.start ≤ node.interval.stop
  failed : node.succeeded = false → node.interval.start = node.interval.stop
  consecutive : node.succeeded = true → node.children ≠ [] →
    Consecutive node.interval.start (parts t.nodes node.children) node.interval.stop

/-- An interval that comes from those of the steps below is consumed by these, where the parts follow
one another. -/
theorem Contiguous.consecutive (h : t.Contiguous) (hvalid : t.Valid)
    (hfailed : ∀ below ∈ t.nodes, below.succeeded = false →
      below.interval.start = below.interval.stop)
    (hnode : node ∈ t.nodes) (hsucceeded : node.succeeded = true) (hspans : Spans t.nodes node) :
    Consecutive node.interval.start (parts t.nodes node.children) node.interval.stop := by
  cases hspans with
  | @body rule body below hshape hchildren hbody hinterval =>
    rw [hinterval, hchildren, parts_cons hbody]
    cases hverdict : below.succeeded with
    | true => exact ⟨rfl, rfl⟩
    | false => exact hfailed below (Array.mem_of_getElem? hbody) hverdict
  | row place hrow hinterval =>
    rw [hinterval]
    exact Interval.consecutive_coverAll (h.rows node hnode hsucceeded hrow) fun _ =>
      hvalid.order_of_mem_parts
  | choice hchoice hfirst =>
    have hone := h.choices node hnode hsucceeded hchoice
    cases hparts : parts t.nodes node.children with
    | nil =>
      rw [hparts] at hfirst
      cases hfirst
    | cons i is =>
      rw [hparts] at hone hfirst
      obtain rfl := Option.some.inj hfirst
      obtain rfl := List.length_eq_zero_iff.mp (Nat.le_zero.mp (Nat.le_of_succ_le_succ hone))
      exact ⟨rfl, rfl⟩

end Trace

/-- **What the steps of a finished trace consumed**, where the program replaces nothing and the parts
follow one another. -/
theorem TraceBuilder.consumed_of_finish {input : String} {grammar : Grammar} {steps : List Step}
    {pieces : Array Piece} {b : TraceBuilder} {root : Piece} {t : Trace}
    (hsteps : ∀ step ∈ steps, step.isRedirect = false)
    (hrun : run? ⟨input, grammar, #[], #[]⟩ #[] steps = some (pieces, b))
    (hfinish : b.finish root = .ok t) (hcontiguous : t.Contiguous) :
    ∀ n node, t.nodes[n]? = some node → t.Consumed n node := by
  obtain ⟨hvalidated, rfl⟩ := Trace.validated_eq_ok.mp hfinish
  have hvalid := Trace.valid_of_validate hvalidated
  have hspanned := spanned_run? (by simp) (by simp) hsteps hrun
  intro n node hnode
  have hmem := Array.mem_of_getElem? hnode
  obtain ⟨hkept, hbelow, hfailed, hspans⟩ := hspanned n node hnode
  refine ⟨hkept, hbelow, (hvalid.steps node hmem).1, hfailed, fun hsucceeded hchildren =>
    hcontiguous.consecutive hvalid ?_ hmem hsucceeded (hspans hsucceeded hchildren)⟩
  intro below hbelow
  obtain ⟨m, hm⟩ := Array.mem_iff_getElem?.mp hbelow
  exact (hspanned m below hm).failed

/-! ## Texts -/

namespace Trace

variable {t : Trace} {start middle stop : Nat} {is : List Interval}

/-- An interval that is empty, or of which the input has the text. -/
def Whole (t : Trace) (i : Interval) : Prop :=
  i.start = i.stop ∨ (Text.slice? t.input.toList i.start i.stop).isSome

theorem text_of_empty {i : Interval} (h : i.start = i.stop) : t.text i = "" := by
  rw [text, Text.slice?, if_pos (Nat.le_of_eq h), h, Nat.sub_self]
  cases Text.dropBytes? i.stop t.input.toList <;> simp

@[simp] theorem text_point (t : Trace) (place : Nat) : t.text ⟨place, place⟩ = "" :=
  text_of_empty rfl

/-- Two intervals that follow one another. -/
theorem Whole.append (h : t.Whole ⟨start, middle⟩) (h' : t.Whole ⟨middle, stop⟩) :
    t.text ⟨start, middle⟩ ++ t.text ⟨middle, stop⟩ = t.text ⟨start, stop⟩ ∧
      t.Whole ⟨start, stop⟩ := by
  rcases h with hempty | h
  · obtain rfl : start = middle := hempty
    exact ⟨by simp, h'⟩
  · rcases h' with hempty | h'
    · obtain rfl : middle = stop := hempty
      exact ⟨by simp, .inr h⟩
    · obtain ⟨xs, hxs⟩ := Option.isSome_iff_exists.mp h
      obtain ⟨ys, hys⟩ := Option.isSome_iff_exists.mp h'
      have happend := Text.slice?_append hxs hys
      refine ⟨?_, .inr (Option.isSome_iff_exists.mpr ⟨_, happend⟩)⟩
      simp only [text, hxs, hys, happend, Option.getD_some, String.ofList_append]

/-- **The text of intervals** that follow one another is made up of theirs. -/
theorem text_of_consecutive (h : Consecutive start is stop) (hwhole : ∀ i ∈ is, t.Whole i) :
    String.join (is.map t.text) = t.text ⟨start, stop⟩ ∧ t.Whole ⟨start, stop⟩ := by
  induction is generalizing start with
  | nil =>
    obtain rfl := h
    exact ⟨by simp, .inl rfl⟩
  | cons i is ih =>
    obtain ⟨hi, his⟩ := List.forall_mem_cons.mp hwhole
    obtain ⟨rfl, hrest⟩ := h
    obtain ⟨htext, hrest⟩ := ih hrest his
    rw [List.map_cons, String.join_cons, htext]
    exact Whole.append hi hrest

/-- Every step consumed whole characters, if those do that have no steps below them. -/
theorem Contiguous.whole (h : t.Contiguous)
    (hconsumed : ∀ n node, t.nodes[n]? = some node → t.Consumed n node) {n : Nat} {node : TraceNode}
    (hnode : t.nodes[n]? = some node) : t.Whole node.interval := by
  -- a step has only steps below it that were made before it
  induction n using Nat.strongRecOn generalizing node with
  | ind n ih =>
    have hnodeConsumed := hconsumed n node hnode
    cases hsucceeded : node.succeeded with
    | false => exact .inl (hnodeConsumed.failed hsucceeded)
    | true =>
      by_cases hchildren : node.children = []
      · obtain ⟨hstart, hstop⟩ := h.leaves node (Array.mem_of_getElem? hnode) hsucceeded hchildren
        exact .inr (Text.slice?_isSome hstart hstop hnodeConsumed.order)
      · refine (text_of_consecutive (hnodeConsumed.consecutive hsucceeded hchildren) ?_).2
        intro i hi
        obtain ⟨below, hbelow, rfl⟩ := List.mem_map.mp hi
        obtain ⟨id, hid, hfound⟩ := List.mem_filterMap.mp (List.mem_filter.mp hbelow).1
        exact ih id.index (hnodeConsumed.below id hid).1 hfound

end Trace

end ParseActions
