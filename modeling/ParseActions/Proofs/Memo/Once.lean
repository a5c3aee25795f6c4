import Mathlib.Data.List.Perm.Subperm
import Mathlib.Order.WellFounded
import ParseActions.Proofs.Memo.Rounds

/-!
# Attributes evaluate a node once

An attribute uses an outcome again as soon as it is settled, and settled outcomes stay so. What is
pending is evaluated again, but then by another node with the same key: a node that waits on the
stack is not below itself, so it is not entered while it waits. Hence the nodes whose evaluation has
begun are those that wait and some whose keys have settled outcomes, and none of them is there
twice.

## Main definitions

* `Trace.Child`: one node of the syntax tree is a child of another
* `Evaluation.Waiting`: the nodes that wait on a stack, by their places
* `Evaluation.Tracked`: what is known of the nodes whose evaluation has begun

## Main results

* `Evaluation.Tracked.moved`: a round keeps track of the nodes whose evaluation has begun
* `Evaluation.Once.evaluate`: an evaluation begins those of nodes that were not evaluated before,
  each of them once
-/

namespace ParseActions

/-- A node of the syntax tree is a child of another one. -/
def Trace.Child (t : Trace) (child id : CstId) : Prop :=
  child ∈ t.cstChildren id

theorem Trace.child_of_mem {t : Trace} {id child : CstId} {node : CstNode}
    (hnode : t.cstNode? id = some node) (h : child ∈ node.children) : t.Child child id := by
  rwa [Child, cstChildren_of_cstNode? hnode]

/-- No node of the syntax tree is below itself. -/
theorem Trace.Valid.not_below_self {t : Trace} (h : t.Valid) (id : CstId) :
    ¬ Relation.TransGen t.Child id id :=
  h.wellFounded.transGen.irrefl.irrefl id

namespace Evaluation

variable {c : Evaluation}

/-- An attribute evaluates a node only while no outcome of its key is settled. -/
theorem not_ended_of_new (hkind : c.action.kind = .property) {key : NodeKey} {m : Memo}
    (h : c.known? key m = none) : ¬ m.Ended key := by
  rintro ⟨outcome, hget, hsettled⟩
  simp only [known?, hkind, hget] at h
  cases outcome with
  | pending => exact hsettled rfl
  | _ => cases h

/-- The outcome of a node is recorded and settled. -/
def HasEnded (c : Evaluation) (m : Memo) (id : CstId) : Prop :=
  ∃ node, c.trace.cstNode? id = some node ∧ m.Ended (c.keyOf node)

theorem HasEnded.set {m : Memo} {id : CstId} (h : c.HasEnded m id) (key : NodeKey)
    {outcome : Outcome} (ho : outcome.Settled) : c.HasEnded (m.set key outcome) id := by
  obtain ⟨node, hnode, hended⟩ := h
  exact ⟨node, hnode, hended.set key ho⟩

/-- Only the entries count. -/
theorem HasEnded.congr {m m' : Memo} {id : CstId} (h : c.HasEnded m id)
    (hentries : m'.entries = m.entries) : c.HasEnded m' id := by
  obtain ⟨node, hnode, outcome, hget, hsettled⟩ := h
  exact ⟨node, hnode, outcome, by rw [Memo.get?, hentries, ← Memo.get?, hget], hsettled⟩

/-- What is settled is not touched while the evaluation of a node with another key begins. -/
theorem HasEnded.start {m : Memo} {id : CstId} (h : c.HasEnded m id) {key : NodeKey}
    (hkey : ¬ m.Ended key) : c.HasEnded (m.start key) id := by
  obtain ⟨node, hnode, hended⟩ := h
  refine ⟨node, hnode, Memo.ended_start.mpr ⟨?_, hended⟩⟩
  rintro rfl
  exact hkey hended

/-! ## The nodes that wait -/

/-- The nodes that wait on a stack, by their places: what is left of each are children of it, and it
is below all nodes under it on the stack. -/
inductive Waiting (c : Evaluation) : List CstId → List Frame → Prop where
  | nil : Waiting c [] []
  | cons {id : CstId} {ids : List CstId} {f : Frame} {stack : List Frame}
    (hnode : c.trace.cstNode? id = some f.node) (hrest : ∀ child ∈ f.rest, c.trace.Child child id)
    (hbelow : ∀ x ∈ ids, Relation.TransGen c.trace.Child id x) (h : Waiting c ids stack) :
    Waiting c (id :: ids) (f :: stack)

/-- The nodes whose evaluation has begun, none of them twice: some wait, at the places `ids`, and
the others have settled outcomes. -/
structure Tracked (c : Evaluation) (log ids : List CstId) (work : Work) : Prop where
  nodup : log.Nodup
  waiting : c.Waiting ids work.stack
  logged : ∀ id ∈ ids, id ∈ log
  ended : ∀ id ∈ log, id ∈ ids ∨ c.HasEnded work.memo id
  settled : ∀ outcome ∈ work.child, outcome.Settled

section Entering

variable {log ids : List CstId} {stack : List Frame} {m : Memo} {id : CstId} {node : CstNode}

/-- An evaluation that begins is that of a node that has not been evaluated. -/
theorem Tracked.fresh (hv : c.trace.Valid) (hkind : c.action.kind = .property)
    (h : c.Tracked log ids ⟨stack, none, m⟩)
    (hbelow : ∀ x ∈ ids, Relation.TransGen c.trace.Child id x)
    (hnode : c.trace.cstNode? id = some node) (hnew : c.known? (c.keyOf node) m = none) :
    (log ++ [id]).Nodup ∧ ∀ x ∈ log, x ∈ ids ∨ c.HasEnded (m.start (c.keyOf node)) x := by
  have hkey := not_ended_of_new hkind hnew
  refine ⟨?_, fun x hx => (h.ended x hx).imp_right fun hx => hx.start hkey⟩
  rw [List.nodup_append_comm, List.singleton_append, List.nodup_cons]
  refine ⟨fun hmem => ?_, h.nodup⟩
  -- one that waits would be below itself, and an outcome that is settled would be used again
  rcases h.ended id hmem with hid | ⟨n, hn, hended⟩
  · exact hv.not_below_self id (hbelow id hid)
  · obtain rfl := Option.some.inj (hnode.symm.trans hn)
    exact hkey hended

/-- An evaluation that ends at once leaves a settled outcome. -/
theorem Tracked.finished (h : c.Tracked log ids ⟨stack, none, m⟩)
    (hnode : c.trace.cstNode? id = some node) (hnodup : (log ++ [id]).Nodup) {m' : Memo}
    (hended : ∀ x ∈ log, x ∈ ids ∨ c.HasEnded m' x) {outcome : Outcome} (ho : outcome.Settled) :
    c.Tracked (log ++ [id]) ids (.after stack (outcome, m'.set (c.keyOf node) outcome)) where
  nodup := hnodup
  waiting := h.waiting
  logged x hx := List.mem_append_left _ (h.logged x hx)
  ended x hx := by
    rcases List.mem_append.mp hx with hx | hx
    · exact (hended x hx).imp_right fun hx => hx.set _ ho
    · obtain rfl := List.mem_singleton.mp hx
      exact .inr ⟨node, hnode, outcome, Memo.get?_set_self _ _ _, ho⟩
  settled := by
    rintro o ⟨⟩
    exact ho

/-- A node that is opened waits. -/
theorem Tracked.opened (h : c.Tracked log ids ⟨stack, none, m⟩)
    (hbelow : ∀ x ∈ ids, Relation.TransGen c.trace.Child id x)
    (hnode : c.trace.cstNode? id = some node) (hnodup : (log ++ [id]).Nodup) {m' : Memo}
    (hended : ∀ x ∈ log, x ∈ ids ∨ c.HasEnded m' x) (mode : Mode) :
    c.Tracked (log ++ [id]) (id :: ids) ⟨.start node mode :: stack, none, m'⟩ where
  nodup := hnodup
  waiting := .cons hnode (fun _ hchild => Trace.child_of_mem hnode hchild) hbelow h.waiting
  logged x hx := by
    rcases List.mem_cons.mp hx with rfl | hx
    · exact List.mem_append_right _ (List.mem_singleton_self x)
    · exact List.mem_append_left _ (h.logged x hx)
  ended x hx := by
    rcases List.mem_append.mp hx with hx | hx
    · exact (hended x hx).imp_left (List.mem_cons_of_mem _)
    · exact .inl (List.mem_singleton.mp hx ▸ List.mem_cons_self)
  settled o ho := absurd ho (Option.not_mem_none o)

/-- **Entering a node** below those that wait keeps track of the nodes. -/
theorem Tracked.descend (hv : c.trace.Valid) (hkind : c.action.kind = .property)
    (h : c.Tracked log ids ⟨stack, none, m⟩)
    (hbelow : ∀ x ∈ ids, Relation.TransGen c.trace.Child id x) :
    ∃ ids', c.Tracked (log ++ c.begun id m) ids' (c.descend id m stack) := by
  -- an outcome that is there at once is only handed over
  have hover {outcome : Outcome} (ho : outcome.Settled) :
      c.Tracked log ids (.after stack (outcome, m)) := by
    refine ⟨h.nodup, h.waiting, h.logged, h.ended, ?_⟩
    rintro o ⟨⟩
    exact ho
  cases henter : c.enter id m with
  | mk opening m₁ =>
    have hentered : c.Entered id m opening m₁ := by simpa only [henter] using c.entered id m
    cases hentered with
    | missing hnode =>
      rw [descend_of_done henter, begun_of_missing hnode, List.append_nil]
      exact ⟨ids, hover Outcome.settled_failed⟩
    | known hnode hknown =>
      rw [descend_of_done henter, begun_of_known hnode hknown, List.append_nil]
      exact ⟨ids, hover (known?_eq_some hknown).2⟩
    | terminal hnode hnew =>
      obtain ⟨hnodup, hended⟩ := h.fresh hv hkind hbelow hnode hnew
      rw [descend_of_done henter, begun_of_new hnode hnew]
      exact ⟨ids, h.finished hnode hnodup hended (Outcome.settled_succeeded _)⟩
    | unwritten hnode hnew =>
      obtain ⟨hnodup, hended⟩ := h.fresh hv hkind hbelow hnode hnew
      rw [descend_of_done henter, begun_of_new hnode hnew]
      exact ⟨ids, h.finished hnode hnodup
        (fun x hx => (hended x hx).imp_right fun hx => hx.congr rfl) Outcome.settled_failed⟩
    | @opened node mode hnode hnew hopens =>
      obtain ⟨hnodup, hended⟩ := h.fresh hv hkind hbelow hnode hnew
      rw [descend_of_opened henter, begun_of_new hnode hnew]
      refine ⟨id :: ids, h.opened hbelow hnode hnodup (fun x hx => ?_) mode⟩
      exact (hended x hx).imp_right fun hx => hx.congr (by cases hopens <;> rfl)

end Entering

/-- **A round** keeps track of the nodes whose evaluation has begun. -/
theorem Tracked.moved (hv : c.trace.Valid) (hkind : c.action.kind = .property)
    {log ids begun : List CstId} {work next : Work} (h : c.Tracked log ids work)
    (hmoved : c.Moved work begun next) : ∃ ids', c.Tracked (log ++ begun) ids' next := by
  obtain ⟨hnodup, hwaiting, hlogged, hended, hsettled⟩ := h
  cases hmoved with
  | @entered f stack child m results id rest hrest =>
    cases hwaiting with
    | @cons top under _ _ hnode hleft hbelow hwaiting =>
      have hchild : c.trace.Child id top := hleft id (hrest ▸ List.mem_cons_self)
      -- the topmost node waits with one child less
      have htop : c.Waiting (top :: under) ({ f with results, rest } :: stack) :=
        .cons hnode (fun x hx => hleft x (hrest ▸ List.mem_cons_of_mem _ hx)) hbelow hwaiting
      have hleft : c.Tracked log (top :: under) ⟨{ f with results, rest } :: stack, none, m⟩ :=
        ⟨hnodup, htop, hlogged, hended, fun o ho => absurd ho (Option.not_mem_none o)⟩
      refine hleft.descend hv hkind fun x hx => ?_
      rcases List.mem_cons.mp hx with rfl | hx
      · exact .single hchild
      · exact .head hchild (hbelow x hx)
  | @closed f stack child m =>
    cases hwaiting with
    | @cons top under _ _ hnode hleft hbelow hwaiting =>
      have ho := (c.conclude_gathered f child m).2 hsettled
      refine ⟨under, by rwa [List.append_nil], hwaiting, ?_, ?_, ?_⟩
      · intro x hx
        rw [List.append_nil]
        exact hlogged x (List.mem_cons_of_mem _ hx)
      · intro x hx
        rw [List.append_nil] at hx
        rcases hended x hx with hx | hx
        · rcases List.mem_cons.mp hx with rfl | hx
          · exact .inr ⟨f.node, hnode, _, Memo.get?_set_self _ _ _, ho⟩
          · exact .inl hx
        · exact .inr (hx.set _ ho)
      · rintro o ⟨⟩
        exact ho

/-! ## Whole evaluations -/

/-- The nodes that have been evaluated, none of them twice, all have settled outcomes, and they are
as many as there were evaluations. -/
structure Once (c : Evaluation) (m : Memo) (log : List CstId) : Prop where
  nodup : log.Nodup
  ended : ∀ id ∈ log, c.HasEnded m id
  evaluations : m.evaluations = log.length

theorem Once.empty : c.Once .empty [] :=
  ⟨.nil, by simp, rfl⟩

/-- **An evaluation** begins those of nodes that were not evaluated before, each of them once. -/
theorem Once.evaluate (hv : c.trace.Valid) (hkind : c.action.kind = .property) {m : Memo}
    {log : List CstId} (h : c.Once m log) (id : CstId) :
    c.Once (c.evaluate id m).2 (log ++ c.allBegun id m) := by
  -- nothing waits before the node is entered
  have hidle : c.Tracked log [] ⟨[], none, m⟩ :=
    ⟨h.nodup, .nil, by simp, fun x hx => .inr (h.ended x hx),
      fun o ho => absurd ho (Option.not_mem_none o)⟩
  have htracked : ∃ ids, c.Tracked (log ++ c.begun id m) ids (c.descend id m []) :=
    hidle.descend hv hkind (by simp)
  have hcount : (c.descend id m []).memo.evaluations = (log ++ c.begun id m).length := by
    rw [evaluations_descend, h.evaluations, List.length_append]
  obtain ⟨works, last, hrounds, hlast, ⟨waiting, htracked⟩, hcount⟩ :=
    exists_rounds (P := fun log work => (∃ ids, c.Tracked log ids work) ∧
      work.memo.evaluations = log.length) c.begunIn
      (fun log work next ⟨⟨ids, htracked⟩, hcount⟩ hstep =>
        ⟨htracked.moved hv hkind (moved hstep), by
          rw [evaluations_of_moved (moved hstep), hcount, List.length_append]⟩)
      (ends_dispatch hv id m) _ ⟨htracked, hcount⟩
  obtain ⟨hstack, hmemo⟩ := step_eq_inr hlast
  have hbegun : c.begunIn last = [] := by
    obtain ⟨stack, child, m'⟩ := last
    obtain rfl : stack = [] := hstack
    rfl
  have hall : log ++ c.allBegun id m = log ++ c.begun id m ++ works.flatMap c.begunIn := by
    simp [allBegun, hrounds, hbegun]
  rw [evaluate_eq_dispatch hv, ← hmemo, hall]
  refine ⟨htracked.nodup, fun x hx => (htracked.ended x hx).resolve_left ?_, hcount⟩
  -- in the end nothing waits
  have hwaiting := htracked.waiting
  rw [hstack] at hwaiting
  cases hwaiting
  exact List.not_mem_nil

/-- There are no more evaluations than nodes of the syntax tree. -/
theorem Once.evaluations_le {m : Memo} {log : List CstId} (h : c.Once m log) :
    log.length ≤ c.trace.cst.size := by
  have hindices : log.map CstId.index ⊆ List.range c.trace.cst.size := by
    intro n hn
    obtain ⟨id, hid, rfl⟩ := List.mem_map.mp hn
    obtain ⟨node, hnode, -⟩ := h.ended id hid
    exact List.mem_range.mpr (Trace.index_lt_of_cstNode? hnode)
  have hnodup : (log.map CstId.index).Nodup :=
    h.nodup.map fun a b hab => by cases a; cases b; exact congrArg CstId.mk hab
  calc log.length = (log.map CstId.index).length := (List.length_map _).symm
    _ ≤ (List.range c.trace.cst.size).length := (hnodup.subperm hindices).length_le
    _ = c.trace.cst.size := List.length_range

end Evaluation

end ParseActions
