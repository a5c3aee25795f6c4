import ParseActions.Proofs.Trace.Validity
import ParseActions.Proofs.Trace.Visit

/-!
# Visits by recursion

The visit with a stack does what the plain recursion does: each open node is finished, child by
child, before the one below it on the stack is looked at. So two visits, and what a visit meets, are
reasoned about by recursion on the levels that are left.

## Main definitions

* `Trace.visitBelow`: the visit of some children of a node
* `Visitor.noting`, `Trace.entered`: the nodes that a visit enters

## Main results

* `Trace.walk_eq_visit`: the visit with a stack is the visit by recursion
* `Trace.walk_rel`: two visitors that go the same way
* `Trace.Valid.exists_of_entered`: a visit of a valid trace enters nodes that exist
-/

namespace ParseActions

namespace Trace

variable {σ τ : Type} {t : Trace} {v : Visitor σ}

/-- Visits some children of a node, each of them and what is below it in `room` levels. -/
def visitBelow (t : Trace) (v : Visitor σ) (room : Nat) (visit : Visit) (children : List TraceId)
    (s : σ) : σ :=
  children.foldl (fun s child => t.visitNode v room ⟨child, some visit.node, visit.depth + 1⟩ s) s

/-- A node that is descended into is left after its children. -/
theorem visitNode_of_descend {room : Nat} {visit : Visit} {s s' : σ}
    (h : v.enter visit s = (.descend, s')) :
    t.visitNode v (room + 1) visit s =
      v.leave visit (t.visitBelow v room visit (t.children visit.node) s') := by
  rw [visitNode, h]
  rfl

/-- Nothing is done below a node that is skipped, or where no level is left. -/
theorem visitNode_of_not_descend {room : Nat} {visit : Visit} {s : σ}
    (h : room = 0 ∨ (v.enter visit s).1 = .skip) :
    t.visitNode v room visit s = (v.enter visit s).2 := by
  cases room with
  | zero => rfl
  | succ room =>
    have hskip := h.resolve_left (Nat.succ_ne_zero room)
    rw [visitNode]
    generalize v.enter visit s = r at hskip
    obtain ⟨descent, s'⟩ := r
    subst hskip
    rfl

/-- Nothing is done below a node that is skipped. -/
theorem visitNode_of_skip {visit : Visit} {s s' : σ} (h : v.enter visit s = (.skip, s'))
    (room : Nat) : t.visitNode v room visit s = s' := by
  rw [visitNode_of_not_descend (.inr (by rw [h])), h]

/-- **The open nodes on a stack** are finished one after the other, each by recursion. -/
theorem walkStack_eq (stack : List OpenNode) (s : σ) :
    t.walkStack v stack s =
      stack.foldl (fun s f => v.leave f.visit (t.visitBelow v f.room f.visit f.rest s)) s := by
  fun_induction walkStack t v stack s with
  | case1 s => rfl
  | case2 visit room stack s ih => exact ih
  -- the child and the node above it, on the stack as two open nodes, are one node by recursion
  | case3 visit child rest stack s next room s' hdescend ih =>
    refine Eq.trans ih ?_
    simp only [wfParam, List.foldl_cons, visitBelow, visitNode_of_descend hdescend, next]
  | case4 visit child rest stack s next room descent s' hnot hskip ih =>
    refine Eq.trans ih ?_
    have hchild : t.visitNode v room next s = s' := by
      rw [visitNode_of_not_descend, hskip]
      rw [hskip]
      cases descent with
      | skip => exact .inr rfl
      | descend =>
        cases room with
        | zero => exact .inl rfl
        | succ room => exact (hnot room rfl rfl).elim
    simp only [wfParam, List.foldl_cons, visitBelow, ← hchild, next]

/-- **The visit with a stack is the visit by recursion.** -/
theorem walk_eq_visit (start : TraceId) (s : σ) : t.walk v start s = t.visit v start s := by
  rw [walk, visit]
  split
  · cases henter : v.enter ⟨start, none, 0⟩ s with
    | mk descent s' =>
      cases descent with
      | skip => exact (visitNode_of_skip henter _).symm
      | descend =>
        rw [visitNode_of_descend henter]
        exact walkStack_eq _ s'
  · rfl

/-! ## Two visits -/

section Rel

variable {v' : Visitor τ} {R : σ → τ → Prop}
  (henter : ∀ visit s s', R s s' → (v.enter visit s).1 = (v'.enter visit s').1 ∧
    R (v.enter visit s).2 (v'.enter visit s').2)
  (hleave : ∀ visit s s', R s s' → R (v.leave visit s) (v'.leave visit s'))

include henter hleave

theorem visitNode_rel (room : Nat) (visit : Visit) {s : σ} {s' : τ} (h : R s s') :
    R (t.visitNode v room visit s) (t.visitNode v' room visit s') := by
  induction room generalizing visit s s' with
  | zero => exact (henter visit s s' h).2
  | succ room ih =>
    obtain ⟨hsame, hnext⟩ := henter visit s s' h
    cases hdescent : v.enter visit s with
    | mk descent next =>
      cases hdescent' : v'.enter visit s' with
      | mk descent' next' =>
        simp only [hdescent, hdescent'] at hsame hnext
        -- both visitors skip the node, or both go down to the same children
        subst hsame
        cases descent with
        | skip =>
          rw [visitNode_of_skip hdescent, visitNode_of_skip hdescent']
          exact hnext
        | descend =>
          rw [visitNode_of_descend hdescent, visitNode_of_descend hdescent']
          exact hleave visit _ _ (List.foldl_rel hnext fun child _ _ _ h => ih _ h)

/-- **Two visitors that go the same way** and keep a relation between their states stay related. -/
theorem walk_rel (start : TraceId) {s : σ} {s' : τ} (h : R s s') :
    R (t.walk v start s) (t.walk v' start s') := by
  rw [walk_eq_visit, walk_eq_visit, visit, visit]
  split
  · exact visitNode_rel henter hleave _ _ h
  · exact h

end Rel

/-! ## What a visit enters -/

theorem node?_isSome_iff {id : TraceId} : (t.node? id).isSome ↔ id.index < t.nodes.size := by
  rw [node?, isSome_getElem?]

/-- The children of a step exist. -/
theorem Valid.isSome_of_mem_children (h : t.Valid) {id child : TraceId}
    (hchild : child ∈ t.children id) : (t.node? child).isSome := by
  rw [Trace.children] at hchild
  cases hnode : t.node? id with
  | none =>
    rw [hnode] at hchild
    cases hchild
  | some node =>
    rw [hnode] at hchild
    exact node?_isSome_iff.mpr (h.children node (Array.mem_of_getElem? hnode) child hchild)

section Existing

variable {P : σ → Prop}
  (henter : ∀ visit s, (t.node? visit.node).isSome → P s → P (v.enter visit s).2)
  (hleave : ∀ visit s, P s → P (v.leave visit s))

include henter hleave

theorem Valid.visitNode_invariant (h : t.Valid) (room : Nat) {visit : Visit}
    (hvisit : (t.node? visit.node).isSome) {s : σ} (hs : P s) : P (t.visitNode v room visit s) := by
  induction room generalizing visit s with
  | zero => exact henter visit s hvisit hs
  | succ room ih =>
    have hnext := henter visit s hvisit hs
    cases hdescent : v.enter visit s with
    | mk descent next =>
      rw [hdescent] at hnext
      cases descent with
      | skip =>
        rw [visitNode_of_skip hdescent]
        exact hnext
      | descend =>
        rw [visitNode_of_descend hdescent]
        -- below a node the visit meets children, which exist in a valid trace
        exact hleave visit _ (List.foldlRecOn _ _ hnext fun _ hs child hchild =>
          ih (h.isSome_of_mem_children hchild) hs)

/-- What the visitor keeps when it enters steps that exist, the visit of a valid trace keeps. -/
theorem Valid.walk_invariant (h : t.Valid) (start : TraceId) {s : σ} (hs : P s) :
    P (t.walk v start s) := by
  rw [walk_eq_visit, visit]
  split
  · next hstart => exact h.visitNode_invariant henter hleave _ hstart hs
  · exact hs

end Existing

end Trace

/-- The visitor that also notes what it enters. -/
def Visitor.noting {σ : Type} (v : Visitor σ) : Visitor (σ × List Visit) where
  enter visit s := ((v.enter visit s.1).1, (v.enter visit s.1).2, s.2 ++ [visit])
  leave visit s := (v.leave visit s.1, s.2)

namespace Trace

variable {σ : Type} {t : Trace}

/-- The nodes that a visit enters, in turn. -/
def entered (t : Trace) (v : Visitor σ) (start : TraceId) (s : σ) : List Visit :=
  (t.walk v.noting start (s, [])).2

/-- Noting what is entered does not change the visit. -/
theorem walk_noting (v : Visitor σ) (start : TraceId) (s : σ) (l : List Visit) :
    (t.walk v.noting start (s, l)).1 = t.walk v start s :=
  (walk_map (f := Prod.fst) (v := v.noting) (fun _ _ => rfl) (fun _ _ => rfl) start _).symm

/-- **A visit of a valid trace** enters nodes that exist. -/
theorem Valid.exists_of_entered (h : t.Valid) (v : Visitor σ) (start : TraceId) (s : σ) :
    ∀ visit ∈ t.entered v start s, ∃ node, t.node? visit.node = some node := by
  refine h.walk_invariant (v := v.noting)
    (P := fun s => ∀ visit ∈ s.2, ∃ node, t.node? visit.node = some node) ?_ (fun _ _ hs => hs)
    start (fun _ hvisit => nomatch hvisit)
  intro visit s hvisit hs other hother
  rcases List.mem_append.mp hother with hother | hother
  · exact hs other hother
  · obtain rfl := List.mem_singleton.mp hother
    exact Option.isSome_iff_exists.mp hvisit

end Trace

end ParseActions
