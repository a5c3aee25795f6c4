import ParseActions.Trace.Visit

/-!
# Invariants of visits

What a visitor keeps when it enters or leaves a node holds after the whole visit, whichever nodes
are visited and in whatever order. A visitor that sees only a part of the state of another one, and
does the same with it, goes the same way.

## Main results

* `Trace.walk_invariant`: what enter and leave keep, the visit keeps
* `Trace.walk_map`: the visit of a visitor that sees a part of the state
-/

namespace ParseActions.Trace

variable {σ : Type} {t : Trace} {v : Visitor σ} {P : σ → Prop}

/-- What is kept by the visitor is kept on the way through a stack. -/
theorem walkStack_invariant (henter : ∀ visit s, P s → P (v.enter visit s).2)
    (hleave : ∀ visit s, P s → P (v.leave visit s)) {stack : List OpenNode} {s : σ} (hs : P s) :
    P (t.walkStack v stack s) := by
  fun_induction walkStack t v stack s with
  | case1 s => exact hs
  | case2 visit room stack s ih => exact ih (hleave visit s hs)
  | case3 visit child rest stack s next room s' hdescend ih =>
    have hnext := henter next s hs
    rw [hdescend] at hnext
    exact ih hnext
  | case4 visit child rest stack s next room descent s' _ hskip ih =>
    have hnext := henter next s hs
    rw [hskip] at hnext
    exact ih hnext

/-- **What the visitor keeps** when it enters and leaves nodes, the visit keeps. -/
theorem walk_invariant (henter : ∀ visit s, P s → P (v.enter visit s).2)
    (hleave : ∀ visit s, P s → P (v.leave visit s)) (start : TraceId) {s : σ} (hs : P s) :
    P (t.walk v start s) := by
  rw [walk]
  split
  · have hstart := henter ⟨start, none, 0⟩ s hs
    split
    · next s' hskip =>
      rw [hskip] at hstart
      exact hstart
    · next s' hdescend =>
      rw [hdescend] at hstart
      exact walkStack_invariant henter hleave hstart
  · exact hs

section Map

variable {τ : Type} {v' : Visitor τ} {f : σ → τ}
  (henter : ∀ visit s, v'.enter visit (f s) = ((v.enter visit s).1, f (v.enter visit s).2))
  (hleave : ∀ visit s, v'.leave visit (f s) = f (v.leave visit s))

include henter hleave

theorem walkStack_map (stack : List OpenNode) (s : σ) :
    t.walkStack v' stack (f s) = f (t.walkStack v stack s) := by
  fun_induction walkStack t v stack s with
  | case1 s => rw [walkStack]
  | case2 visit room stack s ih => rw [walkStack, hleave, ih]
  | case3 visit child rest stack s next room s' hdescend ih =>
    have hnext : v'.enter next (f s) = (.descend, f s') := by rw [henter, hdescend]
    rw [walkStack]
    · exact ih
    · exact hnext
  | case4 visit child rest stack s next room descent s' hnot hskip ih =>
    have hnext : v'.enter next (f s) = (descent, f s') := by rw [henter, hskip]
    rw [walkStack]
    · exact ih
    · exact descent
    · exact hnot
    · exact hnext

/-- **A visitor that sees a part of the state** of another one goes the same way. -/
theorem walk_map (start : TraceId) (s : σ) : t.walk v' start (f s) = f (t.walk v start s) := by
  rw [walk, walk, henter]
  split
  · cases hstart : v.enter ⟨start, none, 0⟩ s with
    | mk descent s' =>
      cases descent with
      | skip => rfl
      | descend => exact walkStack_map henter hleave _ s'
  · rfl

end Map

end ParseActions.Trace
