import ParseActions.Proofs.Eval.Steps

/-!
# Scopes around evaluations

Every scope that an evaluation opens is closed again, however the evaluation ends. An expression leaves
all bindings as they are; a statement or block may bind names in the scope it is found in, and in no
other.

## Main results

* `Eval.OfSteps.keeps_scopes`: what steps keep of the environment
* `env_of_eval`: expressions, statements and blocks
-/

namespace ParseActions

namespace Environment

variable {env env' : Environment}

/-- Where the enclosing scopes of a scope are what they were, closing it brings back what was there
before it was opened. -/
theorem pop_of_enclosing_eq (h : env'.enclosing = env.push.enclosing) : env'.pop = env := by
  rw [pop, h]
  rfl

theorem depth_of_enclosing_eq (h : env'.enclosing = env.enclosing) : env'.depth = env.depth := by
  rw [depth, depth, scopes, scopes, h, List.length_cons, List.length_cons]

theorem eq_of_scopes (hinnermost : env'.innermost = env.innermost)
    (henclosing : env'.enclosing = env.enclosing) : env' = env := by
  obtain ⟨innermost, enclosing⟩ := env
  exact congrArg₂ mk hinnermost henclosing

end Environment

namespace Eval

variable {names : Set String} {binds : Bool} {α : Type} {p : Eval α}

/-- The enclosing scopes stay as they are, and the innermost one too unless names may be bound in
it. -/
theorem OfSteps.keeps_scopes (h : OfSteps names binds p) (limit : Nat) (m : Machine) :
    (p limit m).2.env.enclosing = m.env.enclosing ∧
      (binds = false → (p limit m).2.env.innermost = m.env.innermost) := by
  induction h generalizing m with
  | lift | charge | write | look => exact ⟨rfl, fun _ => rfl⟩
  | define => exact ⟨rfl, nofun⟩
  | @bind binds _ _ p f _ _ ih ihf =>
    obtain ⟨henclosing, hinnermost⟩ := ih m
    rw [bind_apply]
    generalize p limit m = r at henclosing hinnermost
    obtain ⟨e | a, m'⟩ := r
    · exact ⟨henclosing, hinnermost⟩
    · obtain ⟨henclosing', hinnermost'⟩ := ihf a m'
      exact ⟨henclosing'.trans henclosing,
        fun hbinds => (hinnermost' hbinds).trans (hinnermost hbinds)⟩
  | @inScope binds _ p _ ih =>
    have henv : (Eval.inScope p limit m).2.env = m.env :=
      Environment.pop_of_enclosing_eq (ih { m with env := m.env.push }).1
    rw [henv]
    exact ⟨rfl, fun _ => rfl⟩

end Eval

open Eval

/-- **Scopes are restored** however an evaluation ends: an expression leaves the environment as it was,
and a statement or block every scope but the one that it is found in. -/
theorem env_of_eval :
    (∀ (e : Expr) (limit : Nat) (m : Machine), (e.eval limit m).2.env = m.env) ∧
      (∀ (s : Stmt) (limit : Nat) (m : Machine),
        (s.eval limit m).2.env.depth = m.env.depth ∧
          (s.eval limit m).2.env.enclosing = m.env.enclosing) ∧
      ∀ (b : Block) (limit : Nat) (m : Machine),
        (b.eval limit m).2.env.depth = m.env.depth ∧
          (b.eval limit m).2.env.enclosing = m.env.enclosing := by
  refine ⟨fun e limit m => ?_, fun s limit m => ?_, fun b limit m => ?_⟩
  · have he : OfSteps Set.univ false e.eval := e.ofSteps_eval (Node.all_reads_univ _)
    obtain ⟨henclosing, hinnermost⟩ := he.keeps_scopes limit m
    exact Environment.eq_of_scopes (hinnermost rfl) henclosing
  · have hs := ((s.ofSteps_eval (Node.all_reads_univ _)).keeps_scopes limit m).1
    exact ⟨Environment.depth_of_enclosing_eq hs, hs⟩
  · have hb := ((b.ofSteps_eval (Node.all_reads_univ _)).keeps_scopes limit m).1
    exact ⟨Environment.depth_of_enclosing_eq hb, hb⟩

end ParseActions
