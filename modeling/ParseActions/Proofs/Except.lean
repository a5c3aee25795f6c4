import Mathlib.Logic.Basic

/-!
# Results of checks

A sequence of checks succeeds when every one of them does, and its errors can be renamed check by
check.

## Main results

* `Except.bind_eq_ok`, `Except.list_forM_eq_ok`, `Except.option_forM_eq_ok`: when a sequence succeeds
* `Except.mapError_bind`, `Except.mapError_list_forM`: a sequence with other errors
-/

namespace ParseActions.Except

variable {ε ε' α β : Type}

theorem bind_eq_ok {x : Except ε α} {f : α → Except ε β} {b : β} :
    (x >>= f) = .ok b ↔ ∃ a, x = .ok a ∧ f a = .ok b := by
  cases x with
  | error e => simp [bind, Except.bind]
  | ok a => simp [bind, Except.bind]

/-- A check and what follows it both succeed. -/
theorem check_bind_eq_ok {x : Except ε Unit} {f : Unit → Except ε β} {b : β} :
    (x >>= f) = .ok b ↔ x = .ok () ∧ f () = .ok b := by
  rw [bind_eq_ok]
  exact ⟨fun ⟨(), h⟩ => h, fun h => ⟨(), h⟩⟩

theorem list_forM_eq_ok {l : List α} {f : α → Except ε Unit} :
    l.forM f = .ok () ↔ ∀ a ∈ l, f a = .ok () := by
  induction l with
  | nil => simp [pure, Except.pure]
  | cons a l ih =>
    rw [List.forM_eq_forM] at ih ⊢
    rw [List.forM_cons, check_bind_eq_ok, ih, List.forall_mem_cons]

theorem option_forM_eq_ok {o : Option α} {f : α → Except ε Unit} :
    o.forM f = .ok () ↔ ∀ a ∈ o, f a = .ok () := by
  cases o with
  | none => simp [Option.forM, pure, Except.pure]
  | some a => simp [Option.forM]

/-- What follows a check may be compared where the check succeeds. -/
theorem bind_congr_ok {x : Except ε α} {f f' : α → Except ε β}
    (h : ∀ a, x = .ok a → f a = f' a) : (x >>= f) = (x >>= f') := by
  cases hx : x with
  | error e => rfl
  | ok a => exact h a hx

section

variable (g : ε → ε')

theorem mapError_bind (x : Except ε α) (f : α → Except ε β) :
    (x >>= f).mapError g = x.mapError g >>= fun a => (f a).mapError g := by
  cases x with
  | error e => rfl
  | ok a => rfl

theorem mapError_eq_ok {x : Except ε α} {a : α} : x.mapError g = .ok a ↔ x = .ok a := by
  cases x with
  | error e => exact iff_of_false (fun h => nomatch (h : Except.error (g e) = .ok a)) nofun
  | ok b => exact ⟨fun h => congrArg _ (Except.ok.inj h), fun h => congrArg _ (Except.ok.inj h)⟩

theorem mapError_list_forM (l : List α) (f : α → Except ε Unit) :
    (l.forM f).mapError g = l.forM fun a => (f a).mapError g := by
  induction l with
  | nil => rfl
  | cons a l ih =>
    rw [List.forM_eq_forM] at ih ⊢
    rw [List.forM_cons, mapError_bind, ih, List.forM_eq_forM, List.forM_cons]

theorem mapError_option_forM (o : Option α) (f : α → Except ε Unit) :
    (o.forM f).mapError g = o.forM fun a => (f a).mapError g := by
  cases o with
  | none => rfl
  | some a => rfl

end

end ParseActions.Except
