import ParseActions.Proofs.Eval.Scopes

/-!
# Calls of methods

A method of a value is a function of the module for its type, and the value is the first argument.
Both ways to write the call evaluate the same expressions in the same order, and neither costs gas for
the name of the module. They differ in when the module is known: after the object has been evaluated,
or before. What the object evaluates to does not depend on the gas that is left, unless this is used
up.

## Main definitions

* `Value.Kind.methods?`: the module with the methods of a type
* `Expr.NamesModule`: an expression stands for a module

## Main results

* `Eval.OfSteps.same_or_exhausted`: an evaluation with more or less gas
* `Expr.eval_method_eq_function`: a method and the function of the module
-/

namespace ParseActions

/-- The module that has the methods of a type. -/
def Value.Kind.methods? : Value.Kind → Option String
  | .string => some "string"
  | .list => some "list"
  | .number => some "math"
  | .record => some "record"
  | .nil | .bool => none

/-- An expression is the name of a module, which no binding shadows. -/
def Expr.NamesModule (env : Environment) (e : Expr) : Prop :=
  ∃ span name, e = .ident span name ∧ env.isBound name = false ∧ Builtin.isModule name = true

namespace Eval

variable {names : Set String} {binds : Bool} {α : Type} {p : Eval α} {limit limit' : Nat}
  {m m' : Machine} {object : Expr} {v : Value} {module : String}

/-! ## More or less gas -/

/-- **Gas decides only whether an evaluation goes on.** In the same environment two evaluations have
the same outcome and leave the same environment, unless one of them uses up its gas. -/
theorem OfSteps.same_or_exhausted (h : OfSteps names binds p) (henv : m.env = m'.env) :
    (p limit m).1 = .error .gasExhausted ∨ (p limit' m').1 = .error .gasExhausted ∨
      (p limit m).1 = (p limit' m').1 ∧ (p limit m).2.env = (p limit' m').2.env := by
  induction h generalizing m m' with
  | lift | write => exact .inr (.inr ⟨rfl, henv⟩)
  | @look _ name _ =>
    have hget : m.env.get? name = m'.env.get? name := congrArg (Environment.get? name) henv
    exact .inr (.inr ⟨congrArg Except.ok hget, henv⟩)
  | define name v => exact .inr (.inr ⟨rfl, congrArg (Environment.define name v) henv⟩)
  | charge gas =>
    simp only [Eval.charge]
    split
    · exact .inl rfl
    · split
      · exact .inr (.inl rfl)
      · exact .inr (.inr ⟨rfl, henv⟩)
  | @bind _ _ _ p f _ _ ih ihf =>
    rw [bind_apply, bind_apply]
    have hfirst : (p limit m).1 = .error .gasExhausted ∨ (p limit' m').1 = .error .gasExhausted ∨
        (p limit m).1 = (p limit' m').1 ∧ (p limit m).2.env = (p limit' m').2.env := ih henv
    generalize p limit m = r at hfirst
    generalize p limit' m' = r' at hfirst
    obtain ⟨r, after⟩ := r
    obtain ⟨r', after'⟩ := r'
    obtain rfl | rfl | ⟨rfl, hafter⟩ := hfirst
    · exact .inl rfl
    · exact .inr (.inl rfl)
    · cases r with
      | error e => exact .inr (.inr ⟨rfl, hafter⟩)
      | ok a => exact ihf a hafter
  | @inScope _ _ p _ ih =>
    have hpush : ({ m with env := m.env.push } : Machine).env = { m' with env := m'.env.push }.env :=
      congrArg Environment.push henv
    exact (ih hpush).imp_right (Or.imp_right (And.imp_right (congrArg Environment.pop)))

/-- An expression that has a value has no other one with less gas or more. -/
theorem eq_of_eval {gas : Nat} {log : Array String} {w : Value}
    (hv : (object.eval limit' ⟨m.env, gas, log⟩).1 = .ok v) (hw : (object.eval limit m).1 = .ok w) :
    w = v := by
  have hsteps : OfSteps Set.univ false object.eval := object.ofSteps_eval (Node.all_reads_univ _)
  have hsame : (object.eval limit m).1 = .error .gasExhausted ∨
      (object.eval limit' ⟨m.env, gas, log⟩).1 = .error .gasExhausted ∨
      (object.eval limit m).1 = (object.eval limit' ⟨m.env, gas, log⟩).1 ∧ _ :=
    hsteps.same_or_exhausted rfl
  obtain h | h | ⟨h, -⟩ := hsame
  · cases hw.symm.trans h
  · cases hv.symm.trans h
  · exact Except.ok.inj (hw.symm.trans (h.trans hv))

/-! ## Names of modules -/

theorem methodModule_of_methods? (h : v.kind.methods? = some module) (method : String) :
    methodModule v method = .ok module := by
  cases v with
  | nil | bool => cases h
  | string | list | number | record => exact congrArg Except.ok (Option.some.inj h)

theorem isModule_of_methods? {kind : Value.Kind} (h : kind.methods? = some module) :
    Builtin.isModule module = true := by
  cases kind with
  | nil | bool => cases h
  | string | list | number | record =>
    obtain rfl := Option.some.inj h
    decide

/-- A name that is not bound stands for its module. -/
theorem module?_of_isModule (hbound : m.env.isBound module = false)
    (hmodule : Builtin.isModule module = true) (span : Span) (limit : Nat) :
    module? (.ident span module) limit m = (.ok (some module), m) := by
  have hget : (m.env.get? module).isSome = false := hbound
  have hlook : look module limit m = (.ok (m.env.get? module), m) := rfl
  rw [module?_ident, bind_of_ok hlook, hget, hmodule]
  rfl

/-- All other expressions are evaluated. -/
theorem module?_of_not_namesModule (h : ¬ object.NamesModule m.env) (limit : Nat) :
    module? object limit m = (.ok none, m) := by
  cases object
  case ident span name =>
    have hname : (!(m.env.get? name).isSome && Builtin.isModule name) = false := by
      rw [← Bool.not_eq_true, Bool.and_eq_true, Bool.not_eq_true']
      exact fun ⟨hbound, hmodule⟩ => h ⟨span, name, rfl, hbound, hmodule⟩
    have hlook : look name limit m = (.ok (m.env.get? name), m) := rfl
    rw [module?_ident, bind_of_ok hlook, hname]
    rfl
  all_goals rfl

/-! ## Calls -/

theorem bind_bind {β γ : Type} (p : Eval α) (f : α → Eval β) (g : β → Eval γ) :
    p >>= f >>= g = p >>= fun a => f a >>= g := by
  funext limit m
  simp only [bind_apply]
  rcases p limit m with ⟨_ | _, _⟩ <;> rfl

/-- What follows a step is the same if it is where the step gives a value. -/
theorem bind_congr_run {β : Type} {f g : α → Eval β}
    (h : ∀ a after, p limit m = (.ok a, after) → f a limit after = g a limit after) :
    (p >>= f) limit m = (p >>= g) limit m := by
  cases hrun : p limit m with
  | mk r after =>
    cases r with
    | error e => rw [bind_of_error hrun, bind_of_error hrun]
    | ok a => rw [bind_of_ok hrun, bind_of_ok hrun, h a after hrun]

theorem env_of_tick {a : Unit} (h : tick limit m = (.ok a, m')) : m'.env = m.env :=
  congrArg (·.2.env) h.symm

end Eval

open Eval

variable {object : Expr} {v : Value} {module : String} {m : Machine} {limit : Nat}

/-- A function of a module is called with the values of the arguments. -/
theorem Expr.eval_function (hbound : m.env.isBound module = false)
    (hmodule : Builtin.isModule module = true) (limit : Nat) (method : Ident) (args : List Expr)
    (span span' : Span) :
    (Expr.call span (.ident span' module) method args).eval limit m =
      (tick >>= fun _ => evalArgs args >>= callBuiltin module method.text) limit m := by
  rw [Expr.eval]
  refine bind_congr_run fun _ after htick => ?_
  rw [bind_of_ok (module?_of_isModule (env_of_tick htick ▸ hbound) hmodule span' limit)]

/-- A method is called with the values of the object and the arguments, in the module for the type of
the object. -/
theorem Expr.eval_method (hobject : ¬ object.NamesModule m.env) (limit : Nat) (method : Ident)
    (args : List Expr) (span : Span) :
    (Expr.call span object method args).eval limit m =
      (tick >>= fun _ => object.eval >>= fun v => lift (methodModule v method.text) >>= fun module =>
        evalArgs args >>= fun values => callBuiltin module method.text (v :: values)) limit m := by
  rw [Expr.eval]
  refine bind_congr_run fun _ after htick => ?_
  rw [bind_of_ok (module?_of_not_namesModule (env_of_tick htick ▸ hobject) limit)]

/-- **A method is a function of the module for its type**, whose first argument is the object. Where
the object does not stand for a module itself and has a value, with as much gas as this may take, and
where no binding shadows the module for its type, both ways to write the call have the same outcome, use
the same gas, log the same and leave the same environment. -/
theorem Expr.eval_method_eq_function (hobject : ¬ object.NamesModule m.env)
    (hvalue : ∃ limit' gas log, (object.eval limit' ⟨m.env, gas, log⟩).1 = .ok v)
    (hmethods : v.kind.methods? = some module) (hbound : m.env.isBound module = false)
    (limit : Nat) (name : String) (args : List Expr) (span span' place place' place'' : Span) :
    (Expr.call span object ⟨name, place⟩ args).eval limit m =
      (Expr.call span' (.ident place' module) ⟨name, place''⟩ (object :: args)).eval limit m := by
  obtain ⟨limit', gas, log, hvalue⟩ := hvalue
  rw [Expr.eval_method hobject, Expr.eval_function hbound (isModule_of_methods? hmethods)]
  refine bind_congr_run fun _ after htick => ?_
  rw [evalArgs, bind_bind]
  refine bind_congr_run fun w last hrun => ?_
  -- the call has used gas by now, but the object has no other value for that
  obtain rfl : w = v := eq_of_eval (m := after) (env_of_tick htick ▸ hvalue) (by rw [hrun])
  rw [methodModule_of_methods? hmethods, bind_bind]
  rfl

/-- A method of a string in a variable, whose argument logs a line. -/
theorem Expr.eval_method_eq_function_contains :
    let object : Expr := .ident default "x"
    let arg : Expr := .call default (.ident default "core") ⟨"log", default⟩ [.string default "b"]
    let m : Machine := ⟨Environment.empty.define "x" (.string "abc"), 7, #["a"]⟩
    let run := (Expr.call default object ⟨"contains", default⟩ [arg]).eval 100 m
    ¬ object.NamesModule m.env ∧
      (∃ limit' gas log, (object.eval limit' ⟨m.env, gas, log⟩).1 = .ok (.string "abc")) ∧
      (Value.string "abc").kind.methods? = some "string" ∧ m.env.isBound "string" = false ∧
      run.1 = .ok (.bool true) ∧ run.2.log = #["a", "b"] ∧ run.2.gas = 11 ∧
      run = (Expr.call default (.ident default "string") ⟨"contains", default⟩ [object, arg]).eval
        100 m := by
  have hobject : ¬ Expr.NamesModule (Environment.empty.define "x" (.string "abc"))
      (.ident default "x") := by
    rintro ⟨_, _, he, hbound, -⟩
    obtain ⟨-, rfl⟩ := Expr.ident.inj he
    cases hbound
  have hvalue : ∃ limit' gas log, ((Expr.ident default "x").eval limit'
      ⟨Environment.empty.define "x" (.string "abc"), gas, log⟩).1 = .ok (.string "abc") :=
    ⟨100, 7, #["a"], rfl⟩
  exact ⟨hobject, hvalue, rfl, rfl, rfl, rfl, rfl,
    Expr.eval_method_eq_function hobject hvalue rfl rfl 100 _ _ _ _ _ _ _⟩

end ParseActions
