import ParseActions.Eval.Environment
import ParseActions.Eval.Error

/-!
# Evaluation steps

An evaluation runs on a machine that holds the environment, the gas that was used and the log. It
gives a value or stops with an error; the machine is left as it is then in both cases. Each step
costs gas, and the evaluation stops when more is used than a limit allows.

## Main definitions

* `Machine`: the state of an evaluation
* `Eval`: an evaluation, under a limit of gas
* `Eval.charge`, `Eval.tick`: paying with gas
* `Eval.inScope`: running in a scope of its own
* `Eval.each`: running once for every item of a list
-/

namespace ParseActions

/-- The state of an evaluation. -/
structure Machine where
  env : Environment
  gas : Nat
  /-- The lines that were logged. -/
  log : Array String

namespace Machine

/-- The gas that a body may use unless it is said otherwise. -/
def defaultLimit : Nat := 100000

/-- The machine before an evaluation. -/
def start (env : Environment) : Machine :=
  ⟨env, 0, #[]⟩

end Machine

/-- An evaluation, given the limit of gas. -/
def Eval (α : Type) : Type :=
  (limit : Nat) → Machine → Except EvalError α × Machine

namespace Eval

instance : Monad Eval where
  pure a := fun _ m => (.ok a, m)
  bind p f := fun limit m =>
    match p limit m with
    | (.ok a, m) => f a limit m
    | (.error e, m) => (.error e, m)

/-- Stops with an error. -/
def fail {α : Type} (e : EvalError) : Eval α :=
  fun _ m => (.error e, m)

/-- A result that does not depend on the machine. -/
def lift {α : Type} (r : Except EvalError α) : Eval α :=
  fun _ m => (r, m)

/-- The environment. -/
def env : Eval Environment :=
  fun _ m => (.ok m.env, m)

/-- Changes the environment. -/
def modifyEnv (f : Environment → Environment) : Eval Unit :=
  fun _ m => (.ok (), { m with env := f m.env })

/-- Adds a line to the log. -/
def write (line : String) : Eval Unit :=
  fun _ m => (.ok (), { m with log := m.log.push line })

/-- Uses gas, and stops when the limit is passed. The gas that was used does not exceed a 64-bit
word. -/
def charge (gas : Nat) : Eval Unit :=
  fun limit m =>
    let m := { m with gas := min (m.gas + gas) Double.maxWord }
    (if limit < m.gas then .error .gasExhausted else .ok (), m)

/-- Uses the gas of one step. -/
def tick : Eval Unit :=
  charge 1

/-- Checks a footprint against the bounds. -/
def check (f : Footprint) (what : String) : Eval Footprint :=
  lift (f.check what)

/-- Checks a value against the bounds and pays for it. -/
def measured (v : Value) (what : String) : Eval Value := do
  let f ← check (.of v) what
  charge f.gas
  return v

/-- Runs in a scope of its own, which is closed also after an error. -/
def inScope {α : Type} (p : Eval α) : Eval α :=
  fun limit m =>
    let (r, after) := p limit { m with env := m.env.push }
    (r, { after with env := after.env.pop })

/-- Runs once for every item, with its index, up to the first error; the last value is the value of
all. -/
def each (run : Nat → Value → Eval Value) : (index : Nat) → (last : Value) → List Value → Eval Value
  | _, last, [], _, m => (.ok last, m)
  | i, _, item :: rest, limit, m =>
    match run i item limit m with
    | (.ok v, m) => each run (i + 1) v rest limit m
    | (.error e, m) => (.error e, m)

end Eval

end ParseActions
