import ParseActions.Value.Basic

/-!
# Environments

An environment is a stack of scopes, each of which binds names to values. A name means its binding
in the innermost scope that has one. There is always an outermost scope, which holds what the host
binds.

## Main definitions

* `Environment.push`, `Environment.pop`: opening and closing a scope
* `Environment.define`: binds a name in the innermost scope
* `Environment.get?`: the value of a name
* `Environment.visibleNames`: all bound names in order
-/

namespace ParseActions

/-- The bindings of one scope, in the order of the names. -/
abbrev Scope := List (String × Value)

/-- A stack of scopes. -/
structure Environment where
  innermost : Scope
  /-- The scopes around it, inner ones first. -/
  enclosing : List Scope

namespace Environment

/-- One scope without bindings. -/
def empty : Environment :=
  ⟨[], []⟩

/-- All scopes, inner ones first. -/
def scopes (env : Environment) : List Scope :=
  env.innermost :: env.enclosing

/-- Opens a scope. -/
def push (env : Environment) : Environment :=
  ⟨[], env.scopes⟩

/-- Closes the innermost scope, unless it is the only one. -/
def pop (env : Environment) : Environment :=
  match env.enclosing with
  | [] => env
  | scope :: outer => ⟨scope, outer⟩

/-- The number of scopes. -/
def depth (env : Environment) : Nat :=
  env.scopes.length

/-- Binds a name in the innermost scope. -/
def define (name : String) (value : Value) (env : Environment) : Environment :=
  { env with innermost := Keyed.insert name value env.innermost }

/-- The value of a name. -/
def get? (name : String) (env : Environment) : Option Value :=
  env.scopes.findSome? (Keyed.find? name)

/-- Whether a name has a value. -/
def isBound (name : String) (env : Environment) : Bool :=
  (env.get? name).isSome

/-- One scope with the given bindings, where the last binding of a name counts. -/
def ofBindings (bindings : List (String × Value)) : Environment :=
  bindings.foldl (fun env (name, value) => env.define name value) empty

/-- The bound names in order. -/
def visibleNames (env : Environment) : List String :=
  Keyed.keys (Keyed.ofList env.scopes.flatten)

end Environment

end ParseActions
