import ParseActions.Action.Arguments
import ParseActions.Action.Source
import ParseActions.Body.Parsed
import ParseActions.Eval.Interpreter

/-!
# Actions

An action gives the nodes of a syntax tree a meaning: it has a body for some of the rules. Under an
attribute the result of a node is kept and used again, an operation computes it each time.

The action for one rule has the names of its arguments and its body. A body is run on the results of
the children of a node, which it finds under the names of the arguments, by number, and as a list.

## Main definitions

* `RuleAction`: arguments, body and what they were read from
* `RuleAction.compile`: reading an action
* `RuleAction.environment`: what a body finds bound
* `RuleAction.run`: running a body
* `ActionKind`, `Action`
* `Action.install`, `Action.uninstall`, `Action.body?`: the bodies by rule
-/

namespace ParseActions

/-! ## The action for a rule -/

/-- The action for a rule. -/
structure RuleAction where
  rule : String
  args : List String
  body : Body
  source : ActionSource

/-- What the run of a body gives. -/
structure Run where
  result : Except EvalError Value
  /-- The lines that were logged. -/
  log : Array String
  gas : Nat

namespace RuleAction

/-- The readings that a text is given in turn after that as an expression: as a block when it starts
with a brace, and as statements. -/
def fallback (source : SourceText) : Parsed :=
  if (source.text.toList.dropWhile Text.isBlank).head? = some '\x7b' then
    let block := Parsed.block source
    if block.body.isSome then block
    else
      let statements := Parsed.statements source
      if statements.body.isSome then statements else block
  else Parsed.statements source

/-- Reads a body: as an expression, or else as statements with or without braces around. -/
def parseBody (source : SourceText) : Except Diagnostics Body :=
  let expression := Parsed.expression source
  match expression.body with
  | some body => .ok body
  | none =>
    if (Text.trimChars source.text.toList).isEmpty then .error expression.errors
    else
      let parsed := fallback source
      match parsed.body with
      | some body => .ok body
      | none => .error parsed.errors

/-- Reads the action for a rule from the names of its arguments and the text of its body. -/
def compile (action rule : String) (args : List String) (text : String) :
    Except CompileError RuleAction := do
  let file := Arguments.fileName action rule
  Arguments.check file rule args
  match parseBody ⟨file, text⟩ with
  | .ok body => return ⟨rule, args, body, ⟨args, text⟩⟩
  | .error reports => throw ⟨.body, rule, reports⟩

/-- The digest of what the action was read from. -/
def fingerprint (a : RuleAction) : Fingerprint :=
  a.source.fingerprint

/-- The bindings of a body: all children as `args`, the node as `this`, each child under its number,
and the first children under the names of the arguments, which come last and so win. -/
def bindings (a : RuleAction) (children : List Value) (this : Value) : List (String × Value) :=
  [("args", .list children), ("this", this)]
    ++ children.mapIdx (fun i v => (Parameter.positional (i + 1), v))
    ++ a.args.zip children

/-- What a body finds bound. -/
def environment (a : RuleAction) (children : List Value) (this : Value) : Environment :=
  .ofBindings (a.bindings children this)

/-- Runs the body in an environment, under a limit of gas. -/
def run (a : RuleAction) (env : Environment) (limit : Nat) : Run :=
  let (result, m) := a.body.eval limit (.start env)
  ⟨result, m.log, m.gas⟩

end RuleAction

/-! ## Bodies by rule -/

/-- How the results of an action are used again. -/
inductive ActionKind where
  /-- Computed at each use. -/
  | operation
  /-- An attribute of nodes: computed once for each node. -/
  | property
  deriving DecidableEq

namespace ActionKind

/-- The word for a kind. -/
def name : ActionKind → String
  | operation => "Operation"
  | property => "Attribute"

/-- The kind of a word. -/
def ofName? : String → Option ActionKind
  | "Operation" | "operation" => some operation
  | "Attribute" | "attribute" => some property
  | _ => none

end ActionKind

/-- An action: its bodies, in the order of their rules. -/
structure Action where
  name : String
  kind : ActionKind
  bodies : List (String × RuleAction)

namespace Action

/-- An action without bodies. -/
def new (name : String) (kind : ActionKind) : Action :=
  ⟨name, kind, []⟩

/-- Sets the body for the rule that it was read for. -/
def install (a : Action) (body : RuleAction) : Action :=
  { a with bodies := Keyed.insert body.rule body a.bodies }

/-- Removes the body for a rule. -/
def uninstall (a : Action) (rule : String) : Action :=
  { a with bodies := Keyed.erase rule a.bodies }

/-- The body for a rule. -/
def body? (a : Action) (rule : String) : Option RuleAction :=
  Keyed.find? rule a.bodies

/-- What the body for a rule was read from. -/
def source? (a : Action) (rule : String) : Option ActionSource :=
  (a.body? rule).map RuleAction.source

/-- The rules that have a body. -/
def rules (a : Action) : List String :=
  Keyed.keys a.bodies

end Action

end ParseActions
