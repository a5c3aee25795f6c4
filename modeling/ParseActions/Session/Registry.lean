import ParseActions.Action.Basic
import ParseActions.Trace.Validity

/-!
# Registries of actions

The actions of a session in the order in which they were added. At most one of them is active. What a
session cannot do with its actions or its trace is refused with an error.

## Main definitions

* `SessionError`, `SessionError.message`: why a session refuses a command, and the wording
* `Registry`: the actions and the place of the active one
* `Registry.add`: a new action, which becomes active
* `Registry.toggle`: makes an action active, or no action if it was
-/

namespace ParseActions

/-! ## Errors of commands -/

/-- Why a command is refused. -/
inductive SessionError where
  | duplicateAction (name : String)
  | invalidActionName (name : String)
  | unknownAction (name : String)
  | noActiveAction
  | noTrace
  | unknownNode (id : TraceId)
  /-- The step does not apply a rule, or has no node in the syntax tree. -/
  | notARule (id : TraceId)
  | compile (e : CompileError)
  | trace (e : TraceError)

namespace SessionError

/-- The wording. -/
def message : SessionError → String
  | duplicateAction name => "an action named '" ++ name ++ "' already exists"
  | invalidActionName name => "'" ++ name ++ "' is not a valid action name"
  | unknownAction name => "no action named '" ++ name ++ "'"
  | noActiveAction => "no action is selected"
  | noTrace => "no trace is loaded"
  | unknownNode id => "trace node " ++ id.display ++ " does not exist"
  | notARule id => "trace node " ++ id.display ++ " is not a rule application with a syntax tree"
  | compile e => e.message
  | trace e => e.message

end SessionError

/-! ## Actions -/

/-- The actions of a session. -/
structure Registry where
  actions : List Action
  /-- The place of the active action. -/
  activeIndex : Option Nat

namespace Registry

/-- No actions. -/
def empty : Registry :=
  ⟨[], none⟩

/-- The names of the actions. -/
def names (r : Registry) : List String :=
  r.actions.map Action.name

/-- The place of the action of a name. -/
def position? (r : Registry) (name : String) : Option Nat :=
  r.actions.findIdx? fun a => a.name == name

/-- The action of a name. -/
def get? (r : Registry) (name : String) : Option Action :=
  r.actions.find? fun a => a.name == name

/-- The active action. -/
def active? (r : Registry) : Option Action :=
  r.activeIndex.bind fun i => r.actions[i]?

/-- Changes the active action. -/
def modifyActive (r : Registry) (f : Action → Action) : Registry :=
  match r.activeIndex with
  | none => r
  | some i => { r with actions := r.actions.modify i f }

/-- Adds an action and makes it active. Blanks around the name do not count, and no other action may
have it. -/
def add (r : Registry) (name : String) (kind : ActionKind) : Except SessionError Registry :=
  let name := Text.trim name
  if name.isEmpty then .error (.invalidActionName name)
  else if (r.position? name).isSome then .error (.duplicateAction name)
  else .ok ⟨r.actions ++ [.new name kind], some r.actions.length⟩

/-- Makes an action active, or no action if it was active. The flag tells whether one is active
then. -/
def toggle (r : Registry) (name : String) : Except SessionError (Bool × Registry) :=
  match r.position? name with
  | none => .error (.unknownAction name)
  | some i =>
    if r.activeIndex = some i then .ok (false, { r with activeIndex := none })
    else .ok (true, { r with activeIndex := some i })

/-- Makes no action active. -/
def deselect (r : Registry) : Registry :=
  { r with activeIndex := none }

end Registry

end ParseActions
