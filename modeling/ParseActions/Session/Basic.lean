import ParseActions.Session.Navigation
import ParseActions.Session.Registry
import ParseActions.Session.Scheduler
import ParseActions.Walk.Basic

/-!
# Sessions

A session holds a trace, the actions that are written for it, what is shown of it, and the results
of the last walk. Commands change these and ask for a refresh; the host lets time pass, and a walk
is made when a refresh is due.

## Main definitions

* `Session`, `Session.start`
* `Session.loadTrace`, `Session.addAction`, `Session.selectAction`, `Session.saveAction`: commands
* `Session.zoomIn`, `Session.zoomOut`, `Session.enterPreview`: what is shown
* `Session.refresh`, `Session.tick`: walks
-/

namespace ParseActions

/-- The state between walks. -/
structure Session where
  config : Config
  trace : Option Trace
  registry : Registry
  navigation : Option Navigation
  scheduler : Scheduler
  /-- The results of the last walk. -/
  memo : Memo
  /-- What the editors of the active action hold that is not saved, by rule. -/
  edits : List (String × ActionSource)
  /-- The key of the node whose action was edited last, until it has a value. -/
  lastEdited : Option NodeKey
  now : Nat

/-- What a save did. -/
inductive SaveOutcome where
  | installed
  /-- The body was blank, so that the rule has none any more. -/
  | uninstalled
  /-- The arguments and the body were those that are installed. -/
  | unchanged
  deriving DecidableEq

/-- The word for what a save did. -/
def SaveOutcome.name : SaveOutcome → String
  | installed => "Installed"
  | uninstalled => "Uninstalled"
  | unchanged => "Unchanged"

/-- A command that may be refused; the session is given in both cases. -/
abbrev Commanded (α : Type) := Except SessionError α × Session

namespace Session

/-- A session in which nothing was done. -/
def start (config : Config) : Session where
  config := config
  trace := none
  registry := .empty
  navigation := none
  scheduler := .start
  memo := .empty
  edits := []
  lastEdited := none
  now := 0

instance : Inhabited Session := ⟨start .standard⟩

/-- Asks for a refresh after a delay. -/
def request (s : Session) (delay : Nat) : Session :=
  { s with scheduler := s.scheduler.request delay s.now }

/-- Asks for a refresh after a number of milliseconds. -/
def requestAfter (s : Session) (ms : Nat) : Session :=
  s.request (Time.ofMilliseconds ms)

/-- Moves the clock on. It does not go back. -/
def advance (s : Session) (now : Nat) : Session :=
  { s with now := max s.now now }

/-- Changes the settings. -/
def configure (s : Session) (config : Config) : Session :=
  { s with config := config }.request 0

/-! ## Traces -/

/-- Takes a new trace. What is shown and the results of the last walk are given up, the actions are
kept. -/
def loadTrace (s : Session) (t : Trace) : Session :=
  { s with
    trace := some t
    navigation := some (.start t.root)
    memo := .empty
    lastEdited := none }.request 0

/-- Takes a new trace from its text. -/
def loadText (s : Session) (text : String) : Commanded Unit :=
  match Trace.ofText text with
  | .error e => (.error (.trace e), s)
  | .ok t => (.ok (), s.loadTrace t)

/-- Whether there is a step in the trace. -/
def hasNode (s : Session) (id : TraceId) : Bool :=
  s.trace.any fun t => (t.node? id).isSome

/-! ## Actions -/

/-- Empties the editors. -/
def clearEdits (s : Session) : Session :=
  { s with edits := [], lastEdited := none }

/-- Adds an action and makes it active. -/
def addAction (s : Session) (name : String) (kind : ActionKind) : Commanded Unit :=
  match s.registry.add name kind with
  | .error e => (.error e, s)
  | .ok registry =>
    (.ok (), ({ s with registry := registry }.clearEdits).requestAfter s.config.selectDelay)

/-- Makes an action active, or no action if it was active. The flag tells whether one is active
then. -/
def selectAction (s : Session) (name : String) : Commanded Bool :=
  match s.registry.toggle name with
  | .error e => (.error e, s)
  | .ok (active, registry) =>
    let s := { s with registry := registry }
    let s := if active then s.clearEdits else s
    (.ok active, s.requestAfter s.config.selectDelay)

/-- Makes no action active. -/
def deselectAction (s : Session) : Session :=
  { s with registry := s.registry.deselect }.requestAfter s.config.selectDelay

/-- The arguments of the rule at a step. -/
def signature (s : Session) (id : TraceId) : Except SessionError (List Parameter) :=
  match s.trace with
  | none => .error .noTrace
  | some t =>
    if (t.node? id).isNone then .error (.unknownNode id)
    else
      match t.matchedBody? id with
      | none => .error (.notARule id)
      | some e => .ok e.signature

/-- What the editor of a rule holds: what is not saved, or else what is installed in the active
action. -/
def actionSource (s : Session) (rule : String) : ActionSource :=
  ((Keyed.find? rule s.edits).or (s.registry.active?.bind (·.source? rule))).getD .empty

/-- Keeps what the editor of a rule holds without saving it. -/
def stage (s : Session) (rule : String) (source : ActionSource) : Session :=
  { s with edits := Keyed.insert rule source s.edits }

/-- Forgets what the editor of a rule holds. -/
def unstage (s : Session) (rule : String) : Session :=
  { s with edits := Keyed.erase rule s.edits }

/-- Where an action is saved: the active action, the rule, the node of the syntax tree and the
arguments of the rule. -/
structure SavePlace where
  action : Action
  rule : String
  node : CstNode
  names : List String

/-- Where an action is saved for the rule at a step. -/
def savePlace (s : Session) (id : TraceId) : Except SessionError SavePlace := do
  let some t := s.trace | throw .noTrace
  let some node := t.node? id | throw (.unknownNode id)
  let (some rule, some cst) := (node.rule?, node.cst.bind t.cstNode?) | throw (.notARule id)
  let names := ((t.matchedBody? id).elim [] ParsingExpr.signature).map Parameter.name
  let some action := s.registry.active? | throw .noActiveAction
  return ⟨action, rule, cst, names⟩

/-- Reads an action for a place, unless it is the one that is installed there. -/
def SavePlace.compile (place : SavePlace) (text : String) (overrides : List (Option String)) :
    Except CompileError (Option RuleAction) := do
  let args ← Arguments.resolve place.action.name place.rule place.names overrides
  let fingerprint := ActionSource.fingerprint ⟨args, text⟩
  if (place.action.body? place.rule).any fun a => a.fingerprint = fingerprint then return none
  else return some (← RuleAction.compile place.action.name place.rule args text)

/-- Saves an action at a place. -/
def saveAt (s : Session) (place : SavePlace) (text : String) (overrides : List (Option String)) :
    Commanded SaveOutcome :=
  let s := { s with lastEdited := some (.of place.node place.action.name) }
  if (Text.trimChars text.toList).isEmpty then
    let s := { s with registry := s.registry.modifyActive (·.uninstall place.rule) }
    (.ok .uninstalled, (s.unstage place.rule).requestAfter s.config.saveDelay)
  else
    match place.compile text overrides with
    | .error e => (.error (.compile e), s.unstage place.rule)
    | .ok none => (.ok .unchanged, s.unstage place.rule)
    | .ok (some a) =>
      let s := { s with registry := s.registry.modifyActive (·.install a) }
      (.ok .installed, (s.stage place.rule a.source).requestAfter s.config.saveDelay)

/-- Saves an action for the rule at a step in the active action; a blank text removes the one that
is installed. A text that cannot be read leaves the installed one, and is not kept. -/
def saveAction (s : Session) (id : TraceId) (text : String) (overrides : List (Option String)) :
    Commanded SaveOutcome :=
  match s.savePlace id with
  | .error e => (.error e, s)
  | .ok place => s.saveAt place text overrides

/-! ## Navigation -/

/-- Changes what is shown by a move that tells whether it did anything, and asks for a refresh if it
did. -/
def move (s : Session) (step : Navigation → Bool × Navigation) : Bool × Session :=
  match s.navigation.map step with
  | some (true, n) => (true, { s with navigation := some n }.requestAfter s.config.zoomDelay)
  | _ => (false, s)

/-- Opens a frame for a step of the trace. -/
def zoomIn (s : Session) (id : TraceId) : Bool × Session :=
  if s.hasNode id then s.move (·.zoomIn id) else (false, s)

/-- Closes the topmost frame for a step, and those above it. -/
def zoomOut (s : Session) (id : TraceId) : Bool × Session :=
  s.move (·.zoomOut id)

/-- Closes the frame for a step, or opens one if there is none. -/
def toggleZoom (s : Session) (id : TraceId) : Bool × Session :=
  if s.navigation.any fun n => n.zoomed.contains id then s.zoomOut id else s.zoomIn id

/-- Changes what is shown, and asks for a refresh after some milliseconds, if there is a trace. -/
def navigate (s : Session) (step : Navigation → Navigation) (ms : Nat) : Session :=
  match s.navigation with
  | none => s
  | some n => { s with navigation := some (step n) }.requestAfter ms

/-- Shows a step of the trace until the preview ends. -/
def enterPreview (s : Session) (id : TraceId) : Session :=
  if s.hasNode id then s.navigate (·.enterPreview id) s.config.zoomDelay else s

/-- Ends the preview. -/
def leavePreview (s : Session) : Session :=
  s.navigate Navigation.leavePreview s.config.zoomDelay

/-- Shows the whole trace again. -/
def exitZoom (s : Session) : Session :=
  s.navigate Navigation.reset s.config.exitZoomDelay

/-! ## Walks -/

/-- The walk over a trace as the session stands. -/
def walkOf (s : Session) (t : Trace) : Walk where
  trace := t
  config := s.config
  action := s.registry.active?
  edits := s.edits
  zoomTarget := s.navigation.bind Navigation.zoomTarget?

/-- The step that is shown. -/
def focus (s : Session) (t : Trace) : TraceId :=
  s.navigation.elim t.root Navigation.focus

/-- What a refresh hands over. -/
structure Frame where
  report : WalkReport
  events : List WalkEvent

/-- Walks over what is shown. A pending request is dropped. -/
def refresh (s : Session) : Commanded Frame :=
  let s := { s with scheduler := s.scheduler.cancel.2 }
  match s.trace with
  | none => (.error .noTrace, s)
  | some t =>
    let r := (s.walkOf t).run (s.focus t) s.lastEdited
    (.ok ⟨r.report, r.events⟩, { s with memo := r.memo, lastEdited := r.lastEdited })

/-- Moves the clock on, and walks if a refresh is due. -/
def tick (s : Session) (now : Nat) : Commanded (Option Frame) :=
  let s := s.advance now
  match s.scheduler.take s.now with
  | (false, _) => (.ok none, s)
  | (true, scheduler) =>
    let (result, s) := { s with scheduler := scheduler }.refresh
    (result.map some, s)

end Session

end ParseActions
