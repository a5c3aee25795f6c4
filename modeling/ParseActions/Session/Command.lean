import ParseActions.Diagnostic.Json
import ParseActions.Session.Basic

/-!
# Commands of a host

A host gives commands with texts and numbers as arguments, and is answered with JSON. A command that
may be refused is answered with an object that has its value or the reason of the refusal.

## Main definitions

* `Command`: what a host may ask for
* `Reply`: the answer to a command that may be refused
* `Command.run`: what a command does
-/

namespace ParseActions

/-- What a host may ask for. -/
inductive Command where
  | version
  | loadTrace (text : String)
  | addAction (name kind : String)
  | selectAction (name : String)
  | saveAction (id : TraceId) (text overrides : String)
  | actionSource (rule : String)
  | signature (id : TraceId)
  | toggleZoom (id : TraceId)
  | zoomIn (id : TraceId)
  | zoomOut (id : TraceId)
  | enterPreview (id : TraceId)
  | leavePreview
  | exitZoom

/-- Why a command is refused, with the reports on an action that cannot be read. -/
structure Refusal where
  message : String
  reports : Option Diagnostics

/-- The answer to a command that may be refused. -/
abbrev Reply := Except Refusal Json

/-- The reason of an error. -/
def SessionError.refusal (e : SessionError) : Refusal where
  message := e.message
  reports :=
    match e with
    | .compile e => some e.reports
    | _ => none

namespace Reply

/-- The answer that a result gives. -/
def ofResult {α : Type} (encode : α → Json) : Except SessionError α → Reply
  | .ok a => .ok (encode a)
  | .error e => .error e.refusal

/-- An answer as an object. -/
def toJson (reply : Reply) : Json :=
  match reply with
  | .ok value => .object [("success", .bool true), ("value", value), ("error", .null)]
  | .error refusal =>
    .object [("success", .bool false), ("value", .null),
      ("error", .object [("message", .string refusal.message),
        ("diagnostics", .option Diagnostics.toJson refusal.reports)])]

end Reply

/-- The version of the commands. -/
def version : String := "0.1.1"

/-- The names of arguments that an author gives, from their text; a blank text gives none. -/
def overridesOfText? (text : String) : Option (List (Option String)) :=
  if (Text.trimChars text.toList).isEmpty then some []
  else (Json.read? text).bind (Json.list? (Json.option? Json.text?))

/-- The settings of a text; a blank text leaves the standard ones. -/
def Config.ofText? (text : String) : Option Config :=
  if (Text.trimChars text.toList).isEmpty then some .standard
  else (Json.read? text).bind Config.ofJson?

namespace Session

/-- Adds an action whose kind is given by a word. -/
def addActionNamed (s : Session) (name kind : String) : Commanded Unit :=
  match ActionKind.ofName? kind with
  | some kind => s.addAction name kind
  | none => (.error (.invalidActionName (name ++ " (" ++ kind ++ ")")), s)

/-- Saves an action whose overrides are given by a text. -/
def saveActionText (s : Session) (id : TraceId) (text overrides : String) : Reply × Session :=
  match overridesOfText? overrides with
  | none => (.error ⟨"invalid argument overrides: ", none⟩, s)
  | some overrides =>
    let (result, s) := s.saveAction id text overrides
    (.ofResult (.string ·.name) result, s)

/-- The milliseconds until the pending refresh is due. -/
def millisecondsLeft? (s : Session) (ms : Float) : Option Float :=
  (s.scheduler.timeLeft? (Time.ofMillisecondsRounded ms)).map Time.toMilliseconds

end Session

/-- Does what a host asks for, and answers it. -/
def Command.run (s : Session) : Command → Json × Session
  | version => (.string ParseActions.version, s)
  | loadTrace text =>
    let (result, s) := s.loadText text
    ((Reply.ofResult (fun _ => .null) result).toJson, s)
  | addAction name kind =>
    let (result, s) := s.addActionNamed name kind
    ((Reply.ofResult (fun _ => .null) result).toJson, s)
  | selectAction name =>
    let (result, s) := s.selectAction name
    ((Reply.ofResult .bool result).toJson, s)
  | saveAction id text overrides =>
    let (reply, s) := s.saveActionText id text overrides
    (reply.toJson, s)
  | actionSource rule =>
    ((Reply.ofResult ActionSource.toJson (.ok (s.actionSource rule))).toJson, s)
  | signature id => ((Reply.ofResult (.list Parameter.toJson) (s.signature id)).toJson, s)
  | toggleZoom id =>
    let (changed, s) := s.toggleZoom id
    (.bool changed, s)
  | zoomIn id =>
    let (changed, s) := s.zoomIn id
    (.bool changed, s)
  | zoomOut id =>
    let (changed, s) := s.zoomOut id
    (.bool changed, s)
  | enterPreview id => (.null, s.enterPreview id)
  | leavePreview => (.null, s.leavePreview)
  | exitZoom => (.null, s.exitZoom)

end ParseActions
