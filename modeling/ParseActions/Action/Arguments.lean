import ParseActions.Action.Signature
import ParseActions.Diagnostic
import ParseActions.Text.Basic
import ParseActions.Token.Lexer

/-!
# Argument names

The arguments of an action are named by identifiers. Each name occurs once, and none is a name that
every body has anyway. An author may override the names that a rule gives its arguments. An action is
rejected when its arguments are not in order, or its body cannot be read.

## Main definitions

* `CompileError`, `CompileError.message`: why an action is rejected, and the wording
* `Arguments.isIdentifier`: whether a name is an identifier
* `Arguments.check`: the names, if they are in order
* `Arguments.resolve`: the names of a rule, with those of the author in their places
-/

namespace ParseActions

/-! ## Rejected actions -/

/-- A part of an action. -/
inductive ActionPart where
  | body
  | arguments
  deriving DecidableEq

/-- Why an action for a rule is rejected. -/
structure CompileError where
  part : ActionPart
  rule : String
  reports : Diagnostics
  deriving DecidableEq

/-- The wording, which shows the first report. -/
def CompileError.message (e : CompileError) : String :=
  let summary := e.reports.first?.elim "unknown error" Diagnostic.display
  match e.part with
  | .body => "cannot compile " ++ e.rule ++ ": " ++ summary
  | .arguments => "invalid arguments for " ++ e.rule ++ ": " ++ summary

/-! ## Names -/

namespace Arguments

/-- The name under which reports on an action are made. -/
def fileName (action rule : String) : String :=
  rule ++ "." ++ action

/-- Whether a name is read as one identifier and nothing else. -/
def isIdentifier (name : String) : Bool :=
  match Token.lex ⟨"argument", name⟩ with
  | ([⟨.identifier text, _⟩, ⟨.eof, _⟩], errors) => text == name && !errors.hasErrors
  | _ => false

/-- What is wrong with a name. -/
inductive Fault where
  | reserved
  | malformed
  | repeated

/-- What is wrong with a name that comes after others, if anything. -/
def fault? (before : List String) (name : String) : Option Fault :=
  if name ∈ Parameter.reserved then some .reserved
  else if !isIdentifier name then some .malformed
  else if name ∈ before then some .repeated
  else none

/-- The report on a name at a place. -/
def Fault.report (file header : String) (place : Nat) (name : String) : Fault → Diagnostic
  | reserved =>
    (Diagnostic.make file .invalidArgumentName ("'" ++ name ++ "' is reserved") (.point 1 place)
      header).suggesting ("'" ++ name ++ "' is always bound; pick another name")
  | malformed =>
    .make file .invalidArgumentName ("'" ++ name ++ "' is not a valid argument name")
      (.point 1 place) header
  | repeated =>
    .make file .duplicateArgumentName ("argument '" ++ name ++ "' is declared twice")
      (.point 1 place) header

/-- The reports on names that come after others. -/
def reports (file header : String) (before : List String) : List String → List Diagnostic
  | [] => []
  | name :: names =>
    let rest := reports file header (before ++ [name]) names
    match fault? before name with
    | none => rest
    | some fault => fault.report file header (before.length + 1) name :: rest

/-- Checks the names of the arguments of a rule. -/
def check (file rule : String) (args : List String) : Except CompileError Unit :=
  let errors := (reports file (", ".intercalate args) [] args).foldl Diagnostics.push .empty
  if errors.hasErrors then .error ⟨.arguments, rule, errors⟩ else .ok ()

/-- Puts the author's names in the place of the names of a rule; a name that is missing or blank
leaves the rule's. -/
def override : (names : List String) → (overrides : List (Option String)) → List String
  | [], _ => []
  | names, [] => names
  | name :: names, given :: rest =>
    ((given.map Text.trim).filter (!·.isEmpty)).getD name :: override names rest

/-- The names of the arguments of a rule under an action. -/
def resolve (action rule : String) (names : List String) (overrides : List (Option String)) :
    Except CompileError (List String) := do
  let file := fileName action rule
  if names.length < overrides.length then
    let message := rule ++ s!" takes {names.length} argument(s), got {overrides.length}"
    let report := Diagnostic.make file .tooManyArguments message (.point 1 (names.length + 1)) ""
    throw ⟨.arguments, rule, Diagnostics.empty.push report⟩
  let args := override names overrides
  check file rule args
  return args

end Arguments

end ParseActions
