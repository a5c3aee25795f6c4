import ParseActions.Text.Case
import ParseActions.Token.Basic
import ParseActions.Trace.Basic

/-!
# Signatures

The arguments of a rule follow from the form of its body: a sequence gives one for each factor, any
other expression a single one. An argument is shown as it is written in the grammar, and is named
for the rule or word that it stands for where there is one, and else for its place.

## Main definitions

* `Parameter`: an argument as it is shown, and its name
* `ParsingExpr.signature`: the arguments of an expression
* `Trace.matchedBody?`: the expression that decides the arguments at a step of a trace
-/

namespace ParseActions

/-- An argument of a rule. -/
structure Parameter where
  /-- The factor as it is written in the grammar. -/
  display : String
  name : String
  deriving DecidableEq

namespace Parameter

/-- The names that are bound in every body. -/
def reserved : List String :=
  ["args", "this"]

/-- The name of the argument at a place, counted from one. -/
def positional (place : Nat) : String :=
  s!"${place}"

/-- A name that an argument may have by default. -/
def usable? (name : String) : Option String :=
  if name = "" ∨ (Keyword.ofWord? name).isSome ∨ name ∈ reserved then none else some name

/-- The text with its first character mapped. -/
def mapFirst (f : Char → List Char) (text : String) : String :=
  match text.toList with
  | [] => ""
  | c :: cs => String.ofList (f c ++ cs)

/-- Whether a text consists of ASCII letters, digits and underscores. -/
def isWord (text : String) : Bool :=
  !text.isEmpty && text.all fun c => c.isAlphanum || c == '_'

/-- Numbers the names equal to a given one. -/
def numbered (name : String) : (next : Nat) → List String → List String
  | _, [] => []
  | n, x :: xs =>
    if x = name then s!"{name}_{n}" :: numbered name (n + 1) xs else x :: numbered name n xs

/-- Numbers the names that occur several times, one name after the other. -/
def distinguished (names : List String) : List String :=
  names.foldl (fun out name => if 1 < names.count name then numbered name 1 out else out) names

end Parameter

mutual

/-- A telling name for what an expression matches. -/
def ParsingExpr.argumentName? : ParsingExpr → Option String
  | .mk shape _ => shape.argumentName?

/-- A telling name for what an expression of a form matches. -/
def Shape.argumentName? : Shape → Option String
  | .apply rule => Parameter.usable? (Parameter.mapFirst Text.lowerChar rule)
  | .terminal text => if Parameter.isWord text then Parameter.usable? ("_" ++ text) else none
  | .iter inner op => do
    let name ← inner.argumentName?
    Parameter.usable? <| match op with
      | .star | .plus => name ++ "s"
      | .optional => "opt" ++ Parameter.mapFirst Text.upperChar name
  | .lookahead inner | .lex inner => inner.argumentName?.bind Parameter.usable?
  | .seq _ | .alt _ | .range .. | .category _ | .not _ => none

end

/-- The factors that bind arguments: those of nested sequences are taken one by one, and negative
lookahead binds nothing. -/
def bindingFactors : List ParsingExpr → List ParsingExpr
  | [] => []
  | .mk (.seq factors) _ :: rest => bindingFactors factors ++ bindingFactors rest
  | .mk (.not _) _ :: rest => bindingFactors rest
  | e :: rest => e :: bindingFactors rest

namespace ParsingExpr

/-- The expressions that bind the arguments of an expression. -/
def binders (e : ParsingExpr) : List ParsingExpr :=
  match e.shape with
  | .seq factors => bindingFactors factors
  | _ => [e]

/-- The arguments of an expression. -/
def signature (e : ParsingExpr) : List Parameter :=
  let names := e.binders.mapIdx fun i e => e.argumentName?.getD (Parameter.positional (i + 1))
  List.zipWith (fun e name => ⟨e.display, name⟩) e.binders (Parameter.distinguished names)

/-- Whether the expression is an alternation. -/
def isAlt (e : ParsingExpr) : Bool :=
  match e.shape with
  | .alt _ => true
  | _ => false

end ParsingExpr

namespace Trace

/-- The steps below a step that are neither white space nor hidden. -/
def shownChildren (t : Trace) (node : TraceNode) : List TraceNode :=
  (node.children.filterMap t.node?).filter fun c => !c.isWhitespace && !c.isBlackhole

/-- The expression that decides the arguments at a step that applies a rule: the body of the rule,
or, of an alternation, the alternative that matched. A rule that the grammar lacks has the body that
was tried first. -/
def matchedBody? (t : Trace) (id : TraceId) : Option ParsingExpr := do
  let node ← t.node? id
  let rule ← node.rule?
  let children := t.shownChildren node
  match t.grammar.body? rule with
  | none => children.head?.map TraceNode.expr
  | some body =>
    if body.isAlt then
      let attempts :=
        match children with
        | [only] => if only.expr.isAlt then t.shownChildren only else children
        | _ => children
      return (attempts.find? TraceNode.succeeded).elim body TraceNode.expr
    else return body

end Trace

end ParseActions
