import ParseActions.Json.Reader
import ParseActions.Json.Decode
import ParseActions.Trace.Validity

/-!
# Traces as JSON

Parsing expressions and the kinds of nodes are choices with a tag `type`. What is missing may be
left out: the place of an expression, a replacement, a link to the syntax tree, and, when a trace is
read, the children of nodes, the grammar and the whole syntax tree.

## Main definitions

* `Trace.toJson`, `Trace.ofJson?`: the document of a trace, and back
* `Trace.ofText`: a valid trace from its text
-/

namespace ParseActions

open Json

/-! ## Intervals and places -/

/-- An interval as an object. -/
def Interval.toJson (i : Interval) : Json :=
  .object [("start", .nat i.start), ("end", .nat i.stop)]

/-- Reads an interval. -/
def Interval.ofJson? (json : Json) : Option Interval := do
  let [start, stop] ← members? ["start", "end"] json | none
  return ⟨← start.required nat?, ← stop.required nat?⟩

/-- The number of a step. -/
def TraceId.toJson (id : TraceId) : Json :=
  .nat id.index

/-- Reads the number of a step. -/
def TraceId.ofJson? (json : Json) : Option TraceId :=
  (natUpTo? 0xFFFFFFFF json).map TraceId.mk

/-- The number of a node of the syntax tree. -/
def CstId.toJson (id : CstId) : Json :=
  .nat id.index

/-- Reads the number of a node of the syntax tree. -/
def CstId.ofJson? (json : Json) : Option CstId :=
  (natUpTo? 0xFFFFFFFF json).map CstId.mk

/-! ## Parsing expressions -/

/-- The repetition of the given mark. -/
def Repetition.ofSymbol? : String → Option Repetition
  | "*" => some star
  | "+" => some plus
  | "?" => some optional
  | _ => none

mutual

/-- A parsing expression as an object. -/
def ParsingExpr.toJson : ParsingExpr → Json
  | .mk shape source =>
    .object (("kind", shape.toJson) :: optionalField "source" Interval.toJson source)

/-- The form of a parsing expression as an object with a tag. -/
def Shape.toJson : Shape → Json
  | .apply rule => .object [("type", .string "apply"), ("rule_name", .string rule)]
  | .seq factors => .object [("type", .string "seq"), ("factors", .array (exprsToJson factors))]
  | .alt terms => .object [("type", .string "alt"), ("terms", .array (exprsToJson terms))]
  | .iter inner op =>
    .object [("type", .string "iter"), ("expr", inner.toJson), ("op", .string op.symbol)]
  | .terminal text => .object [("type", .string "terminal"), ("text", .string text)]
  | .range first last =>
    .object [("type", .string "range"), ("from", .string first.toString),
      ("to", .string last.toString)]
  | .category name => .object [("type", .string "unicode_char"), ("category", .string name)]
  | .not inner => .object [("type", .string "not"), ("expr", inner.toJson)]
  | .lookahead inner => .object [("type", .string "lookahead"), ("expr", inner.toJson)]
  | .lex inner => .object [("type", .string "lex"), ("expr", inner.toJson)]

/-- Parsing expressions as documents. -/
def exprsToJson : List ParsingExpr → List Json
  | [] => []
  | e :: rest => e.toJson :: exprsToJson rest

end

/-- The tags of the forms of parsing expressions. -/
def Shape.tags : List String :=
  ["apply", "seq", "alt", "iter", "terminal", "range", "unicode_char", "not", "lookahead", "lex"]

/-- Reads the form of a parsing expression, which may be a part of another; the parts of it are read
by `inner?`. -/
def Shape.ofJson? (isPart : Bool) (inner? : Decoder ParsingExpr) (json : Json) :
    Option Shape := do
  guard json.isUsable
  let (tag, json) ← tagged? "type" (if isPart then tags else []) json
  let one {α : Type} (name : String) (item : Decoder α) : Option α := do
    let [member] ← members? [name] json | none
    member.required item
  match tag with
  | "apply" => .apply <$> one "rule_name" text?
  | "seq" => .seq <$> one "factors" (list? inner?)
  | "alt" => .alt <$> one "terms" (list? inner?)
  | "iter" =>
    let [inner, op] ← members? ["expr", "op"] json | none
    return .iter (← inner.required inner?)
      (← op.required fun json => (named? json).bind Repetition.ofSymbol?)
  | "terminal" => .terminal <$> one "text" text?
  | "range" =>
    let [first, last] ← members? ["from", "to"] json | none
    return .range (← first.required char?) (← last.required char?)
  | "unicode_char" => .category <$> one "category" text?
  | "not" => .not <$> one "expr" inner?
  | "lookahead" => .lookahead <$> one "expr" inner?
  | "lex" => .lex <$> one "expr" inner?
  | _ => none

/-- Reads a parsing expression, which may be a part of another, with at most `levels` levels. -/
def ParsingExpr.ofJsonWithin? : (levels : Nat) → (isPart : Bool) → Decoder ParsingExpr
  | 0, _, _ => none
  | levels + 1, isPart, json => do
    let [shape, source] ← members? ["kind", "source"] json | none
    return .mk (← shape.required (Shape.ofJson? isPart (ofJsonWithin? levels true)))
      (← source.orElse (option? Interval.ofJson?) none)

/-- Reads a parsing expression. -/
def ParsingExpr.ofJson? : Decoder ParsingExpr :=
  ofJsonWithin? maxLevels false

namespace Grammar

/-- A grammar as an object. -/
def toJson (grammar : Grammar) : Json :=
  .object [("rule_bodies", .object (grammar.bodies.map fun (name, e) => (name, e.toJson)))]

/-- Reads a grammar. -/
def ofJson? (json : Json) : Option Grammar := do
  let [bodies] ← members? ["rule_bodies"] json | none
  return ⟨Keyed.ofList (← bodies.required (entries? ParsingExpr.ofJson?))⟩

end Grammar

/-! ## Nodes -/

namespace CstKind

/-- A kind of node as an object with a tag. -/
def toJson : CstKind → Json
  | nonterminal rule => .object [("type", .string "nonterminal"), ("rule_name", .string rule)]
  | terminal => .object [("type", .string "terminal")]
  | iter => .object [("type", .string "iter")]

/-- Whether a choice without contents is well formed: an object, or an array that has ended. -/
def isBare : Json → Bool
  | .array items => items.isEmpty
  | _ => true

/-- Reads a kind of node. -/
def ofJson? (json : Json) : Option CstKind := do
  guard json.isUsable
  let (tag, json) ← tagged? "type" [] json
  match tag with
  | "nonterminal" =>
    let [rule] ← members? ["rule_name"] json | none
    return .nonterminal (← rule.required text?)
  | "terminal" => if isBare json then some .terminal else none
  | "iter" => if isBare json then some .iter else none
  | _ => none

end CstKind

namespace CstNode

/-- A node of the syntax tree as an object. -/
def toJson (node : CstNode) : Json :=
  .object [("kind", node.kind.toJson), ("interval", node.interval.toJson),
    ("children", .list CstId.toJson node.children)]

/-- Reads a node of the syntax tree. -/
def ofJson? (json : Json) : Option CstNode := do
  let [kind, interval, children] ← members? ["kind", "interval", "children"] json | none
  return ⟨← kind.required CstKind.ofJson?, ← interval.required Interval.ofJson?,
    ← children.orElse (list? CstId.ofJson?) []⟩

end CstNode

namespace TraceNode

/-- A step as an object. -/
def toJson (node : TraceNode) : Json :=
  .object <|
    [("expr", node.expr.toJson), ("interval", node.interval.toJson),
      ("children", .list TraceId.toJson node.children), ("succeeded", .bool node.succeeded)]
    ++ optionalField "replaced_by" TraceId.toJson node.replacedBy
    ++ [("display_string", .string node.display)]
    ++ optionalField "cst" CstId.toJson node.cst

/-- Reads a step. -/
def ofJson? (json : Json) : Option TraceNode := do
  let [expr, interval, children, succeeded, replacedBy, display, cst] ←
    members? ["expr", "interval", "children", "succeeded", "replaced_by", "display_string", "cst"]
      json | none
  return {
    expr := ← expr.required ParsingExpr.ofJson?
    interval := ← interval.required Interval.ofJson?
    children := ← children.orElse (list? TraceId.ofJson?) []
    succeeded := ← succeeded.required bool?
    replacedBy := ← replacedBy.orElse (option? TraceId.ofJson?) none
    display := ← display.required text?
    cst := ← cst.orElse (option? CstId.ofJson?) none }

end TraceNode

namespace Trace

/-- A trace as an object. -/
def toJson (t : Trace) : Json :=
  .object [("input", .string t.input), ("grammar", t.grammar.toJson),
    ("nodes", .list TraceNode.toJson t.nodes.toList), ("cst", .list CstNode.toJson t.cst.toList),
    ("root", t.root.toJson)]

/-- Reads a trace. -/
def ofJson? (json : Json) : Option Trace := do
  let [input, grammar, nodes, cst, root] ←
    members? ["input", "grammar", "nodes", "cst", "root"] json | none
  return {
    input := ← input.required text?
    grammar := ← grammar.orElse Grammar.ofJson? .empty
    nodes := (← nodes.required (list? TraceNode.ofJson?)).toArray
    cst := (← cst.orElse (list? CstNode.ofJson?) []).toArray
    root := ← root.required TraceId.ofJson? }

/-- A valid trace from its document. -/
def ofJson (json : Json) : Except TraceError Trace :=
  match ofJson? json with
  | none => .error .unreadable
  | some t => t.validated

/-- A valid trace from its text. -/
def ofText (text : String) : Except TraceError Trace :=
  match read? text with
  | none => .error .unreadable
  | some json => ofJson json

end Trace

end ParseActions
