import ParseActions.Trace.Validity

/-!
# Building traces

A trace and its syntax tree are built from the leaves up. Each step makes a piece: a node of the
trace, and the nodes of the syntax tree that it hands to the node above. Pieces are numbered in the
order in which they are made and may be used several times.

## Main definitions

* `TraceBuilder`: the arenas built so far
* `TraceBuilder.Piece`: what a step makes
* `TraceBuilder.Step`, `TraceBuilder.run`: building programs
* `TraceBuilder.finish`: the trace, if it is valid
-/

namespace ParseActions

/-- The input, the grammar and the arenas built so far. -/
structure TraceBuilder where
  input : String
  grammar : Grammar
  nodes : Array TraceNode
  cst : Array CstNode

namespace TraceBuilder

/-- A node of the trace and the nodes of the syntax tree that it binds above. -/
structure Piece where
  node : TraceId
  bindings : List CstId
  deriving DecidableEq, Inhabited

/-- A builder for an input, with nothing built. -/
def start (input : String) : TraceBuilder :=
  ⟨input, .empty, #[], #[]⟩

/-- Adds a rule to the grammar. -/
def rule (b : TraceBuilder) (name : String) (body : ParsingExpr) : TraceBuilder :=
  { b with grammar := b.grammar.define name body }

/-- The interval of a piece. -/
def intervalOf (b : TraceBuilder) (p : Piece) : Interval :=
  (b.nodes[p.node.index]?.map TraceNode.interval).getD ⟨0, 0⟩

/-- Whether the step of a piece succeeded. -/
def succeeded (b : TraceBuilder) (p : Piece) : Bool :=
  b.nodes[p.node.index]?.any TraceNode.succeeded

/-- The expressions of pieces. -/
def exprsOf (b : TraceBuilder) (ps : List Piece) : List ParsingExpr :=
  ps.filterMap fun p => b.nodes[p.node.index]?.map TraceNode.expr

/-- The interval that covers the pieces that succeeded, or an empty one. -/
def spanOf (b : TraceBuilder) (ps : List Piece) (fallback : Nat) : Interval :=
  match (ps.filter b.succeeded).map b.intervalOf with
  | [] => .point fallback
  | i :: is => is.foldl Interval.cover i

/-- Adds a step. -/
def pushNode (b : TraceBuilder) (expr : ParsingExpr) (interval : Interval)
    (children : List TraceId) (succeeded : Bool) (cst : Option CstId) : TraceId × TraceBuilder :=
  (⟨b.nodes.size⟩,
    { b with
      nodes := b.nodes.push ⟨expr, interval, children, succeeded, none, expr.display, cst⟩ })

/-- Adds a node of the syntax tree. -/
def pushCst (b : TraceBuilder) (kind : CstKind) (interval : Interval) (children : List CstId) :
    CstId × TraceBuilder :=
  (⟨b.cst.size⟩, { b with cst := b.cst.push ⟨kind, interval, children⟩ })

/-- Adds a step with a node of the syntax tree of its own, which it binds. -/
def pushBoth (b : TraceBuilder) (kind : CstKind) (expr : ParsingExpr) (interval : Interval)
    (below : List CstId) (children : List TraceId) : Piece × TraceBuilder :=
  let (cst, b) := b.pushCst kind interval below
  let (node, b) := b.pushNode expr interval children true (some cst)
  (⟨node, [cst]⟩, b)

/-- A text that matched at a place. -/
def terminal (b : TraceBuilder) (place : Nat) (text : String) : Piece × TraceBuilder :=
  b.pushBoth .terminal (.of (.terminal text)) ⟨place, place + text.utf8ByteSize⟩ [] []

/-- A character that matched a range at a place. -/
def range (b : TraceBuilder) (place : Nat) (first last : Char) : Piece × TraceBuilder :=
  let width := ((Text.dropBytes? place b.input.toList).bind List.head?).elim 0 Char.utf8Size
  b.pushBoth .terminal (.of (.range first last)) ⟨place, place + width⟩ [] []

/-- A rule whose body matched as a piece. -/
def apply (b : TraceBuilder) (rule : String) (body : Piece) : Piece × TraceBuilder :=
  b.pushBoth (.nonterminal rule) (.of (.apply rule)) (b.intervalOf body) body.bindings [body.node]

/-- A sequence of pieces, which binds what they bind. -/
def seq (b : TraceBuilder) (parts : List Piece) : Piece × TraceBuilder :=
  let (node, b) := b.pushNode (.of (.seq (b.exprsOf parts))) (b.spanOf parts 0)
    (parts.map Piece.node) true none
  (⟨node, parts.flatMap Piece.bindings⟩, b)

/-- An alternation over attempts. The first one that succeeded is the match; if there is none, the
alternation fails where the first one did. -/
def alt (b : TraceBuilder) (attempts : List Piece) : Piece × TraceBuilder :=
  let expr := ParsingExpr.of (.alt (b.exprsOf attempts))
  let children := attempts.map Piece.node
  match attempts.find? b.succeeded with
  | some winner =>
    let (node, b) := b.pushNode expr (b.intervalOf winner) children true none
    (⟨node, winner.bindings⟩, b)
  | none =>
    let place := attempts.head?.elim 0 fun p => (b.intervalOf p).start
    let (node, b) := b.pushNode expr (.point place) children false none
    (⟨node, []⟩, b)

/-- A repetition from a place on, which binds one node for all it matched. -/
def iter (b : TraceBuilder) (op : Repetition) (inner : ParsingExpr) (place : Nat)
    (parts : List Piece) : Piece × TraceBuilder :=
  b.pushBoth .iter (.of (.iter inner op)) (b.spanOf parts place) (parts.flatMap Piece.bindings)
    (parts.map Piece.node)

/-- An attempt that failed, which binds nothing. -/
def failed (b : TraceBuilder) (expr : ParsingExpr) (place : Nat) : Piece × TraceBuilder :=
  let (node, b) := b.pushNode expr (.point place) [] false none
  (⟨node, []⟩, b)

/-- White space that was skipped, which binds nothing. -/
def spaces (b : TraceBuilder) (i : Interval) : Piece × TraceBuilder :=
  let (node, b) := b.pushNode (.of (.apply "spaces")) i [] true none
  (⟨node, []⟩, b)

/-- Changes the step of a piece. -/
def modify (b : TraceBuilder) (p : Piece) (f : TraceNode → TraceNode) : TraceBuilder :=
  { b with nodes := b.nodes.modify p.node.index f }

/-- Marks the step of a piece as replaced. -/
def redirect (b : TraceBuilder) (p : Piece) (other : TraceId) : TraceBuilder :=
  b.modify p fun node => { node with replacedBy := some other }

/-- Says where the expression of a piece was written. -/
def sourced (b : TraceBuilder) (p : Piece) (place : Interval) : TraceBuilder :=
  b.modify p fun node => { node with expr := node.expr.writtenAt place }

/-- The trace with the step of a piece as its root, before validation. -/
def toTrace (b : TraceBuilder) (root : Piece) : Trace :=
  ⟨b.input, b.grammar, b.nodes, b.cst, root.node⟩

/-- The trace with the step of a piece as its root, if it is valid. -/
def finish (b : TraceBuilder) (root : Piece) : Except TraceError Trace :=
  (b.toTrace root).validated

/-! ## Programs -/

/-- A step of a building program, which refers to earlier pieces by number. -/
inductive Step where
  | terminal (place : Nat) (text : String)
  | range (place : Nat) (first last : Char)
  | apply (rule : String) (body : Nat)
  | seq (parts : List Nat)
  | alt (attempts : List Nat)
  | iter (op : Repetition) (inner : ParsingExpr) (place : Nat) (parts : List Nat)
  | failed (expr : ParsingExpr) (place : Nat)
  | spaces (interval : Interval)
  | sourced (piece : Nat) (place : Interval)
  | redirect (piece : Nat) (other : TraceId)

/-- The pieces that numbers refer to, if all exist. -/
def pick? (pieces : Array Piece) (numbers : List Nat) : Option (List Piece) :=
  numbers.mapM fun n => pieces[n]?

/-- Makes the piece of a step. There is none if the step refers to a piece that was not made. -/
def step? (b : TraceBuilder) (pieces : Array Piece) : Step → Option (Piece × TraceBuilder)
  | .terminal place text => some (b.terminal place text)
  | .range place first last => some (b.range place first last)
  | .apply rule body => pieces[body]?.map (b.apply rule)
  | .seq parts => (pick? pieces parts).map b.seq
  | .alt attempts => (pick? pieces attempts).map b.alt
  | .iter op inner place parts => (pick? pieces parts).map (b.iter op inner place)
  | .failed expr place => some (b.failed expr place)
  | .spaces i => some (b.spaces i)
  | .sourced piece place => pieces[piece]?.map fun p => (p, b.sourced p place)
  | .redirect piece other => pieces[piece]?.map fun p => (p, b.redirect p other)

/-- Makes the pieces of all steps, after those that were made before. -/
def run? (b : TraceBuilder) (pieces : Array Piece) : List Step → Option (Array Piece × TraceBuilder)
  | [] => some (pieces, b)
  | step :: steps =>
    match b.step? pieces step with
    | none => none
    | some (p, b) => run? b (pieces.push p) steps

end TraceBuilder

end ParseActions
