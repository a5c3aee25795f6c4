import Mathlib.Logic.Relation
import ParseActions.Proofs.Body.Derivation

/-!
# The nodes of a body

Names, expressions, conditionals, statements and blocks are the nodes of the tree that a body is.
The parts of a node are the nodes right below it, in the order in which they are written.

## Main definitions

* `Node`, `Node.span`, `Node.parts`
* `Node.Below`, `Node.All`: the nodes of the tree from a node down, and a property of all expressions
  among them
* `Body.node`: the node that a body is
* `Phrase.nodes`: the nodes of what is derived
-/

namespace ParseActions

/-- A node of a body. -/
inductive Node where
  | ident (name : Ident)
  | expr (value : Expr)
  | conditional (branches : Conditional)
  | stmt (stmt : Stmt)
  | block (block : Block)

/-- The span of a statement. -/
def Stmt.span : Stmt → Span
  | bind span .. | loop span .. | leave span | leaveWith span _ | assert span .. | throw span _ =>
    span
  | conditional branches => branches.span
  | expr value => value.span

/-- The span of a node. -/
def Node.span : Node → Span
  | ident name => name.span
  | expr value => value.span
  | conditional branches => branches.span
  | stmt s => s.span
  | block b => b.span

/-! ## Parts -/

/-- The nodes of a piece of a string. -/
def Fragment.nodes : Fragment → List Node
  | text _ => []
  | hole value => [.expr value]

/-- The nodes of a field. -/
def Field.nodes : Field → List Node
  | mk name value => [.ident name, .expr value]

/-- The nodes of what follows the first block of a conditional. -/
def Otherwise.nodes : Otherwise → List Node
  | nothing => []
  | elseIf branches => [.conditional branches]
  | block b => [.block b]

/-- The nodes right below an expression. -/
def Expr.parts : Expr → List Node
  | number .. | string .. | bool .. | nil _ | ident .. => []
  | template _ parts => parts.flatMap Fragment.nodes
  | list _ items => items.map .expr
  | record _ fields => fields.flatMap Field.nodes
  | member _ object field => [.expr object, .ident field]
  | call _ object method args => .expr object :: .ident method :: args.map .expr
  | index _ object key => [.expr object, .expr key]
  | binary _ _ left right | coalesce _ left right => [.expr left, .expr right]
  | unary _ _ operand => [.expr operand]
  | conditional branches => [.conditional branches]
  | paren _ inner => [.expr inner]

/-- The nodes right below a conditional. -/
def Conditional.parts : Conditional → List Node
  | mk _ condition thenBlock otherwise => .expr condition :: .block thenBlock :: otherwise.nodes

/-- The nodes right below a statement. -/
def Stmt.parts : Stmt → List Node
  | bind _ name value => [.ident name, .expr value]
  | conditional branches => [.conditional branches]
  | loop _ item index items body =>
    .ident item :: (index.toList.map .ident ++ [.expr items, .block body])
  | leave _ => []
  | leaveWith _ value | throw _ value | expr value => [.expr value]
  | assert _ condition _ => [.expr condition]

namespace Node

/-- The nodes right below a node, in the order in which they are written. -/
def parts : Node → List Node
  | ident _ => []
  | expr value => value.parts
  | conditional branches => branches.parts
  | stmt s => s.parts
  | block b => b.stmts.map stmt

/-- The nodes of the tree from a node down. -/
abbrev Below : Node → Node → Prop :=
  Relation.ReflTransGen fun n m => m ∈ n.parts

end Node

/-- Every expression from a node down has a property. -/
def Node.All (P : Expr → Prop) (n : Node) : Prop :=
  ∀ e, n.Below (.expr e) → P e

theorem Node.All.part {P : Expr → Prop} {n m : Node} (h : n.All P) (hm : m ∈ n.parts) : m.All P :=
  fun e he => h e (.head hm he)

theorem Node.All.self {P : Expr → Prop} {e : Expr} (h : (Node.expr e).All P) : P e :=
  h e .refl

/-- A property of all expressions below the parts of a node is one of all expressions from the node
down, if the node has it, too. -/
theorem Node.all_of_parts {P : Expr → Prop} {n : Node} (hself : ∀ e, n = .expr e → P e)
    (hparts : ∀ m ∈ n.parts, m.All P) : n.All P := by
  intro e hbelow
  obtain rfl | ⟨m, hm, hrest⟩ := hbelow.cases_head
  · exact hself e rfl
  · exact hparts m hm e hrest

theorem Node.All.of_parts {P : Expr → Prop} {e : Expr} (h : P e) (hparts : ∀ m ∈ e.parts, m.All P) :
    (Node.expr e).All P :=
  Node.all_of_parts (fun _ he => Node.expr.inj he ▸ h) hparts

/-- The node that a body is. -/
def Body.node : Body → Node
  | expr value => .expr value
  | block b => .block b

/-! ## Nodes of what is derived -/

/-- The nodes of an item. -/
def Item.nodes : (i : Item) → i.Tree → List Node
  | expression => fun e => [.expr e]
  | field => Field.nodes

namespace Phrase

/-- The nodes of a tree. -/
def nodes : (g : Phrase) → g.Tree → List Node
  | level _ | tail _ _ | suffix _ => fun e => [.expr e]
  | item i => i.nodes
  | items i | listing i => fun as => as.flatMap i.nodes
  | holes => fun parts => parts.flatMap Fragment.nodes
  | conditional => fun c => [.conditional c]
  | otherwise => Otherwise.nodes
  | statement => fun s => [.stmt s]
  | statements => fun stmts => stmts.map .stmt
  | block => fun b => [.block b]

/-- The node that a phrase goes on with. -/
def onto : Phrase → List Node
  | tail _ left => [.expr left]
  | suffix object => [.expr object]
  | _ => []

end Phrase

theorem nodes_textPart (text : String) :
    (Productions.textPart text).flatMap Fragment.nodes = [] := by
  rw [Productions.textPart]
  split <;> rfl

theorem nodes_last_hole (e : Expr) (text : String) :
    Phrase.holes.nodes (.hole e :: Productions.textPart text) = [.expr e] := by
  change List.flatMap _ _ = _
  rw [List.flatMap_cons, nodes_textPart]
  rfl

theorem nodes_hole (e : Expr) (text : String) (parts : List Fragment) :
    Phrase.holes.nodes (.hole e :: Productions.textPart text ++ parts) =
      .expr e :: Phrase.holes.nodes parts := by
  change List.flatMap _ _ = _
  rw [List.flatMap_append, List.flatMap_cons, nodes_textPart]
  rfl

theorem nodes_expressions (es : List Expr) :
    es.flatMap Item.expression.nodes = es.map .expr :=
  List.map_eq_flatMap.symm

end ParseActions
