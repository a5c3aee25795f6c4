import Mathlib.Tactic.Tauto
import ParseActions.Proofs.Body.Block
import ParseActions.Proofs.Body.Node

/-!
# How deep bodies nest

A step from a node to one of its parts is counted where the part is an expression in a place of its
own, or the operand of an operator before it. Such steps come one below another at most 32 times. The
other steps are not counted: to the operands of an operator between them, to the object of an access,
a call or an index, from one condition to the next after `else`, and to blocks and their statements.

## Main definitions

* `Node.nested`, `Node.joined`: the parts of a node that are counted, and the others
* `Node.Reach`: the nodes below a node, with the number of counted steps down to them
* `Node.Fits`: a bound on the counted steps below a node

## Main results

* `Derives.fits`: what is derived has no more counted steps than are allowed
* `Parsed.counted_le`: at most 32 steps are counted on the way to a node of a body
-/

namespace ParseActions

open Parse

/-! ## Steps that are counted -/

namespace Expr

/-- The parts of an expression in a place of their own, and the operand of an operator before it. -/
def nested : Expr → List Node
  | template _ parts => parts.flatMap Fragment.nodes
  | list _ items => items.map .expr
  | record _ fields => fields.map fun | .mk _ value => .expr value
  | call _ _ _ args => args.map .expr
  | index _ _ key => [.expr key]
  | unary _ _ operand => [.expr operand]
  | paren _ inner => [.expr inner]
  | _ => []

/-- The other parts of an expression. -/
def joined : Expr → List Node
  | record _ fields => fields.map fun | .mk name _ => .ident name
  | member _ object field => [.expr object, .ident field]
  | call _ object method _ => [.expr object, .ident method]
  | index _ object _ => [.expr object]
  | binary _ _ left right | coalesce _ left right => [.expr left, .expr right]
  | conditional branches => [.conditional branches]
  | _ => []

end Expr

namespace Stmt

/-- The expressions of a statement. -/
def nested : Stmt → List Node
  | bind _ _ value | leaveWith _ value | throw _ value | expr value => [.expr value]
  | loop _ _ _ items _ => [.expr items]
  | assert _ condition _ => [.expr condition]
  | conditional _ | leave _ => []

/-- The other parts of a statement. -/
def joined : Stmt → List Node
  | bind _ name _ => [.ident name]
  | conditional branches => [.conditional branches]
  | loop _ item index _ body => .ident item :: (index.toList.map .ident ++ [.block body])
  | leave _ | leaveWith .. | assert .. | throw .. | expr _ => []

end Stmt

namespace Node

/-- The parts of a node that are counted: expressions in a place of their own, and the operand of an
operator before it. -/
def nested : Node → List Node
  | expr value => value.nested
  | conditional (.mk _ condition _ _) => [.expr condition]
  | stmt s => s.nested
  | ident _ | block _ => []

/-- The parts of a node that are not counted. -/
def joined : Node → List Node
  | expr value => value.joined
  | conditional (.mk _ _ thenBlock otherwise) => .block thenBlock :: otherwise.nodes
  | stmt s => s.joined
  | ident _ => []
  | block b => b.stmts.map stmt

variable {n m : Node} {d k : Nat}

/-- The names and the values of fields are their nodes. -/
theorem mem_nodes_fields (span : Span) (fields : List Field) :
    m ∈ fields.flatMap Field.nodes ↔
      m ∈ (Expr.record span fields).nested ∨ m ∈ (Expr.record span fields).joined := by
  induction fields with
  | nil => simp [Expr.nested, Expr.joined]
  | cons field fields ih =>
    obtain ⟨name, value⟩ := field
    simp only [Expr.nested, Expr.joined] at ih
    simp only [List.flatMap_cons, List.mem_append, ih, Field.nodes, Expr.nested, Expr.joined,
      List.map_cons, List.mem_cons, List.not_mem_nil, or_false]
    tauto

/-- Each part is counted or it is not. -/
theorem mem_parts_iff : m ∈ n.parts ↔ m ∈ n.nested ∨ m ∈ n.joined := by
  cases n with
  | ident => simp [parts, nested, joined]
  | expr e =>
    cases e with
    | record span fields => exact mem_nodes_fields span fields
    | call =>
      simp only [parts, Expr.parts, nested, Expr.nested, joined, Expr.joined, List.mem_cons]
      tauto
    | _ => simp [parts, Expr.parts, nested, Expr.nested, joined, Expr.joined, or_comm]
  | conditional c =>
    cases c
    simp [parts, Conditional.parts, nested, joined]
  | stmt s =>
    cases s with
    | loop =>
      simp only [parts, Stmt.parts, nested, Stmt.nested, joined, Stmt.joined, List.mem_cons,
        List.mem_append]
      tauto
    | _ => simp [parts, Stmt.parts, nested, Stmt.nested, joined, Stmt.joined, or_comm]
  | block => simp [parts, nested, joined]

/-- The nodes below a node, with the number of counted steps on a way down to them. -/
inductive Reach : Node → Nat → Node → Prop where
  | refl {n : Node} : Reach n 0 n
  | nested {n m l : Node} {c : Nat} (hm : m ∈ n.nested) (h : Reach m c l) : Reach n (c + 1) l
  | joined {n m l : Node} {c : Nat} (hm : m ∈ n.joined) (h : Reach m c l) : Reach n c l

/-- Fewer than `d` steps are counted on every way down from a node. -/
def Fits (d : Nat) (n : Node) : Prop :=
  ∀ c m, n.Reach c m → c < d

theorem Fits.pos (h : n.Fits d) : 0 < d :=
  h 0 n .refl

/-- What the parts of a node have to be for it. -/
theorem Fits.of_parts (hnested : ∀ m ∈ n.nested, m.Fits d)
    (hjoined : ∀ m ∈ n.joined, m.Fits (d + 1)) : n.Fits (d + 1) := by
  intro c m hreach
  cases hreach with
  | refl => exact Nat.succ_pos d
  | nested hm h => exact Nat.succ_lt_succ (hnested _ hm _ _ h)
  | joined hm h => exact hjoined _ hm _ _ h

theorem Fits.succ (h : n.Fits d) : n.Fits (d + 1) :=
  fun c m hreach => Nat.lt_succ_of_lt (h c m hreach)

theorem fits_ident (name : Ident) (hd : 0 < d) : (Node.ident name).Fits d := by
  intro c m hreach
  cases hreach with
  | refl => exact hd
  | nested hm | joined hm => cases hm

end Node

/-! ## Derivations -/

/-- How many counted steps the nodes of a phrase leave room for: items are counted themselves. -/
def Phrase.room : Phrase → Nat → Nat
  | item _, d | items _, d | listing _, d | holes, d => d
  | _, d => d + 1

namespace Derives

open Node (Fits)

variable {g : Phrase} {d : Nat} {ts : List Token} {a : g.Tree}

theorem fits_apply {left right : Expr} (o : Operator) (hleft : (Node.expr left).Fits (d + 1))
    (hright : (Node.expr right).Fits (d + 1)) : (Node.expr (o.apply left right)).Fits (d + 1) := by
  have hboth : ∀ m ∈ [Node.expr left, .expr right], m.Fits (d + 1) :=
    List.forall_mem_cons.mpr ⟨hleft, List.forall_mem_singleton.mpr hright⟩
  cases o <;> exact .of_parts (List.forall_mem_nil _) hboth

/-- **What is derived has no more counted steps** than are allowed. -/
theorem fits (h : Derives g d ts a) (honto : ∀ n ∈ g.onto, n.Fits (d + 1)) :
    ∀ n ∈ g.nodes a, n.Fits (g.room d) := by
  have hnil : ∀ {d : Nat}, ∀ n ∈ ([] : List Node), n.Fits d := List.forall_mem_nil _
  have hname : ∀ {d : Nat} (name : Ident), (Node.ident name).Fits (d + 1) :=
    fun name => Node.fits_ident name (Nat.succ_pos _)
  -- operators and suffixes are put on top of the tree so far, so that has to fit as well (`honto`)
  induction h with
  | expression _ ih | uncompared _ ih | plain _ ih => exact ih hnil
  | chain _ _ _ ih ih' | suffixed _ _ ih ih' => exact ih' (ih hnil)
  | tailNil | suffixNil => exact honto
  | tailCons _ _ _ _ _ ih ih' =>
    have hleft := honto _ List.mem_cons_self
    have hright := ih hnil _ List.mem_cons_self
    exact ih' (List.forall_mem_singleton.mpr (fits_apply _ hleft hright))
  | compared _ _ _ _ _ ih ih' =>
    have hleft := ih hnil _ List.mem_cons_self
    have hright := ih' hnil _ List.mem_cons_self
    exact List.forall_mem_singleton.mpr (fits_apply _ hleft hright)
  | unary _ _ ih => exact List.forall_mem_singleton.mpr (.of_parts (ih hnil) hnil)
  | member _ _ _ ih =>
    refine ih (List.forall_mem_singleton.mpr (.of_parts hnil ?_))
    exact List.forall_mem_cons.mpr ⟨honto _ List.mem_cons_self,
      List.forall_mem_singleton.mpr (hname _)⟩
  | call _ _ _ _ _ _ ih ih' =>
    refine ih' (List.forall_mem_singleton.mpr (.of_parts ?_ ?_))
    · rw [Node.nested, Expr.nested, ← nodes_expressions]
      exact ih hnil
    · exact List.forall_mem_cons.mpr ⟨honto _ List.mem_cons_self,
        List.forall_mem_singleton.mpr (hname _)⟩
  | index _ _ _ _ _ _ ih ih' =>
    exact ih' (List.forall_mem_singleton.mpr (.of_parts (ih hnil) honto))
  | number | string | true | false | nil | ident | leave =>
    exact List.forall_mem_singleton.mpr (.of_parts hnil hnil)
  | template _ _ ih =>
    refine List.forall_mem_singleton.mpr (.of_parts ?_ hnil)
    rw [Node.nested, Expr.nested, List.flatMap_append, nodes_textPart]
    exact ih hnil
  | list _ _ _ ih =>
    refine List.forall_mem_singleton.mpr (.of_parts ?_ hnil)
    rw [Node.nested, Expr.nested, ← nodes_expressions]
    exact ih hnil
  | record _ _ _ ih =>
    have hfields := ih hnil
    refine List.forall_mem_singleton.mpr (.of_parts (fun m hm => ?_) fun m hm => ?_)
    · have hpart := Node.mem_parts_iff.mpr (.inl hm)
      exact hfields m hpart
    · have hpart := Node.mem_parts_iff.mpr (.inr hm)
      exact (hfields m hpart).succ
  | paren _ _ _ _ _ ih => exact List.forall_mem_singleton.mpr (.of_parts (ih hnil) hnil)
  | choice _ ih | conditional _ ih =>
    exact List.forall_mem_singleton.mpr (.of_parts hnil (ih hnil))
  | field _ _ _ _ ih =>
    have hvalue := ih hnil
    have hd := (hvalue _ List.mem_cons_self).pos
    exact List.forall_mem_cons.mpr ⟨Node.fits_ident _ hd, hvalue⟩
  | itemsLast _ _ ih | itemsTrailing _ _ _ _ ih =>
    simp only [Phrase.nodes, List.flatMap_singleton]
    exact ih hnil
  | itemsCons _ _ _ _ _ ih ih' =>
    simp only [Phrase.nodes, List.flatMap_cons]
    exact List.forall_mem_append.mpr ⟨ih hnil, ih' hnil⟩
  | listingNil | nothing | statementsNil => exact hnil
  | listing _ _ ih | elseIf _ _ _ ih | elseBlock _ _ _ ih => exact ih hnil
  | holesLast _ _ _ _ ih =>
    rw [nodes_last_hole]
    exact ih hnil
  | holesCons _ _ _ _ _ ih ih' =>
    rw [nodes_hole]
    exact List.forall_mem_cons.mpr ⟨ih hnil _ List.mem_cons_self, ih' hnil⟩
  | branches _ _ _ _ ih ih' ih'' =>
    refine List.forall_mem_singleton.mpr (.of_parts (ih hnil) ?_)
    exact List.forall_mem_cons.mpr ⟨ih' hnil _ List.mem_cons_self, ih'' hnil⟩
  | block _ _ _ _ ih => exact List.forall_mem_singleton.mpr (.of_parts hnil (ih hnil))
  | statementsCons _ _ _ _ ih ih' =>
    exact List.forall_mem_cons.mpr ⟨ih hnil _ List.mem_cons_self, ih' hnil⟩
  | bind _ _ _ _ _ ih =>
    exact List.forall_mem_singleton.mpr
      (.of_parts (ih hnil) (List.forall_mem_singleton.mpr (hname _)))
  | loop _ _ _ _ _ _ ih ih' =>
    refine List.forall_mem_singleton.mpr (.of_parts (ih hnil) ?_)
    refine List.forall_mem_cons.mpr ⟨hname _, List.forall_mem_append.mpr ⟨?_, ih' hnil⟩⟩
    exact List.forall_mem_map.mpr fun name _ => hname name
  | leaveWith _ _ ih | assertion _ _ _ ih | throwing _ _ ih | evaluation _ _ ih =>
    exact List.forall_mem_singleton.mpr (.of_parts (ih hnil) hnil)

end Derives

namespace Parsed

/-- The counted steps in a body. -/
theorem fits_of_body (source : SourceText) :
    ∀ parsed ∈ [expression source, block source, statements source],
      ∀ body, parsed.body = some body → body.node.Fits (maxDepth + 1) := by
  have hfits : ∀ {ts : List Token} {body : Body}, Derived ts body →
      body.node.Fits (maxDepth + 1) := by
    intro ts body h
    cases body with
    | expr e =>
      have he : Derives .expression maxDepth ts e := h
      exact (he.fits (List.forall_mem_nil _) _ List.mem_cons_self).succ
    | block b =>
      have hb : Derives .block maxDepth ts b := h
      exact hb.fits (List.forall_mem_nil _) _ List.mem_cons_self
  intro parsed hparsed body hbody
  obtain ⟨-, h | h⟩ := derived_of_body source parsed hparsed body hbody
  · exact hfits h
  · exact hfits h

/-- **At most 32 steps are counted** on the way down to a node of a body. -/
theorem counted_le (source : SourceText) :
    ∀ parsed ∈ [expression source, block source, statements source],
      ∀ body, parsed.body = some body → ∀ c n, body.node.Reach c n → c ≤ 32 :=
  fun parsed hparsed body hbody c n hreach =>
    Nat.le_of_lt_succ (fits_of_body source parsed hparsed body hbody c n hreach)

end Parsed

end ParseActions
