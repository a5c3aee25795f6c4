import Mathlib.Data.Set.Basic
import ParseActions.Proofs.Body.Node
import ParseActions.Proofs.Eval.Operations

/-!
# What evaluations are made of

The evaluation of every node is put together from a few kinds of steps: results of operations, gas that
is used, lines that are logged, names that are looked up or bound, and scopes around other steps. What
these keep, every evaluation keeps.

## Main definitions

* `Eval.look`: looking a name up
* `Eval.OfSteps`: evaluations that are made of such steps
* `Expr.Reads`: an expression looks up names of a set only

## Main results

* `Expr.ofSteps_eval`, `Stmt.ofSteps_eval`, `Block.ofSteps_eval`, `Body.ofSteps_evalOpen`: all
  evaluations are; those of expressions bind names only in scopes of their own
-/

namespace ParseActions

namespace Eval

/-- Looks a name up. -/
def look (name : String) : Eval (Option Value) :=
  fun _ m => (.ok (m.env.get? name), m)

/-- Evaluations that are made of steps and look up only names of a set. The innermost scope gets
bindings only where `binds` is true. -/
inductive OfSteps (names : Set String) : (binds : Bool) → {α : Type} → Eval α → Prop where
  | lift {binds : Bool} {α : Type} {r : Except EvalError α} (h : r ≠ .error .gasExhausted) :
      OfSteps names binds (Eval.lift r)
  | bind {binds : Bool} {α β : Type} {p : Eval α} {f : α → Eval β} (h : OfSteps names binds p)
      (hf : ∀ a, OfSteps names binds (f a)) : OfSteps names binds (p >>= f)
  | charge {binds : Bool} (gas : Nat) : OfSteps names binds (Eval.charge gas)
  | write {binds : Bool} (line : String) : OfSteps names binds (Eval.write line)
  | look {binds : Bool} {name : String} (h : name ∈ names) : OfSteps names binds (Eval.look name)
  | define (name : String) (v : Value) : OfSteps names true (modifyEnv (·.define name v))
  | inScope {binds : Bool} {α : Type} {p : Eval α} (h : OfSteps names true p) :
      OfSteps names binds (Eval.inScope p)

theorem bind_apply {α β : Type} (p : Eval α) (f : α → Eval β) (limit : Nat) (m : Machine) :
    (p >>= f) limit m =
      match p limit m with
      | (.ok a, m) => f a limit m
      | (.error e, m) => (.error e, m) :=
  rfl

theorem bind_of_ok {α β : Type} {p : Eval α} {limit : Nat} {m m' : Machine} {a : α}
    (h : p limit m = (.ok a, m')) (f : α → Eval β) : (p >>= f) limit m = f a limit m' := by
  rw [bind_apply, h]

theorem bind_of_error {α β : Type} {p : Eval α} {limit : Nat} {m m' : Machine} {e : EvalError}
    (h : p limit m = (.error e, m')) (f : α → Eval β) :
    (p >>= f) limit m = (.error e, m') := by
  rw [bind_apply, h]

theorem each_cons (run : Nat → Value → Eval Value) (i : Nat) (last item : Value)
    (items : List Value) :
    each run i last (item :: items) = run i item >>= fun v => each run (i + 1) v items := by
  funext limit m
  rw [each, bind_apply]
  rcases run i item limit m with ⟨_ | _, _⟩ <;> rfl

/-- A variable is looked up, and its value is paid for. -/
theorem variableValue_eq (name : String) :
    variableValue name = (do
      let o ← look name
      o.elim (fail (.undefinedVariable name)) fun v => do
        charge (Footprint.of v).gas
        return v) := by
  funext limit m
  have henv : Eval.env limit m = (.ok m.env, m) := rfl
  have hlook : look name limit m = (.ok (m.env.get? name), m) := rfl
  rw [variableValue, bind_of_ok henv, bind_of_ok hlook]
  cases m.env.get? name with
  | none => rfl
  | some v => rfl

/-- A name is that of a module unless it is bound. -/
theorem module?_ident (span : Span) (name : String) :
    module? (.ident span name) = (do
      let o ← look name
      if !o.isSome && Builtin.isModule name then return some name else return none) :=
  rfl

namespace OfSteps

variable {names : Set String} {binds : Bool} {α : Type}

theorem pure (a : α) : OfSteps names binds (Pure.pure a : Eval α) :=
  .lift (r := .ok a) nofun

theorem fail {e : EvalError} (h : e ≠ .gasExhausted) :
    OfSteps names binds (Eval.fail e : Eval α) :=
  .lift (r := .error e) fun he => h (Except.error.inj he)

theorem result {r : Except EvalError α} (h : NoExit r) : OfSteps names binds (Eval.lift r) :=
  .lift h.ne_gasExhausted

theorem tick : OfSteps names binds Eval.tick :=
  .charge 1

theorem check (f : Footprint) (what : String) : OfSteps names binds (Eval.check f what) :=
  .result (noExit_check f what)

theorem measured (v : Value) (what : String) : OfSteps names binds (Eval.measured v what) :=
  (check _ what).bind fun _ => (charge _).bind fun _ => pure v

theorem variableValue {name : String} (h : name ∈ names) :
    OfSteps names binds (Eval.variableValue name) := by
  rw [variableValue_eq]
  refine (look h).bind fun o => ?_
  cases o with
  | none => exact fail nofun
  | some v => exact (charge _).bind fun _ => pure v

theorem callBuiltin (module function : String) (args : List Value) :
    OfSteps names binds (Eval.callBuiltin module function args) := by
  rw [Eval.callBuiltin]
  split
  · exact (charge _).bind fun _ => (write _).bind fun _ => pure _
  · exact (result (Builtin.noExit_call module function args)).bind fun _ => measured _ _

theorem each {run : Nat → Value → Eval Value} (h : ∀ i v, OfSteps names binds (run i v)) (i : Nat)
    (last : Value) (items : List Value) : OfSteps names binds (Eval.each run i last items) := by
  induction items generalizing i last with
  | nil => exact pure last
  | cons item items ih =>
    rw [each_cons]
    exact (h i item).bind fun v => ih (i + 1) v

end OfSteps

end Eval

/-! ## Expressions and statements -/

/-- An expression is no name, or one of a set. -/
def Expr.Reads (names : Set String) : Expr → Prop
  | ident _ name => name ∈ names
  | _ => True

variable {names : Set String}

open Eval

theorem Eval.OfSteps.module? {binds : Bool} {object : Expr} (h : object.Reads names) :
    OfSteps names binds (Eval.module? object) := by
  cases object
  case ident span name =>
    rw [module?_ident]
    refine (look h).bind fun o => ?_
    split
    · exact pure _
    · exact pure _
  all_goals exact pure none

/-- An operator other than `and` and `or` has the values of both operands. -/
theorem Expr.eval_binary {op : BinaryOp} (hand : op ≠ .and) (hor : op ≠ .or) (span : Span)
    (left right : Expr) :
    (Expr.binary span op left right).eval = (do
      tick
      let l ← left.eval
      let r ← right.eval
      let v ← lift (Eval.binary op l r)
      if op = .add then measured v "sum" else return v) := by
  rw [Expr.eval]
  · exact hand
  · exact hor

mutual

theorem Expr.ofSteps_eval {binds : Bool} : (e : Expr) → (Node.expr e).All (Expr.Reads names) →
    OfSteps names binds e.eval
  | .number .., _ | .string .., _ | .bool .., _ | .nil _, _ => by
    rw [Expr.eval]
    exact .bind .tick fun _ => .pure _
  | .template _ parts, h => by
    rw [Expr.eval]
    refine .bind .tick fun _ => .bind (ofSteps_evalFragments "" parts ?_) fun _ => ?_
    · exact fun part hpart n hn => h.part (List.mem_flatMap_of_mem hpart hn)
    · exact .bind (.charge _) fun _ => .pure _
  | .list _ items, h => by
    rw [Expr.eval]
    refine .bind .tick fun _ => .bind (ofSteps_evalItems _ items ?_) fun _ => ?_
    · exact fun e he => h.part (List.mem_map_of_mem he)
    · exact .bind (.charge _) fun _ => .pure _
  | .record _ fields, h => by
    rw [Expr.eval]
    refine .bind .tick fun _ => .bind (ofSteps_evalFields _ _ fields ?_) fun _ => ?_
    · exact fun field hfield n hn => h.part (List.mem_flatMap_of_mem hfield hn)
    · exact .bind (.charge _) fun _ => .pure _
  | .ident _ name, h => by
    rw [Expr.eval]
    exact .bind .tick fun _ => .variableValue h.self
  | .member _ object field, h => by
    rw [Expr.eval]
    have hobject : (Node.expr object).All (Expr.Reads names) := h.part (.head _)
    refine .bind .tick fun _ => .bind (.module? hobject.self) fun o => ?_
    cases o with
    | none => exact .bind (Expr.ofSteps_eval object hobject) fun v => .result (noExit_member _ _)
    | some module =>
      dsimp only
      split
      · exact .pure _
      · exact .fail nofun
  | .call _ object method args, h => by
    rw [Expr.eval]
    have hobject : (Node.expr object).All (Expr.Reads names) := h.part (.head _)
    have hargs : OfSteps names binds (evalArgs args) :=
      ofSteps_evalArgs args fun e he => h.part (.tail _ (.tail _ (List.mem_map_of_mem he)))
    refine .bind .tick fun _ => .bind (.module? hobject.self) fun o => ?_
    cases o with
    | none =>
      refine .bind (Expr.ofSteps_eval object hobject) fun v => ?_
      refine .bind (.result (noExit_methodModule _ _)) fun _ => ?_
      exact .bind hargs fun _ => .callBuiltin _ _ _
    | some module => exact .bind hargs fun _ => .callBuiltin _ _ _
  | .index _ object key, h => by
    rw [Expr.eval]
    refine .bind .tick fun _ => .bind (Expr.ofSteps_eval object (h.part (.head _)))
      fun _ => ?_
    exact .bind (Expr.ofSteps_eval key (h.part (.tail _ (.head _)))) fun _ =>
      .result (noExit_index _ _)
  | .binary _ op left right, h => by
    have hleft : OfSteps names binds left.eval := Expr.ofSteps_eval left (h.part (.head _))
    have hright : OfSteps names binds right.eval :=
      Expr.ofSteps_eval right (h.part (.tail _ (.head _)))
    -- `and` and `or` have equations of their own: they may leave the right operand out
    by_cases hand : op = .and
    · subst hand
      rw [Expr.eval]
      refine .bind .tick fun _ => .bind hleft fun _ => ?_
      split
      · exact .bind hright fun _ => .pure _
      · exact .pure _
    · by_cases hor : op = .or
      · subst hor
        rw [Expr.eval]
        refine .bind .tick fun _ => .bind hleft fun _ => ?_
        split
        · exact .pure _
        · exact .bind hright fun _ => .pure _
      · rw [Expr.eval_binary hand hor]
        refine .bind .tick fun _ => .bind hleft fun _ => .bind hright fun _ => ?_
        refine .bind (.result (noExit_binary _ _ _)) fun _ => ?_
        split
        · exact .measured _ _
        · exact .pure _
  | .unary _ op operand, h => by
    rw [Expr.eval]
    refine .bind .tick fun _ => .bind (Expr.ofSteps_eval operand (h.part (.head _))) fun _ => ?_
    exact .result (noExit_unary _ _)
  | .coalesce _ left right, h => by
    rw [Expr.eval]
    refine .bind .tick fun _ => .bind (Expr.ofSteps_eval left (h.part (.head _))) fun _ => ?_
    split
    · exact Expr.ofSteps_eval right (h.part (.tail _ (.head _)))
    · exact .pure _
  | .conditional branches, h => by
    rw [Expr.eval]
    exact .bind .tick fun _ => Conditional.ofSteps_eval branches (h.part (.head _))
  | .paren _ inner, h => by
    rw [Expr.eval]
    exact .bind .tick fun _ => Expr.ofSteps_eval inner (h.part (.head _))

theorem ofSteps_evalFragments {binds : Bool} (out : String) : (parts : List Fragment) →
    (∀ part ∈ parts, ∀ n ∈ part.nodes, n.All (Expr.Reads names)) →
    OfSteps names binds (evalFragments out parts)
  | [], _ => by
    rw [evalFragments]
    exact .pure _
  | .text s :: rest, h => by
    rw [evalFragments]
    exact ofSteps_evalFragments _ rest (List.forall_mem_cons.mp h).2
  | .hole e :: rest, h => by
    obtain ⟨he, hrest⟩ := List.forall_mem_cons.mp h
    rw [evalFragments]
    refine .bind (Expr.ofSteps_eval e (he _ (.head _))) fun _ => ?_
    exact .bind (.check _ _) fun _ => ofSteps_evalFragments _ rest hrest

theorem ofSteps_evalItems {binds : Bool} (size : Footprint) : (items : List Expr) →
    (∀ e ∈ items, (Node.expr e).All (Expr.Reads names)) →
    OfSteps names binds (evalItems size items)
  | [], _ => by
    rw [evalItems]
    exact .pure _
  | e :: rest, h => by
    obtain ⟨he, hrest⟩ := List.forall_mem_cons.mp h
    rw [evalItems]
    refine .bind (Expr.ofSteps_eval e he) fun _ => .bind (.check _ _) fun size => ?_
    exact .bind (ofSteps_evalItems size rest hrest) fun _ => .pure _

theorem ofSteps_evalFields {binds : Bool} (size : Footprint) (entries : List (String × Value)) :
    (fields : List Field) →
    (∀ field ∈ fields, ∀ n ∈ field.nodes, n.All (Expr.Reads names)) →
    OfSteps names binds (evalFields size entries fields)
  | [], _ => by
    rw [evalFields]
    exact .pure _
  | .mk name e :: rest, h => by
    obtain ⟨he, hrest⟩ := List.forall_mem_cons.mp h
    rw [evalFields]
    refine .bind (Expr.ofSteps_eval e (he _ (.tail _ (.head _)))) fun _ => ?_
    exact .bind (.check _ _) fun size => ofSteps_evalFields size _ rest hrest

theorem ofSteps_evalArgs {binds : Bool} : (args : List Expr) →
    (∀ e ∈ args, (Node.expr e).All (Expr.Reads names)) → OfSteps names binds (evalArgs args)
  | [], _ => by
    rw [evalArgs]
    exact .pure _
  | e :: rest, h => by
    obtain ⟨he, hrest⟩ := List.forall_mem_cons.mp h
    rw [evalArgs]
    exact .bind (Expr.ofSteps_eval e he) fun _ => .bind (ofSteps_evalArgs rest hrest) fun _ => .pure _

theorem Conditional.ofSteps_eval {binds : Bool} : (branches : Conditional) →
    (Node.conditional branches).All (Expr.Reads names) → OfSteps names binds branches.eval
  | .mk _ condition thenBlock otherwise, h => by
    rw [Conditional.eval.eq_def]
    refine .bind (Expr.ofSteps_eval condition (h.part (.head _))) fun _ => ?_
    split
    · exact .inScope (Block.ofSteps_eval thenBlock (h.part (.tail _ (.head _))))
    · have hother : ∀ n ∈ otherwise.nodes, n.All (Expr.Reads names) :=
        fun n hn => h.part (.tail _ (.tail _ hn))
      match otherwise with
      | .nothing => exact .pure _
      | .elseIf branches => exact Conditional.ofSteps_eval branches (hother _ (.head _))
      | .block b => exact .inScope (Block.ofSteps_eval b (hother _ (.head _)))

theorem Stmt.ofSteps_eval : (s : Stmt) → (Node.stmt s).All (Expr.Reads names) →
    OfSteps names true s.eval
  | .bind _ name value, h => by
    rw [Stmt.eval]
    refine .bind .tick fun _ => .bind (Expr.ofSteps_eval value (h.part (.tail _ (.head _)))) fun _ => ?_
    exact .bind (.define _ _) fun _ => .pure _
  | .conditional branches, h => by
    rw [Stmt.eval]
    exact .bind .tick fun _ => Conditional.ofSteps_eval branches (h.part (.head _))
  | .loop _ item index items body, h => by
    have hitems : OfSteps names true items.eval :=
      Expr.ofSteps_eval items (h.part (.tail _ (List.mem_append_right _ (.head _))))
    have hbody : OfSteps names true body.eval :=
      Block.ofSteps_eval body (h.part (.tail _ (List.mem_append_right _ (.tail _ (.head _)))))
    rw [Stmt.eval]
    refine .bind .tick fun _ => .bind hitems fun _ => ?_
    refine .bind (.result (noExit_loopItems _)) fun _ => .each (fun i v => ?_) 0 _ _
    refine .bind .tick fun _ => .inScope (.bind (.define _ _) fun _ => ?_)
    cases index with
    | none => exact hbody
    | some index => exact .bind (.define _ _) fun _ => hbody
  | .leave _, _ => by
    rw [Stmt.eval]
    exact .bind .tick fun _ => .fail nofun
  | .leaveWith _ value, h => by
    rw [Stmt.eval]
    refine .bind .tick fun _ => .bind (Expr.ofSteps_eval value (h.part (.head _))) fun _ => ?_
    exact .fail nofun
  | .assert _ condition message, h => by
    rw [Stmt.eval]
    refine .bind .tick fun _ => .bind (Expr.ofSteps_eval condition (h.part (.head _))) fun _ => ?_
    split
    · exact .pure _
    · exact .fail nofun
  | .throw _ value, h => by
    rw [Stmt.eval]
    refine .bind .tick fun _ => .bind (Expr.ofSteps_eval value (h.part (.head _))) fun _ => ?_
    exact .fail nofun
  | .expr value, h => by
    rw [Stmt.eval]
    exact .bind .tick fun _ => Expr.ofSteps_eval value (h.part (.head _))

theorem Block.ofSteps_eval : (b : Block) → (Node.block b).All (Expr.Reads names) →
    OfSteps names true b.eval
  | .mk _ stmts, h => by
    rw [Block.eval]
    exact ofSteps_evalStmts .nil stmts fun s hs => h.part (List.mem_map_of_mem hs)

theorem ofSteps_evalStmts (last : Value) : (stmts : List Stmt) →
    (∀ s ∈ stmts, (Node.stmt s).All (Expr.Reads names)) → OfSteps names true (evalStmts last stmts)
  | [], _ => by
    rw [evalStmts]
    exact .pure _
  | s :: rest, h => by
    obtain ⟨hs, hrest⟩ := List.forall_mem_cons.mp h
    rw [evalStmts]
    exact .bind (Stmt.ofSteps_eval s hs) fun v => ofSteps_evalStmts v rest hrest

end

/-- **The evaluation of a body** is made of steps, and looks up the names that are written in it. -/
theorem Body.ofSteps_evalOpen (body : Body) (h : body.node.All (Expr.Reads names)) :
    OfSteps names true body.evalOpen := by
  cases body with
  | expr value => exact Expr.ofSteps_eval value h
  | block b => exact Block.ofSteps_eval b h

theorem Body.eval_of_returned {body : Body} {limit : Nat} {m m' : Machine} {v : Value}
    (h : body.evalOpen limit m = (.error (.returned v), m')) :
    body.eval limit m = (.ok v, m') := by
  rw [Body.eval, h]

theorem Body.eval_of_ne_returned {body : Body} {limit : Nat} {m : Machine}
    (h : ∀ v, (body.evalOpen limit m).1 ≠ .error (.returned v)) :
    body.eval limit m = body.evalOpen limit m := by
  rw [Body.eval]
  split
  · next v _ hv => exact absurd (congrArg Prod.fst hv) (h v)
  · rfl

/-- A `return` that is left ends the body with its value; nothing else is changed. -/
theorem Body.eval_cases (body : Body) (limit : Nat) (m : Machine) :
    (∃ v, (body.evalOpen limit m).1 = .error (.returned v) ∧
        body.eval limit m = (.ok v, (body.evalOpen limit m).2)) ∨
      (∀ v, (body.evalOpen limit m).1 ≠ .error (.returned v)) ∧
        body.eval limit m = body.evalOpen limit m := by
  by_cases hreturned : ∃ v, (body.evalOpen limit m).1 = .error (.returned v)
  · obtain ⟨v, hv⟩ := hreturned
    exact .inl ⟨v, hv, Body.eval_of_returned (Prod.ext hv rfl)⟩
  · have hne : ∀ v, (body.evalOpen limit m).1 ≠ .error (.returned v) :=
      fun v hv => hreturned ⟨v, hv⟩
    exact .inr ⟨hne, Body.eval_of_ne_returned hne⟩

theorem Node.all_reads_univ (n : Node) : n.All (Expr.Reads Set.univ) := by
  rintro (_ | _) - <;> trivial

end ParseActions
