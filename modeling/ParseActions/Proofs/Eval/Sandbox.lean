import ParseActions.Proofs.Eval.Scopes
import ParseActions.Proofs.Keyed

/-!
# What a body sees of its environment

A body looks up the names that are written in it, as variables or as names of modules that a binding
may shadow, and nothing else. So environments that agree on these names give the same run, whatever
else they bind, and however their bindings are spread over scopes.

## Main definitions

* `Environment.Agrees`: names mean the same in two environments
* `Machine.Alike`: states that differ in their environments only, and there not on names of a set
* `Body.Mentions`: a name is written in a body where a name is looked up

## Main results

* `Eval.OfSteps.alike`: steps give the same results on states that are alike, and leave them alike
* `Body.eval_of_agrees`: runs of bodies
-/

namespace ParseActions

namespace Environment

variable {names : Set String} {env env' : Environment}

/-- Names have the same value in two environments, or none in both. -/
def Agrees (names : Set String) (env env' : Environment) : Prop :=
  ∀ name ∈ names, env.get? name = env'.get? name

@[simp] theorem get?_push (env : Environment) (name : String) : env.push.get? name = env.get? name :=
  rfl

/-- A binding gives a value to its name alone. -/
theorem get?_define (key : String) (v : Value) (env : Environment) (name : String) :
    (env.define key v).get? name = if name = key then some v else env.get? name := by
  have hget (env : Environment) : env.get? name =
      (Keyed.find? name env.innermost).or (env.enclosing.findSome? (Keyed.find? name)) := by
    rw [get?, scopes, List.findSome?_cons]
    cases Keyed.find? name env.innermost <;> rfl
  rw [hget, hget, define, Keyed.find?_insert]
  split <;> rfl

theorem Agrees.push (h : Agrees names env env') : Agrees names env.push env'.push :=
  h

theorem Agrees.define (h : Agrees names env env') (key : String) (v : Value) :
    Agrees names (env.define key v) (env'.define key v) := by
  intro name hname
  rw [get?_define, get?_define, h name hname]

end Environment

/-- States with the same gas and the same log, in which names of a set mean the same. -/
structure Machine.Alike (names : Set String) (m m' : Machine) : Prop where
  env : Environment.Agrees names m.env m'.env
  gas : m.gas = m'.gas
  log : m.log = m'.log

namespace Eval

variable {names : Set String} {binds : Bool} {α : Type} {p : Eval α} {m m' : Machine}

/-- A scope around an evaluation leaves nothing behind. -/
theorem OfSteps.env_inScope (h : OfSteps names true p) (limit : Nat) (m : Machine) :
    (Eval.inScope p limit m).2.env = m.env :=
  Environment.pop_of_enclosing_eq (h.keeps_scopes limit { m with env := m.env.push }).1

/-- **Steps tell states apart only by the names that they look up.** On states that are alike they
give the same result, and leave states that are alike. -/
theorem OfSteps.alike (h : OfSteps names binds p) (limit : Nat) (hm : m.Alike names m') :
    (p limit m).1 = (p limit m').1 ∧ (p limit m).2.Alike names (p limit m').2 := by
  induction h generalizing m m' with
  | lift => exact ⟨rfl, hm⟩
  | look hname => exact ⟨congrArg Except.ok (hm.env _ hname), hm⟩
  | define name v => exact ⟨rfl, hm.env.define name v, hm.gas, hm.log⟩
  | write line => exact ⟨rfl, hm.env, hm.gas, congrArg (Array.push · line) hm.log⟩
  | charge gas =>
    have hgas : min (m.gas + gas) Double.maxWord = min (m'.gas + gas) Double.maxWord := by
      rw [hm.gas]
    refine ⟨?_, hm.env, hgas, hm.log⟩
    simp only [Eval.charge, hgas]
  | @bind _ _ _ p f _ _ ih ihf =>
    obtain ⟨hresult, halike⟩ := ih hm
    rw [bind_apply, bind_apply]
    generalize p limit m = r at hresult halike
    generalize p limit m' = r' at hresult halike
    obtain ⟨e | a, after⟩ := r
    · obtain ⟨_, after'⟩ := r'
      obtain rfl := hresult
      exact ⟨rfl, halike⟩
    · obtain ⟨_, after'⟩ := r'
      obtain rfl := hresult
      exact ihf a halike
  | @inScope _ _ p hp ih =>
    have hpush : Machine.Alike names { m with env := m.env.push } { m' with env := m'.env.push } :=
      ⟨hm.env.push, hm.gas, hm.log⟩
    obtain ⟨hresult, halike⟩ := ih hpush
    refine ⟨hresult, ?_, halike.gas, halike.log⟩
    rw [hp.env_inScope, hp.env_inScope]
    exact hm.env

end Eval

open Eval

/-- A name is written in a body as a variable, or where the name of a module may stand. -/
def Body.Mentions (body : Body) (name : String) : Prop :=
  ∃ span, body.node.Below (.expr (.ident span name))

theorem Body.reads_mentions (body : Body) :
    body.node.All (Expr.Reads {name | body.Mentions name}) := by
  intro e he
  cases e
  case ident span name => exact ⟨span, he⟩
  all_goals exact trivial

/-- A body without names outside a set mentions names of the set. -/
theorem Body.mem_of_mentions {body : Body} {names : Set String} {name : String}
    (h : body.node.All (Expr.Reads names)) (hname : body.Mentions name) : name ∈ names :=
  let ⟨_, hbelow⟩ := hname
  h _ hbelow

/-- **A body is closed off from what it does not mention.** In environments in which the names that it
mentions have the same values, or none in both, it has the same result, the same log, and uses the same
gas. -/
theorem Body.eval_of_agrees (body : Body) (limit : Nat) {env env' : Environment}
    (h : ∀ name, body.Mentions name → env.get? name = env'.get? name) :
    let run := body.eval limit (.start env)
    let run' := body.eval limit (.start env')
    run.1 = run'.1 ∧ run.2.log = run'.2.log ∧ run.2.gas = run'.2.gas := by
  intro run run'
  have hstart : Machine.Alike {name | body.Mentions name} (.start env) (.start env') := ⟨h, rfl, rfl⟩
  obtain ⟨hresult, halike⟩ := (body.ofSteps_evalOpen body.reads_mentions).alike limit hstart
  obtain ⟨v, hv, hrun⟩ | ⟨hopen, hrun⟩ := body.eval_cases limit (.start env)
  · have hrun' : run' = (.ok v, (body.evalOpen limit (.start env')).2) :=
      Body.eval_of_returned (Prod.ext (hresult.symm.trans hv) rfl)
    simp only [run, hrun, hrun']
    exact ⟨trivial, halike.log, halike.gas⟩
  · have hrun' : run' = body.evalOpen limit (.start env') :=
      Body.eval_of_ne_returned fun v hv => hopen v (hresult.trans hv)
    simp only [run, hrun, hrun']
    exact ⟨hresult, halike.log, halike.gas⟩

/-- A body that logs the letters of a string. -/
def Body.letters : Body :=
  let log : Expr :=
    .call default (.ident default "core") ⟨"log", default⟩ [.ident default "c"]
  .block (.mk default [.loop default ⟨"c", default⟩ none (.ident default "x")
    (.mk default [.expr log])])

theorem Body.reads_letters : letters.node.All (Expr.Reads {"x", "c", "core"}) := by
  have hname {text : String} (h : text ∈ ({"x", "c", "core"} : Set String)) :
      (Node.expr (.ident default text)).All (Expr.Reads {"x", "c", "core"}) :=
    .of_parts h nofun
  have hident (name : Ident) : (Node.ident name).All (Expr.Reads {"x", "c", "core"}) :=
    Node.all_of_parts nofun nofun
  have hitems := hname (.inl rfl)
  have hletter := hname (.inr (.inl rfl))
  have hmodule := hname (.inr (.inr rfl))
  have hlog : (Node.expr (.call default (.ident default "core") ⟨"log", default⟩
      [.ident default "c"])).All (Expr.Reads {"x", "c", "core"}) := by
    refine .of_parts trivial (List.forall_mem_cons.mpr ⟨hmodule, ?_⟩)
    exact List.forall_mem_cons.mpr ⟨hident _, List.forall_mem_singleton.mpr hletter⟩
  refine Node.all_of_parts nofun (List.forall_mem_singleton.mpr (Node.all_of_parts nofun ?_))
  refine List.forall_mem_cons.mpr ⟨hident _, List.forall_mem_cons.mpr ⟨hitems, ?_⟩⟩
  refine List.forall_mem_singleton.mpr (Node.all_of_parts nofun (List.forall_mem_singleton.mpr ?_))
  exact Node.all_of_parts nofun (List.forall_mem_singleton.mpr hlog)

/-- An environment of one scope. -/
def Environment.flat : Environment :=
  empty.define "x" (.string "ab") |>.define "y" .nil

/-- An environment of three scopes, in which the outermost binding is shadowed. -/
def Environment.nested : Environment :=
  (empty.define "x" .nil).push.define "x" (.string "ab") |>.push

/-- Bindings that are shadowed, bindings of other names, and empty scopes make no difference. -/
theorem Body.eval_of_agrees_letters :
    let run := letters.eval 100 (.start .flat)
    let run' := letters.eval 100 (.start .nested)
    (∀ name, letters.Mentions name → Environment.flat.get? name = Environment.nested.get? name) ∧
      run'.2.log = #["a", "b"] ∧
      run.1 = run'.1 ∧ run.2.log = run'.2.log ∧ run.2.gas = run'.2.gas := by
  have hagrees (name : String) (hname : letters.Mentions name) :
      Environment.flat.get? name = Environment.nested.get? name := by
    rcases Body.mem_of_mentions Body.reads_letters hname with rfl | rfl | rfl <;>
      simp [Environment.flat, Environment.nested, Environment.get?_define]
  exact ⟨hagrees, by decide +kernel, Body.eval_of_agrees letters 100 hagrees⟩

end ParseActions
