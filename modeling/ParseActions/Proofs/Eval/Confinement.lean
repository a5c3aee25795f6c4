import ParseActions.Proofs.Eval.Steps
import ParseActions.Proofs.Except
import ParseActions.Proofs.Value.Footprint

/-!
# Confined evaluations

An evaluation is confined to a property of values when all that it binds, throws and returns has the
property, as long as the values that are bound before it do. Any property will do that values within
the bounds have, and that a value shares with its items and fields. The steps that evaluations are made
of are confined, and the operations on values keep the property.

## Main definitions

* `Value.Hereditary`: a property that values within the bounds have, and that passes to items and fields
* `Value.Within`: a value within a bound on its bytes, and the bound on nesting
* `Environment.All`: a property of all values that are bound
* `Eval.Confines`: what is given, bound, thrown and returned has a property

## Main results

* `Value.hereditary_within`, `Value.hereditary_height`: bounds on bytes and on nesting
* `Eval.Confines.bind`, `Eval.Confines.inScope`, `Eval.confines_callBuiltin`: steps
* `Eval.kept_binary`, `Eval.kept_index`, `Eval.kept_loopItems` and the like: operations
-/

namespace ParseActions

open Footprint (maxBytes maxDepth slot saturate)

/-- A footprint that is checked is given back, and is within the bounds. -/
theorem Footprint.check_eq_ok {f g : Footprint} {what : String} (h : f.check what = .ok g) :
    g = f ∧ f.Fits := by
  rw [Footprint.check] at h
  split at h
  · next hfits => exact ⟨(Except.ok.inj h).symm, Footprint.excess?_eq_none_iff.mp hfits⟩
  · cases h

namespace Value

/-- A property that all values within the bounds have, and that passes from a value to its items and
fields. -/
structure Hereditary (P : Value → Prop) : Prop where
  fits : ∀ v, (Footprint.of v).Fits → P v
  item : ∀ items, P (list items) → ∀ v ∈ items, P v
  field : ∀ fields, P (record fields) → ∀ field ∈ fields, P field.2

/-- A value takes at most so many bytes, and nests no deeper than values may. -/
structure Within (bound : Nat) (v : Value) : Prop where
  bytes : (Footprint.of v).bytes ≤ bound
  depth : (Footprint.of v).depth ≤ maxDepth

variable {bound levels : Nat} {v : Value} {s : String}

theorem within_of_fits (hbound : maxBytes ≤ bound) (h : (Footprint.of v).Fits) : v.Within bound :=
  ⟨Nat.le_trans h.1 hbound, h.2⟩

theorem within_string (h : slot + s.utf8ByteSize ≤ bound) : (string s).Within bound := by
  constructor
  · rw [Footprint.bytes_of, weight]
    exact Nat.le_trans (Nat.min_le_left _ _) h
  · rw [Footprint.depth_of]
    exact Nat.zero_le _

theorem Within.of_le {v' : Value} (h : v.Within bound) (hweight : v'.weight ≤ v.weight)
    (hheight : v'.height ≤ v.height) : v'.Within bound := by
  obtain ⟨hbytes, hdepth⟩ := h
  rw [Footprint.bytes_of] at hbytes
  rw [Footprint.depth_of] at hdepth
  constructor
  · rw [Footprint.bytes_of]
    exact Nat.le_trans (Footprint.saturate_mono hweight) hbytes
  · rw [Footprint.depth_of]
    exact Nat.le_trans hheight hdepth

/-- A bound on bytes that is not below that on values, with the bound on nesting. -/
theorem hereditary_within (hbound : maxBytes ≤ bound) : Hereditary (Within bound) where
  fits _ := within_of_fits hbound
  item _ h _ hv := h.of_le (Nat.le_add_left_of_le (weight_le_of_mem hv))
    (Nat.le_succ_of_le (height_le_of_mem hv))
  field _ h _ hv := h.of_le (Nat.le_add_left_of_le (weight_le_of_mem_fields hv))
    (Nat.le_succ_of_le (height_le_of_mem_fields hv))

/-- A bound on nesting that is not below that on values. -/
theorem hereditary_height (hlevels : maxDepth ≤ levels) :
    Hereditary fun v => v.height ≤ levels where
  fits v h := by
    rw [Footprint.Fits, Footprint.depth_of] at h
    exact Nat.le_trans h.2 hlevels
  item _ h _ hv := Nat.le_trans (height_le_of_mem hv) (Nat.le_of_succ_le h)
  field _ h _ hv := Nat.le_trans (height_le_of_mem_fields hv) (Nat.le_of_succ_le h)

namespace Hereditary

variable {P : Value → Prop} (hP : Hereditary P)
include hP

/-- What takes a slot only has the property. -/
theorem of_slot (hweight : v.weight = slot) (hheight : v.height = 0) : P v := by
  refine hP.fits v ?_
  rw [Footprint.Fits, Footprint.bytes_of, Footprint.depth_of, hweight, hheight]
  decide

theorem nil : P .nil :=
  hP.of_slot rfl rfl

theorem bool (b : Bool) : P (.bool b) :=
  hP.of_slot rfl rfl

theorem number (x : Float) : P (.number x) :=
  hP.of_slot rfl rfl

/-- Strings of a few bytes have the property. -/
theorem short (h : s.utf8ByteSize ≤ 4) : P (.string s) := by
  refine hP.fits _ ?_
  rw [Footprint.Fits, Footprint.bytes_of, Footprint.depth_of]
  exact ⟨Nat.le_trans (Nat.min_le_left _ _) (Nat.le_trans (Nat.add_le_add_left h _) (by decide)),
    Nat.zero_le _⟩

theorem char (c : Char) : P (.string c.toString) := by
  refine hP.short ?_
  rw [Char.toString_eq_singleton, String.utf8ByteSize_singleton]
  exact c.utf8Size_le_four

end Hereditary

end Value

namespace Environment

variable {P : Value → Prop} {env : Environment} {name : String} {v : Value}

/-- Every value that is bound in a scope has a property. -/
def All (P : Value → Prop) (env : Environment) : Prop :=
  ∀ scope ∈ env.scopes, ∀ binding ∈ scope, P binding.2

theorem All.get? (h : env.All P) (hv : env.get? name = some v) : P v := by
  obtain ⟨scope, hscope, hfind⟩ := List.exists_of_findSome?_eq_some hv
  exact h scope hscope _ (Keyed.mem_of_find? hfind)

theorem All.push (h : env.All P) : env.push.All P :=
  List.forall_mem_cons.mpr ⟨nofun, h⟩

theorem All.pop (h : env.All P) : env.pop.All P := by
  obtain ⟨innermost, enclosing⟩ := env
  cases enclosing with
  | nil => exact h
  | cons scope outer => exact (List.forall_mem_cons.mp h).2

theorem All.define (h : env.All P) (hv : P v) : (env.define name v).All P := by
  obtain ⟨hinnermost, henclosing⟩ := List.forall_mem_cons.mp h
  refine List.forall_mem_cons.mpr ⟨fun binding hbinding => ?_, henclosing⟩
  rcases Keyed.mem_insert hbinding with rfl | hold
  · exact hv
  · exact hinnermost _ hold

theorem all_ofBindings {bindings : List (String × Value)} (h : ∀ binding ∈ bindings, P binding.2) :
    (ofBindings bindings).All P := by
  have hempty : empty.All P := List.forall_mem_singleton.mpr nofun
  exact List.foldlRecOn bindings _ hempty fun env henv binding hbinding =>
    henv.define (h binding hbinding)

theorem All.mono {Q : Value → Prop} (h : env.All P) (hPQ : ∀ v, P v → Q v) : env.All Q :=
  fun scope hscope binding hbinding => hPQ _ (h scope hscope binding hbinding)

end Environment

/-! ## Evaluations -/

/-- The value that a `throw` or a `return` carries. -/
def EvalError.value? : EvalError → Option Value
  | thrown v | returned v => some v
  | _ => none

theorem EvalError.value?_of_isExit {e : EvalError} (h : e.isExit = false) : e.value? = none := by
  cases e <;> first | rfl | cases h

namespace Eval

variable {P : Value → Prop} {α β : Type} {p : Eval α} {Q : α → Prop} {R : β → Prop}

/-- What is bound, thrown or returned in the end has a property `P`, and what is given is as `Q`
says. -/
structure Confined (P : Value → Prop) (Q : α → Prop) (r : Except EvalError α × Machine) : Prop where
  env : r.2.env.All P
  given : ∀ a, r.1 = .ok a → Q a
  carried : ∀ e v, r.1 = .error e → e.value? = some v → P v

/-- An evaluation is confined wherever what is bound has the property. -/
def Confines (P : Value → Prop) (p : Eval α) (Q : α → Prop) : Prop :=
  ∀ limit m, m.env.All P → Confined P Q (p limit m)

theorem confines_lift {r : Except EvalError α} (h : NoExit r) (hQ : ∀ a, r = .ok a → Q a) :
    Confines P (lift r) Q :=
  fun _ _ henv => ⟨henv, hQ, fun e v he hv => by
    cases (EvalError.value?_of_isExit (h e he)).symm.trans hv⟩

theorem confines_pure {a : α} (h : Q a) : Confines P (Pure.pure a : Eval α) Q :=
  confines_lift (noExit_ok a) fun _ ha => Except.ok.inj ha ▸ h

theorem confines_fail {e : EvalError} (h : ∀ v, e.value? = some v → P v) :
    Confines P (fail e) Q :=
  fun _ _ henv => ⟨henv, nofun, fun _ v he => Except.error.inj he ▸ h v⟩

theorem Confines.mono {R : α → Prop} (h : Confines P p Q) (hQR : ∀ a, Q a → R a) :
    Confines P p R :=
  fun limit m henv =>
    have hp := h limit m henv
    ⟨hp.env, fun a ha => hQR a (hp.given a ha), hp.carried⟩

theorem Confines.bind {f : α → Eval β} (h : Confines P p Q)
    (hf : ∀ a, Q a → Confines P (f a) R) : Confines P (p >>= f) R := by
  intro limit m henv
  have hp := h limit m henv
  cases hr : p limit m with
  | mk r m' =>
    rw [hr] at hp
    cases r with
    | ok a =>
      rw [bind_of_ok hr]
      exact hf a (hp.given a rfl) limit m' hp.env
    | error e =>
      -- `f` does not run: what `p` carries is carried on
      rw [bind_of_error hr]
      exact ⟨hp.env, nofun, fun e' v he => hp.carried e' v (congrArg _ (Except.error.inj he))⟩

theorem Confines.inScope (h : Confines P p Q) : Confines P (inScope p) Q :=
  fun limit m henv =>
    have hp := h limit { m with env := m.env.push } henv.push
    ⟨hp.env.pop, hp.given, hp.carried⟩

theorem confines_charge (gas : Nat) : Confines P (charge gas) fun _ => True := by
  refine fun limit m henv => ⟨henv, fun _ _ => trivial, fun e v he hv => ?_⟩
  simp only [charge] at he
  split at he
  · cases he
    cases hv
  · cases he

theorem confines_tick : Confines P tick fun _ => True :=
  confines_charge 1

theorem confines_write (line : String) : Confines P (write line) fun _ => True :=
  fun _ _ henv => ⟨henv, fun _ _ => trivial, fun _ _ he => nomatch he⟩

theorem confines_define {name : String} {v : Value} (h : P v) :
    Confines P (modifyEnv (·.define name v)) fun _ => True :=
  fun _ _ henv => ⟨henv.define h, fun _ _ => trivial, fun _ _ he => nomatch he⟩

theorem confines_check (f : Footprint) (what : String) :
    Confines P (check f what) fun g => g = f ∧ f.Fits :=
  confines_lift (noExit_check f what) fun _ => Footprint.check_eq_ok

theorem confines_measured (hP : Value.Hereditary P) (v : Value) (what : String) :
    Confines P (measured v what) P :=
  (confines_check _ what).bind fun _ hf => (confines_charge _).bind fun _ _ =>
    confines_pure (hP.fits v hf.2)

theorem confines_look (name : String) :
    Confines P (look name) fun o => ∀ v, o = some v → P v :=
  fun _ _ henv =>
    ⟨henv, fun _ ho _ hv => henv.get? (Except.ok.inj ho ▸ hv), fun _ _ he => nomatch he⟩

theorem confines_variableValue (name : String) :
    Confines P (variableValue name) P := by
  rw [variableValue_eq]
  refine (confines_look name).bind fun o ho => ?_
  cases o with
  | none => exact confines_fail nofun
  | some v => exact (confines_charge _).bind fun _ _ => confines_pure (ho v rfl)

theorem confines_module? (object : Expr) : Confines P (module? object) fun _ => True := by
  cases object
  case ident span name =>
    rw [module?_ident]
    refine (confines_look name).bind fun o _ => ?_
    split
    · exact confines_pure trivial
    · exact confines_pure trivial
  all_goals exact confines_pure trivial

theorem confines_callBuiltin (hP : Value.Hereditary P) {args : List Value}
    (hargs : ∀ v ∈ args, P v) (module function : String) :
    Confines P (callBuiltin module function args) P := by
  rw [callBuiltin]
  split
  · refine (confines_charge _).bind fun _ _ => (confines_write _).bind fun _ _ => confines_pure ?_
    -- `core.log` gives its first argument back unmeasured, so the arguments have to have it
    cases args with
    | nil => exact hP.nil
    | cons v args => exact hargs v (.head _)
  · refine (confines_lift (Q := fun _ => True) (Builtin.noExit_call _ _ _) ?_).bind fun v _ => ?_
    · exact fun _ _ => trivial
    · exact confines_measured hP v _

theorem confines_each {run : Nat → Value → Eval Value} {items : List Value}
    (hrun : ∀ i, ∀ v ∈ items, Confines P (run i v) P) (i : Nat)
    {last : Value} (hlast : P last) :
    Confines P (each run i last items) P := by
  induction items generalizing i last with
  | nil => exact confines_pure hlast
  | cons item items ih =>
    rw [each_cons]
    refine (hrun i item (.head _)).bind fun v hv => ih (fun i w hw => ?_) (i + 1) hv
    exact hrun i w (.tail _ hw)

end Eval

/-! ## Values of operations -/

namespace Eval

variable {P : Value → Prop} {v w : Value} (hP : Value.Hereditary P)
include hP

theorem kept_compute {op : BinaryOp} {f : Float → Float → Float} {l r : Value}
    (h : compute op f l r = .ok v) : P v := by
  unfold compute at h
  split at h
  · cases h
    exact hP.number _
  · cases h

theorem kept_compareWith {op : BinaryOp} {numbers : Float → Float → Bool}
    {strings : String → String → Bool} {l r : Value}
    (h : compareWith op numbers strings l r = .ok v) : P v := by
  unfold compareWith at h
  split at h
  · cases h
    exact hP.bool _
  · cases h
    exact hP.bool _
  · cases h

theorem kept_binary {op : BinaryOp} (hop : op ≠ .add) {l r : Value}
    (h : Eval.binary op l r = .ok v) : P v := by
  cases op with
  | add => exact absurd rfl hop
  | sub | mul | div | mod => exact kept_compute hP h
  | less | greater | lessEq | greaterEq => exact kept_compareWith hP h
  | eq | notEq | and | or =>
    cases h
    exact hP.bool _

theorem kept_unary {op : UnaryOp} (h : Eval.unary op w = .ok v) : P v := by
  unfold Eval.unary at h
  split at h
  · cases h
    exact hP.number _
  · cases h
  · cases h
    exact hP.bool _

theorem kept_find? {name : String} {fields : List (String × Value)}
    (hw : P (.record fields)) : P ((Keyed.find? name fields).getD .nil) := by
  cases hfind : Keyed.find? name fields with
  | none => exact hP.nil
  | some v => exact hP.field fields hw _ (Keyed.mem_of_find? hfind)

theorem kept_member {field : String} (hw : P w) (h : member w field = .ok v) : P v := by
  unfold member at h
  split at h
  · cases h
    exact kept_find? hP hw
  · split at h
    · cases h
      exact hP.number _
    · cases h
  · split at h
    · cases h
      exact hP.number _
    · cases h
  · cases h
  · cases h

theorem kept_index {key : Value} (hw : P w) (h : Eval.index w key = .ok v) : P v := by
  unfold Eval.index at h
  split at h
  · next items i =>
    obtain ⟨n, -, hv⟩ := Except.bind_eq_ok.mp h
    cases hv
    cases hitem : items[n]? with
    | none => exact hP.nil
    | some item => exact hP.item items hw item (List.mem_of_getElem? hitem)
  · next s i =>
    obtain ⟨n, -, hv⟩ := Except.bind_eq_ok.mp h
    cases hv
    cases s.toList[n]? with
    | none => exact hP.short (by decide)
    | some c => exact hP.char c
  · cases h
    exact kept_find? hP hw
  · cases h
  · cases h

theorem kept_loopItems {items : List Value} (hw : P w) (h : loopItems w = .ok items) :
    ∀ v ∈ items, P v := by
  unfold loopItems at h
  split at h
  · cases h
    exact hP.item items hw
  · obtain ⟨-, -, hitems⟩ := Except.bind_eq_ok.mp h
    cases hitems
    exact List.forall_mem_map.mpr fun c _ => hP.char c
  · cases h

theorem kept_constant? {module name : String} (h : Builtin.constant? module name = some v) :
    P v := by
  unfold Builtin.constant? at h
  split at h
  · exact Option.some.inj h ▸ hP.number _
  · exact Option.some.inj h ▸ hP.number _
  · exact Option.some.inj h ▸ hP.number _
  · cases h

end Eval

end ParseActions
