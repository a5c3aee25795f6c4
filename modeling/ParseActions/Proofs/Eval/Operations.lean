import ParseActions.Eval.Interpreter

/-!
# Errors of operations

A `throw`, a `return` and gas that is used up are how statements and steps end an evaluation. The
operations on values, builtins included, fail in other ways only.

## Main definitions

* `EvalError.isExit`: the errors that are made by statements and steps
* `NoExit`: a result that is no such error

## Main results

* `Builtin.noExit_call`: builtins
* `Eval.noExit_binary`, `Eval.noExit_index`, `Eval.noExit_loopItems` and the like: the operations of
  the interpreter
-/

namespace ParseActions

/-- Whether an error is made by a statement or by a step, and not by an operation on values. -/
@[simp] def EvalError.isExit : EvalError → Bool
  | thrown _ | gasExhausted | returned _ => true
  | _ => false

/-- A result that is no error of a statement or step. -/
def NoExit {α : Type} (r : Except EvalError α) : Prop :=
  ∀ e, r = .error e → e.isExit = false

section

variable {α β : Type} {e : EvalError} {r : Except EvalError α}

@[simp] theorem noExit_ok (a : α) : NoExit (.ok a : Except EvalError α) :=
  nofun

@[simp] theorem noExit_pure (a : α) : NoExit (pure a : Except EvalError α) :=
  nofun

@[simp] theorem noExit_error : NoExit (.error e : Except EvalError α) ↔ e.isExit = false :=
  ⟨fun h => h e rfl, fun h _ he => Except.error.inj he ▸ h⟩

@[simp] theorem noExit_bind {f : α → Except EvalError β} :
    NoExit (r >>= f) ↔ NoExit r ∧ ∀ a, r = .ok a → NoExit (f a) := by
  cases r with
  | ok a => simp [bind, Except.bind]
  | error e => simp [bind, Except.bind]

@[simp] theorem noExit_map {f : α → β} : NoExit (f <$> r) ↔ NoExit r := by
  cases r with
  | ok a => simp [Functor.map, Except.map]
  | error e => simp [Functor.map, Except.map]

@[simp] theorem noExit_ite {c : Prop} [Decidable c] {r' : Except EvalError α} :
    NoExit (if c then r else r') ↔ (c → NoExit r) ∧ (¬ c → NoExit r') := by
  split <;> simp [*]

theorem noExit_mapM {f : α → Except EvalError β} (hf : ∀ a, NoExit (f a)) (as : List α) :
    NoExit (as.mapM f) := by
  induction as with
  | nil => exact noExit_pure _
  | cons a as ih => simp [hf, ih]

theorem NoExit.ne_gasExhausted (h : NoExit r) : r ≠ .error .gasExhausted :=
  fun hr => Bool.noConfusion (h _ hr)

end

@[simp] theorem noExit_check (f : Footprint) (what : String) : NoExit (f.check what) := by
  rw [Footprint.check]
  split <;> simp

/-! ## Builtins -/

namespace Call

variable {α : Type} (call : Call)

@[simp] theorem noExit_unknown : NoExit (call.unknown : Except EvalError α) := by
  simp [unknown]

@[simp] theorem noExit_mismatch (i : Nat) (expected : Value.Kind) :
    NoExit (call.mismatch i expected : Except EvalError α) := by
  simp [mismatch]

@[simp] theorem noExit_arity (least most : Nat) : NoExit (call.arity least most) := by
  rw [arity]
  split <;> simp

@[simp] theorem noExit_number (i : Nat) : NoExit (call.number i) := by
  rw [number]
  split <;> simp

@[simp] theorem noExit_string (i : Nat) : NoExit (call.string i) := by
  rw [string]
  split <;> simp

@[simp] theorem noExit_list (i : Nat) : NoExit (call.list i) := by
  rw [list]
  split <;> simp

@[simp] theorem noExit_number? (i : Nat) : NoExit (call.number? i) := by
  rw [number?]
  split <;> simp

end Call

namespace Builtin

variable (call : Call)

theorem noExit_callCore : NoExit (callCore call) := by
  rw [callCore]
  split <;> simp

@[simp] theorem noExit_unary (f : Float → Float) : NoExit (unary call f) := by
  simp [unary]

@[simp] theorem noExit_combine (f : Float → Float → Float) : NoExit (combine call f) := by
  rw [combine]
  split
  · simp
  · simp [noExit_mapM]

theorem noExit_callMath : NoExit (callMath call) := by
  rw [callMath]
  split <;> simp

@[simp] theorem noExit_charsOf (what s : String) : NoExit (charsOf what s) := by
  simp [charsOf]

@[simp] theorem noExit_split (s separator : String) : NoExit (split s separator) := by
  rw [Builtin.split]
  split <;> simp

@[simp] theorem noExit_replace (s pattern replacement : String) :
    NoExit (replace s pattern replacement) := by
  simp [replace]

theorem noExit_callString : NoExit (callString call) := by
  rw [callString]
  split <;> simp

@[simp] theorem noExit_sum (total : Float) (items : List Value) : NoExit (sum total items) := by
  fun_induction sum total items with
  | case1 => simp
  | case2 _ _ _ ih => exact ih
  | case3 => simp

@[simp] theorem noExit_join (separator out : String) (first : Bool) (items : List Value) :
    NoExit (join separator out first items) := by
  fun_induction join separator out first items with
  | case1 => simp
  | case2 _ _ _ _ _ _ _ hcheck => exact noExit_error.mpr (noExit_check _ _ _ hcheck)
  | case3 _ _ _ _ _ _ _ _ ih => exact ih

@[simp] theorem noExit_sort (items : List Value) : NoExit (sort items) := by
  simp [sort]

@[simp] theorem noExit_range (start stop : Float) : NoExit (range start stop) := by
  simp [range]

theorem noExit_callList : NoExit (callList call) := by
  rw [callList]
  split <;> simp

theorem noExit_callRecord : NoExit (callRecord call) := by
  rw [callRecord]
  split
  · split <;> simp
  · simp

theorem noExit_callConvert : NoExit (callConvert call) := by
  rw [callConvert]
  simp only [noExit_bind, Call.noExit_arity, true_and]
  intro _ _
  split <;> simp

/-- **Builtins** neither throw nor return, and use no gas of their own. -/
theorem noExit_call (module function : String) (args : List Value) :
    NoExit (Builtin.call module function args) := by
  rw [Builtin.call.eq_def]
  dsimp only
  split
  · exact noExit_callCore _
  · exact noExit_callMath _
  · exact noExit_callString _
  · exact noExit_callList _
  · exact noExit_callRecord _
  · exact noExit_callConvert _
  · simp

end Builtin

/-! ## Operations of the interpreter -/

namespace Eval

theorem noExit_place (i : Float) (length : Nat) : NoExit (place i length) := by
  simp [place]

@[simp] theorem noExit_append (s t : String) : NoExit (append s t) := by
  simp [append]

theorem noExit_add (left right : Value) : NoExit (add left right) := by
  rw [add.eq_def]
  split <;> simp

@[simp] theorem noExit_compute (op : BinaryOp) (f : Float → Float → Float) (left right : Value) :
    NoExit (compute op f left right) := by
  rw [compute.eq_def]
  split <;> simp

@[simp] theorem noExit_compareWith (op : BinaryOp) (numbers : Float → Float → Bool)
    (strings : String → String → Bool) (left right : Value) :
    NoExit (compareWith op numbers strings left right) := by
  rw [compareWith.eq_def]
  split <;> simp

theorem noExit_binary (op : BinaryOp) (left right : Value) : NoExit (binary op left right) := by
  cases op <;> simp [binary, noExit_add]

theorem noExit_unary (op : UnaryOp) (v : Value) : NoExit (unary op v) := by
  rw [unary.eq_def]
  split <;> simp

theorem noExit_index (object key : Value) : NoExit (index object key) := by
  rw [index.eq_def]
  split <;> simp [noExit_place]

theorem noExit_member (object : Value) (field : String) : NoExit (member object field) := by
  rw [member.eq_def]
  split <;> simp

theorem noExit_methodModule (object : Value) (method : String) :
    NoExit (methodModule object method) := by
  rw [methodModule.eq_def]
  split <;> simp

theorem noExit_loopItems (v : Value) : NoExit (loopItems v) := by
  rw [loopItems.eq_def]
  split <;> simp

end Eval

end ParseActions
