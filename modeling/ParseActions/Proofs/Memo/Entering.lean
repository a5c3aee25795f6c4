import ParseActions.Memo.Evaluation
import ParseActions.Proofs.Memo.Basic

/-!
# What a single step of an evaluation can do

Entering a node either gives an outcome at once or opens the node, and the outcome of a child either
decides that of the node above or is gathered. Each of these is said here once, by the cases that
can arise.

## Main definitions

* `Evaluation.Opens`: the nodes whose children are evaluated, and how their results are used
* `Evaluation.Entered`: what entering a node gives, and what it leaves
* `Evaluation.Gathered.addAll`: the results of children, one after the other

## Main results

* `Evaluation.entered`: entering a node is one of the cases
* `Evaluation.conclude_body`, `Evaluation.conclude_collect`: what a node makes of the outcomes of
  all its children
-/

namespace ParseActions.Evaluation

variable {c : Evaluation}

/-! ## Known outcomes -/

/-- An outcome that is used again is recorded and settled. -/
theorem known?_eq_some {key : NodeKey} {m : Memo} {outcome : Outcome}
    (h : c.known? key m = some outcome) : m.get? key = some outcome ∧ outcome.Settled := by
  rw [known?] at h
  split at h
  · cases h
  · cases h
  · next hne => exact ⟨h, fun he => hne (he ▸ h)⟩

/-- A child is known to have failed when a failure is recorded under its key. -/
theorem anyChildFailed_iff {node : CstNode} {m : Memo} :
    c.anyChildFailed node m = true ↔ ∃ child ∈ node.children, ∃ below,
      c.trace.cstNode? child = some below ∧ m.get? (c.keyOf below) = some .failed := by
  simp only [anyChildFailed, List.any_eq_true, Option.any_eq_true, Memo.isFailed_iff]

/-! ## Entering a node -/

/-- The nodes whose children are evaluated, and how the results of these make theirs. -/
inductive Opens (c : Evaluation) (node : CstNode) : Mode → Prop where
  | body {a : RuleAction} (h : c.action.body? node.constructor = some a) : Opens c node (.body a)
  | passThrough {rule : String} {child : CstId} (h : c.action.body? node.constructor = none)
    (hkind : node.kind = .nonterminal rule) (hchild : node.children = [child]) :
    Opens c node .passThrough
  | collect (h : c.action.body? node.constructor = none) (hkind : node.kind = .iter) :
    Opens c node .collect

/-- What is noted of a node when it is opened. -/
def Mode.note (mode : Mode) (key : NodeKey) (m : Memo) : Memo :=
  match mode with
  | .passThrough => m.addPassThrough key
  | _ => m

/-- The text of a node, as its result. -/
def textOf (c : Evaluation) (node : CstNode) : Value :=
  .string (c.trace.text node.interval)

/-- What entering a node gives, and what it leaves. -/
inductive Entered (c : Evaluation) (id : CstId) (m : Memo) : Opening → Memo → Prop where
  | missing (hnode : c.trace.cstNode? id = none) : Entered c id m (.done .failed) m
  | known {node : CstNode} {outcome : Outcome} (hnode : c.trace.cstNode? id = some node)
    (h : c.known? (c.keyOf node) m = some outcome) : Entered c id m (.done outcome) m
  | terminal {node : CstNode} (hnode : c.trace.cstNode? id = some node)
    (hnew : c.known? (c.keyOf node) m = none) (h : c.action.body? node.constructor = none)
    (hkind : node.kind = .terminal) :
    Entered c id m (.done (.succeeded (c.textOf node)))
      ((m.start (c.keyOf node)).set (c.keyOf node) (.succeeded (c.textOf node)))
  | unwritten {node : CstNode} {rule : String} (hnode : c.trace.cstNode? id = some node)
    (hnew : c.known? (c.keyOf node) m = none) (h : c.action.body? node.constructor = none)
    (hkind : node.kind = .nonterminal rule) (hchildren : node.children.length ≠ 1) :
    Entered c id m (.done .failed)
      (((m.start (c.keyOf node)).addTodo (c.keyOf node)).set (c.keyOf node) .failed)
  | opened {node : CstNode} {mode : Mode} (hnode : c.trace.cstNode? id = some node)
    (hnew : c.known? (c.keyOf node) m = none) (h : c.Opens node mode) :
    Entered c id m (.opened node mode) (mode.note (c.keyOf node) (m.start (c.keyOf node)))

/-- **Entering a node** is one of the cases. -/
theorem entered (c : Evaluation) (id : CstId) (m : Memo) :
    c.Entered id m (c.enter id m).1 (c.enter id m).2 := by
  rw [enter]
  cases hnode : c.trace.cstNode? id with
  | none => exact .missing hnode
  | some node =>
    cases hnew : c.known? (c.keyOf node) m with
    | some outcome => simpa only [hnew] using Entered.known hnode hnew
    | none =>
      simp only [hnew, openNode]
      cases hbody : c.action.body? node.constructor with
      | some a => exact .opened hnode hnew (.body hbody)
      | none =>
        cases hkind : node.kind with
        | terminal => exact .terminal hnode hnew hbody hkind
        | iter => exact .opened hnode hnew (.collect hbody hkind)
        | nonterminal rule =>
          by_cases hone : node.children.length = 1
          · obtain ⟨child, hchild⟩ := List.length_eq_one_iff.mp hone
            simp only [hone, if_true]
            exact .opened hnode hnew (.passThrough hbody hkind hchild)
          · simp only [hone, if_false]
            exact .unwritten hnode hnew hbody hkind hone

/-! ## Gathering the outcomes of children -/

/-- The results with that of one more child, which is no error. -/
def Gathered.add (mode : Mode) (results : Gathered) (outcome : Outcome) : Gathered :=
  match outcome, mode with
  | .succeeded v, _ => { results with values := results.values.push v }
  | _, .collect => { results with failed := true }
  | _, _ => { results with values := results.values.push .nil }

/-- The results with those of more children, none of which is an error. -/
def Gathered.addAll (mode : Mode) (results : Gathered) (outcomes : List Outcome) : Gathered :=
  outcomes.foldl (Gathered.add mode) results

section Gathering

variable {mode : Mode} {results : Gathered} {p : Bool} {outcome : Outcome}

/-- The outcome of the only child decides. -/
theorem accept_passThrough :
    accept .passThrough results p outcome = .error (outcome.propagated p) := by
  cases outcome <;> rfl

/-- An error decides. -/
theorem accept_of_errored (h : outcome.IsErrored) :
    accept mode results p outcome = .error (outcome.propagated p) := by
  obtain ⟨e, rfl⟩ := h
  rfl

/-- An outcome that is no error is gathered. -/
theorem accept_of_not_errored (hm : mode ≠ .passThrough) (h : ¬ outcome.IsErrored) :
    accept mode results p outcome = .ok (results.add mode outcome) := by
  cases outcome with
  | errored e => exact absurd ⟨e, rfl⟩ h
  | _ => cases mode <;> first | rfl | exact absurd rfl hm

variable (c : Evaluation) (node : CstNode) (m : Memo) (outcomes : List Outcome)

/-- The results for a body are the values of the children, or nil. -/
theorem values_addAll_body (a : RuleAction) (results : Gathered) :
    (results.addAll (.body a) outcomes).values.toList =
      results.values.toList ++ outcomes.map Outcome.argument := by
  induction outcomes generalizing results with
  | nil => simp [Gathered.addAll]
  | cons outcome outcomes ih =>
    rw [Gathered.addAll, List.foldl_cons, ← Gathered.addAll, ih]
    cases outcome <;> simp [Gathered.add, Outcome.argument, Outcome.value?]

/-- The results for a repetition are the values of the children, unless one has none. -/
theorem addAll_collect (results : Gathered) :
    (results.addAll .collect outcomes).failed = true ∧ outcomes.mapM Outcome.value? = none ∨
      (results.addAll .collect outcomes).failed = results.failed ∧
      ∃ values, outcomes.mapM Outcome.value? = some values ∧
        (results.addAll .collect outcomes).values.toList = results.values.toList ++ values := by
  induction outcomes generalizing results with
  | nil => exact .inr ⟨rfl, [], rfl, by simp [Gathered.addAll]⟩
  | cons outcome outcomes ih =>
    rw [Gathered.addAll, List.foldl_cons, ← Gathered.addAll, List.mapM_cons]
    have hih := ih (results.add .collect outcome)
    cases outcome with
    | succeeded v =>
      rcases hih with ⟨hfailed, hnone⟩ | ⟨hfailed, values, hsome, hvalues⟩
      · exact .inl ⟨hfailed, by simp [hnone]⟩
      · refine .inr ⟨hfailed, v :: values, by simp [Outcome.value?, hsome], ?_⟩
        rw [hvalues]
        simp [Gathered.add]
    | _ =>
      -- the outcome has no value, so the flag is set from here on
      refine .inl ⟨?_, rfl⟩
      rcases hih with ⟨hfailed, -⟩ | ⟨hfailed, -⟩
      · exact hfailed
      · exact hfailed

/-- What a body makes of the results of all children. -/
theorem conclude_body (a : RuleAction) :
    c.conclude node (.body a) (.ok (Gathered.none.addAll (.body a) outcomes)) m =
      c.runBody a node (outcomes.map Outcome.argument) m := by
  simp [conclude, values_addAll_body, Gathered.none]

/-- What a repetition makes of the results of all children. -/
theorem conclude_collect :
    c.conclude node .collect (.ok (Gathered.none.addAll .collect outcomes)) m =
      Outcome.collected outcomes := by
  rw [conclude, Outcome.collected]
  rcases addAll_collect outcomes Gathered.none with
    ⟨hfailed, hnone⟩ | ⟨hfailed, values, hsome, hvalues⟩
  · rw [if_pos hfailed, hnone]
    rfl
  · rw [hfailed, hsome, hvalues]
    rfl

end Gathering

end ParseActions.Evaluation
