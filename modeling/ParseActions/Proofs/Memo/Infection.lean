import ParseActions.Proofs.Memo.Once
import ParseActions.Proofs.Memo.Reference

/-!
# Children that failed

A body gets nil for a child that failed, and then the node fails all the same, because the memo is
asked whether a child has failed. It is asked by key. An attribute records nothing in place of a
failure. An operation evaluates nodes again: the child fails again then, but another node with the
same key may have a value. Where no such node is found among the later siblings of the child and the
nodes below them, the node does not succeed.

## Main definitions

* `Evaluation.Gives`: the outcome of a child in the course of an evaluation
* `Evaluation.Repeats`: an operation finds again what it found before
* `Evaluation.Apart`: later siblings have nothing to do with the key of a child

## Main results

* `Evaluation.repeats`: without an error an operation gives the same outcome again
* `Evaluation.not_succeeded_of_gives_failed`: a node does not succeed after a child has failed
-/

namespace ParseActions.Evaluation

variable {c : Evaluation}

/-! ## Errors of operations -/

theorem known?_operation (hkind : c.action.kind = .operation) (key : NodeKey) (m : Memo) :
    c.known? key m = none := by
  rw [known?, hkind]

theorem errored_of_propagated {outcome : Outcome} {p : Bool}
    (h : (outcome.propagated p).IsErrored) : outcome.IsErrored ∧ p = false := by
  cases outcome with
  | errored e =>
    cases p with
    | false => exact ⟨⟨e, rfl⟩, rfl⟩
    | true => exact absurd h Outcome.not_isErrored_failed
  | _ =>
    obtain ⟨e, he⟩ := h
    cases he

/-- An error that a child gives in an operation counts as such. -/
theorem permissive_eq_false_of_errored (hv : c.trace.Valid) (hkind : c.action.kind = .operation)
    {id : CstId} {m : Memo} (h : (c.evaluate id m).1.IsErrored) :
    (c.evaluate id m).2.permissive = false := by
  have hevaluated := evaluated hv id m
  generalize (c.evaluate id m).1 = outcome at hevaluated h
  generalize (c.evaluate id m).2 = m' at hevaluated ⊢
  cases hevaluated with
  | missing => exact absurd h Outcome.not_isErrored_failed
  | known _ hknown =>
    rw [known?_operation hkind] at hknown
    cases hknown
  | @new node outcome m₁ hnode hnew hfinished =>
    rw [show (m₁.set (c.keyOf node) outcome).permissive = m₁.permissive from rfl]
    cases hfinished with
    | terminal => exact absurd h (Outcome.not_isErrored_succeeded _)
    | unwritten => exact absurd h Outcome.not_isErrored_failed
    | passThrough => exact (errored_of_propagated h).2
    | body =>
      rw [← Bool.not_eq_true]
      exact fun hp => (settled_runBody _ node _ m₁).2 hp h
    | collect => exact absurd h (Outcome.settled_collected _).2
    | decided _ hall =>
      obtain ⟨child, -, n, -, -, -, rfl⟩ :=
        exists_of_outcomes_eq_error (P := fun _ => True) (fun _ _ _ _ => trivial) trivial hall
      exact (errored_of_propagated h).2

/-! ## Operations find the same again -/

/-- What evaluations that go the same way do to two memos: where these agree they agree afterwards,
and a body that one of them misses the other one misses too. -/
structure Parallel (m n m' n' : Memo) : Prop where
  agree : ∀ key, m.get? key = n.get? key → m'.get? key = n'.get? key
  permissive : m'.permissive → n'.permissive

namespace Parallel

variable {m n m₁ n₁ m₂ n₂ : Memo}

theorem refl (h : m.permissive → n.permissive) : Parallel m n m n :=
  ⟨fun _ hagree => hagree, h⟩

theorem trans (h : Parallel m n m₁ n₁) (h' : Parallel m₁ n₁ m₂ n₂) : Parallel m n m₂ n₂ :=
  ⟨fun key hagree => h'.agree key (h.agree key hagree), h'.permissive⟩

/-- The same outcome may be recorded on both sides. -/
theorem set (h : Parallel m n m₁ n₁) (key : NodeKey) (outcome : Outcome) :
    Parallel m n (m₁.set key outcome) (n₁.set key outcome) where
  agree k hagree := by
    rw [Memo.get?_set, Memo.get?_set, h.agree k hagree]
  permissive := h.permissive

theorem start (h : Parallel m n m₁ n₁) (key : NodeKey) :
    Parallel m n (m₁.start key) (n₁.start key) :=
  ⟨(h.set key .pending).agree, h.permissive⟩

theorem addTodo (h : Parallel m n m₁ n₁) (key : NodeKey) :
    Parallel m n (m₁.addTodo key) (n₁.addTodo key) :=
  ⟨h.agree, fun _ => Memo.permissive_addTodo n₁ key⟩

theorem addPassThrough (h : Parallel m n m₁ n₁) (key : NodeKey) :
    Parallel m n (m₁.addPassThrough key) (n₁.addPassThrough key) :=
  ⟨h.agree, h.permissive⟩

end Parallel

/-- An evaluation that gives no error goes the same way from another memo, as long as this misses a
body if the first one does. -/
def Repeats (c : Evaluation) (id : CstId) : Prop :=
  ∀ m n, (m.permissive → n.permissive) → ¬ (c.evaluate id m).1.IsErrored →
    (c.evaluate id n).1 = (c.evaluate id m).1 ∧
      Parallel m n (c.evaluate id m).2 (c.evaluate id n).2

/-- Evaluations of several nodes that give no error go the same way from another memo, and then both
memos agree on all these nodes. -/
theorem repeats_outcomes (hv : c.trace.Valid) {ids : List CstId} (hids : ∀ id ∈ ids, c.Repeats id)
    {m n m₁ : Memo} (hp : m.permissive → n.permissive) {os : List Outcome}
    (hos : outcomes c.evaluate ids m = (.ok os, m₁)) :
    ∃ n₁, outcomes c.evaluate ids n = (.ok os, n₁) ∧ Parallel m n m₁ n₁ ∧
      ∀ id ∈ ids, ∀ node, c.trace.cstNode? id = some node →
        m₁.get? (c.keyOf node) = n₁.get? (c.keyOf node) := by
  induction ids generalizing m n os with
  | nil =>
    cases hos
    exact ⟨n, rfl, .refl hp, by simp⟩
  | cons id rest ih =>
    obtain ⟨hnot, others, hothers, rfl⟩ := outcomes_cons_eq_ok.mp hos
    obtain ⟨hsame, hparallel⟩ := hids id List.mem_cons_self m n hp hnot
    obtain ⟨n₁, hn₁, hparallel', hagree⟩ :=
      ih (fun id hid => hids id (List.mem_cons_of_mem _ hid)) hparallel.permissive hothers
    refine ⟨n₁, outcomes_cons_eq_ok.mpr ⟨hsame ▸ hnot, others, hn₁, by rw [hsame]⟩,
      hparallel.trans hparallel', fun i hi node hnode => ?_⟩
    rcases List.mem_cons.mp hi with rfl | hi
    -- the outcome of the first node was the same, and the others keep what agrees
    · refine hparallel'.agree _ ?_
      rw [get?_evaluate hv hnode, get?_evaluate hv hnode, hsame]
    · exact hagree i hi node hnode

theorem anyChildFailed_congr {node : CstNode} {m n : Memo}
    (h : ∀ id ∈ node.children, ∀ child, c.trace.cstNode? id = some child →
      m.get? (c.keyOf child) = n.get? (c.keyOf child)) :
    c.anyChildFailed node m = c.anyChildFailed node n := by
  rw [Bool.eq_iff_iff, anyChildFailed_iff, anyChildFailed_iff]
  refine exists_congr fun id => and_congr_right fun hid => exists_congr fun child =>
    and_congr_right fun hchild => ?_
  rw [h id hid child hchild]

/-- A body gives the same outcome again, unless that is an error. -/
theorem runBody_congr {a : RuleAction} {node : CstNode} {args : List Value} {m n : Memo}
    (hp : m.permissive → n.permissive)
    (h : c.anyChildFailed node m = c.anyChildFailed node n)
    (hnot : ¬ (c.runBody a node args m).IsErrored) :
    c.runBody a node args n = c.runBody a node args m := by
  rw [runBody] at hnot
  rw [runBody, runBody, ← h]
  split at hnot
  · rfl
  · -- an error is none only where it counts as a failure
    cases hm : m.permissive with
    | false =>
      rw [hm] at hnot
      exact absurd ⟨_, rfl⟩ hnot
    | true => rw [hp hm]

/-- An evaluation that has begun and gives no error goes the same way from another memo. -/
theorem Finished.repeats (hv : c.trace.Valid) (hkind : c.action.kind = .operation) {node : CstNode}
    {m m₁ n : Memo} {outcome : Outcome} (h : c.Finished node m outcome m₁)
    (hchildren : ∀ child ∈ node.children, c.Repeats child) (hp : m.permissive → n.permissive)
    (hnot : ¬ outcome.IsErrored) : ∃ n₁, c.Finished node n outcome n₁ ∧ Parallel m n m₁ n₁ := by
  cases h with
  | terminal h hnode => exact ⟨n, .terminal h hnode, .refl hp⟩
  | unwritten h hnode hnone =>
    exact ⟨_, .unwritten h hnode hnone, (Parallel.refl hp).addTodo _⟩
  | @passThrough rule child h hnode hchild =>
    have hadd := (Parallel.refl hp).addPassThrough (c.keyOf node)
    -- an error of the child would be one of the node
    have hnot' : ¬ (c.evaluate child (m.addPassThrough (c.keyOf node))).1.IsErrored := by
      intro herrored
      rw [permissive_eq_false_of_errored hv hkind herrored, Outcome.propagated_false] at hnot
      exact hnot herrored
    obtain ⟨hsame, hparallel⟩ :=
      hchildren child (hchild ▸ List.mem_singleton_self child) _ _ hadd.permissive hnot'
    have hfinished : c.Finished node n _ _ := .passThrough h hnode hchild
    rw [hsame, Outcome.propagated_of_not_errored hnot'] at hfinished
    rw [Outcome.propagated_of_not_errored hnot']
    exact ⟨_, hfinished, hadd.trans hparallel⟩
  | @body a os m₁ h hos =>
    obtain ⟨n₁, hn₁, hparallel, hagree⟩ := repeats_outcomes hv hchildren hp hos
    rw [← runBody_congr hparallel.permissive (anyChildFailed_congr hagree) hnot]
    exact ⟨n₁, .body h hn₁, hparallel⟩
  | collect h hnode hos =>
    obtain ⟨n₁, hn₁, hparallel, -⟩ := repeats_outcomes hv hchildren hp hos
    exact ⟨n₁, .collect h hnode hn₁, hparallel⟩
  | decided h hos =>
    -- only an error decides, and it is one of the node
    obtain ⟨child, -, n', -, herrored, rfl, rfl⟩ :=
      exists_of_outcomes_eq_error (P := fun _ => True) (fun _ _ _ _ => trivial) trivial hos
    rw [permissive_eq_false_of_errored hv hkind herrored, Outcome.propagated_false] at hnot
    exact absurd herrored hnot

/-- **An operation finds again** what it found before, unless that was an error. -/
theorem repeats (hv : c.trace.Valid) (hkind : c.action.kind = .operation) (id : CstId) :
    c.Repeats id := by
  refine evaluate_induction hv (P := fun id m outcome m' => ∀ n, (m.permissive → n.permissive) →
    ¬ outcome.IsErrored → (c.evaluate id n).1 = outcome ∧ Parallel m n m' (c.evaluate id n).2)
    ?_ ?_ ?_ id
  · intro id m hnone n hp _
    rw [evaluate_of_missing hv hnone]
    exact ⟨rfl, .refl hp⟩
  · intro id node m outcome _ hknown
    rw [known?_operation hkind] at hknown
    cases hknown
  · intro id node m outcome m₁ hnode _ h ih n hp hnot
    obtain ⟨n₁, hn₁, hparallel⟩ := h.repeats hv hkind ih (n := n.start (c.keyOf node)) hp hnot
    rw [evaluate_of_finished hv hnode (known?_operation hkind _ n) hn₁]
    exact ⟨rfl, ((Parallel.refl hp).start _).trans (hparallel.set _ _)⟩

/-! ## A failure that stays -/

/-- Nodes that have a key, at or below a node, fail whenever they are evaluated while a failure is
recorded for the key. -/
def FailsAgain (c : Evaluation) (key : NodeKey) (p : Bool) (id : CstId) : Prop :=
  ∀ below node, Relation.ReflTransGen c.trace.Child below id → c.trace.cstNode? below = some node →
    c.keyOf node = key → ∀ m, (p → m.permissive) → m.get? key = some .failed →
      c.known? key m = none → (c.evaluate below m).1 = .failed

/-- A failure stays recorded when nodes with its key fail again. -/
theorem get?_failed_evaluate (hv : c.trace.Valid) {key : NodeKey} {p : Bool} {id : CstId} {m : Memo}
    (hagain : c.FailsAgain key p id) (hp : p → m.permissive) (hget : m.get? key = some .failed) :
    (c.evaluate id m).2.get? key = some .failed := by
  refine evaluate_induction hv (P := fun id m _ m' => c.FailsAgain key p id → (p → m.permissive) →
    m.get? key = some .failed → m'.get? key = some .failed) ?_ ?_ ?_ id m hagain hp hget
  · exact fun _ _ _ _ _ hget => hget
  · exact fun _ _ _ _ _ _ _ _ hget => hget
  · intro id node m outcome m₁ hnode hnew h ih hagain hp hget
    by_cases hkey : c.keyOf node = key
    · have hfailed := hagain id node .refl hnode hkey m hp hget (hkey ▸ hnew)
      rw [evaluate_of_finished hv hnode hnew h] at hfailed
      rw [hkey, Memo.get?_set_self]
      exact congrArg some hfailed
    -- what is noted about a node with another key does not matter
    · have hstart : (m.start (c.keyOf node)).get? key = some .failed := by
        rw [Memo.get?_start, if_neg (Ne.symm hkey)]
        exact hget
      rw [Memo.get?_set_of_ne _ _ (Ne.symm hkey)]
      refine (h.invariant (P := fun m => (p → m.permissive) ∧ m.get? key = some .failed) ?_
        (fun _ _ _ => ⟨fun _ => Memo.permissive_addTodo _ _, hstart⟩) (fun _ => ⟨hp, hstart⟩)
        ⟨hp, hstart⟩).2
      rintro child hchild m ⟨hp, hget⟩
      have hbelow : c.FailsAgain key p child := fun below node' hbelow =>
        hagain below node' (hbelow.tail (Trace.child_of_mem hnode hchild))
      exact ⟨fun h => (progress_evaluate hv child m).permissive (hp h),
        ih child hchild m hbelow hp hget⟩

/-! ## The node above a child that failed -/

/-- In the course of the evaluation of a node, a child gives an outcome: the evaluation begins, the
children before this one do not decide the outcome of the node, and this one is evaluated next. -/
inductive Gives (c : Evaluation) (id : CstId) (m : Memo) :
    (child : CstId) → (after : List CstId) → Outcome → Prop where
  | intro {node : CstNode} {before after : List CstId} {child : CstId} {os : List Outcome}
    {m₁ : Memo} (hnode : c.trace.cstNode? id = some node)
    (hnew : c.known? (c.keyOf node) m = none) (hchildren : node.children = before ++ child :: after)
    (hbefore : outcomes c.evaluate before (m.start (c.keyOf node)) = (.ok os, m₁)) :
    Gives c id m child after (c.evaluate child m₁).1

/-- No other node has the key of a child, among later siblings and the nodes below them. -/
def Apart (c : Evaluation) (child : CstId) (after : List CstId) : Prop :=
  ∀ sibling ∈ after, ∀ below, Relation.ReflTransGen c.trace.Child below sibling → ∀ a b,
    c.trace.cstNode? below = some a → c.trace.cstNode? child = some b → c.keyOf a = c.keyOf b →
      below = child

/-- The evaluations of several nodes follow those of the nodes before them. -/
theorem snd_outcomes_append {before after : List CstId} {m m₁ : Memo} {os : List Outcome}
    (h : outcomes c.evaluate before m = (.ok os, m₁)) :
    (outcomes c.evaluate (before ++ after) m).2 = (outcomes c.evaluate after m₁).2 := by
  induction before generalizing m os with
  | nil =>
    cases h
    rfl
  | cons id rest ih =>
    obtain ⟨hnot, others, hothers, rfl⟩ := outcomes_cons_eq_ok.mp h
    rw [List.cons_append, outcomes_cons_of_not_errored hnot]
    exact ih hothers

/-- A child that failed is known to have failed after the evaluations of its later siblings. -/
theorem get?_failed_of_later (hv : c.trace.Valid) {child : CstId} {node : CstNode}
    {after : List CstId} {m : Memo} (hnode : c.trace.cstNode? child = some node)
    (hfailed : (c.evaluate child m).1 = .failed)
    (h : c.action.kind = .property ∨ c.Apart child after) :
    (outcomes c.evaluate after (c.evaluate child m).2).2.get? (c.keyOf node) = some .failed := by
  have hget : (c.evaluate child m).2.get? (c.keyOf node) = some .failed := by
    rw [get?_evaluate hv hnode, hfailed]
  have hagain (sibling : CstId) (hsibling : sibling ∈ after) :
      c.FailsAgain (c.keyOf node) m.permissive sibling := by
    intro below a hbelow ha hkey m' hp hget' hnew
    cases hkind : c.action.kind with
    | property => exact absurd ⟨_, hget', Outcome.settled_failed⟩ (not_ended_of_new hkind hnew)
    | operation =>
      have hapart := h.resolve_left (by rw [hkind]; nofun)
      obtain rfl := hapart sibling hsibling below hbelow a node ha hnode hkey
      obtain ⟨hsame, -⟩ := repeats hv hkind below m m' hp
        (hfailed ▸ Outcome.not_isErrored_failed)
      exact hsame.trans hfailed
  refine (outcomes_invariant (P := fun m' => (m.permissive → m'.permissive) ∧
    m'.get? (c.keyOf node) = some .failed) ?_
    ⟨(progress_evaluate hv child m).permissive, hget⟩).2
  rintro sibling hsibling m' ⟨hp, hget'⟩
  exact ⟨fun h => (progress_evaluate hv sibling m').permissive (hp h),
    get?_failed_evaluate hv (hagain sibling hsibling) hp hget'⟩

/-- A body that finds a failure of a child in the memo gives no value. -/
theorem Finished.value?_eq_none {node : CstNode} {m m₁ : Memo} {outcome : Outcome}
    (h : c.Finished node m outcome m₁) (hbody : c.action.body? node.constructor ≠ none)
    (hfailed : c.anyChildFailed node (outcomes c.evaluate node.children m).2 = true) :
    outcome.value? = none := by
  cases h with
  | terminal h | unwritten h | passThrough h | collect h => exact absurd h hbody
  | body _ hos =>
    rw [hos] at hfailed
    rw [value?_runBody, if_pos hfailed]
  | decided _ hos =>
    obtain ⟨child, -, n, -, herrored, -, rfl⟩ :=
      exists_of_outcomes_eq_error (P := fun _ => True) (fun _ _ _ _ => trivial) trivial hos
    rw [Outcome.value?_propagated]
    exact Outcome.value?_eq_none_of_errored herrored

/-- **A node does not succeed after a child has failed**, if it has a body. For an operation, no
other node with the key of the child may be evaluated in between. -/
theorem not_succeeded_of_gives_failed (ht : c.trace.validate = .ok ()) {id child : CstId}
    {node : CstNode} {after : List CstId} {m : Memo} (hnode : c.trace.cstNode? id = some node)
    (hbody : c.action.body? node.constructor ≠ none) (hgives : c.Gives id m child after .failed)
    (h : c.action.kind = .property ∨ c.Apart child after) (v : Value) :
    (c.evaluate id m).1 ≠ .succeeded v := by
  have hv := Trace.valid_of_validate ht
  generalize hfailed : Outcome.failed = outcome at hgives
  cases hgives with
  | @intro node' before after child os m₁ hnode' hnew hchildren hbefore =>
    obtain rfl := Option.some.inj (hnode.symm.trans hnode')
    have hmem : child ∈ node.children := hchildren ▸ List.mem_append_right _ List.mem_cons_self
    obtain ⟨below, hbelow⟩ := hv.exists_child hnode hmem
    -- the memo is asked after all children
    have hlast : (outcomes c.evaluate node.children (m.start (c.keyOf node))).2.get?
        (c.keyOf below) = some .failed := by
      rw [hchildren, snd_outcomes_append hbefore,
        outcomes_cons_of_not_errored (hfailed ▸ Outcome.not_isErrored_failed)]
      exact get?_failed_of_later hv hbelow hfailed.symm h
    have hfinished := c.finished node (m.start (c.keyOf node))
    have hnone := hfinished.value?_eq_none hbody
      (anyChildFailed_iff.mpr ⟨child, hmem, below, hbelow, hlast⟩)
    rw [evaluate_of_finished hv hnode hnew hfinished, Ne, ← Outcome.value?_eq_some, hnone]
    nofun

/-- An empty match of the rule `Pair` with the body `Blank? "x"*`, where `Blank` has matched. There
is a body for `Pair`, which gives the value of the second factor. -/
def blanks (kind : ActionKind) : Evaluation where
  trace := {
    input := ""
    grammar := .empty
    nodes := #[⟨.of (.apply "Pair"), ⟨0, 0⟩, [], true, none, "Pair", some ⟨0⟩⟩]
    cst := #[⟨.nonterminal "Pair", ⟨0, 0⟩, [⟨1⟩, ⟨2⟩]⟩, ⟨.iter, ⟨0, 0⟩, [⟨3⟩]⟩,
      ⟨.iter, ⟨0, 0⟩, []⟩, ⟨.nonterminal "Blank", ⟨0, 0⟩, []⟩]
    root := ⟨0⟩ }
  action := ⟨"act", kind, [("Pair", ⟨"Pair", ["blank", "marks"],
    .expr (.ident ⟨1, 1, 1, 6⟩ "marks"), ⟨["blank", "marks"], "marks"⟩⟩)]⟩
  limit := 100

theorem validate_blanks (kind : ActionKind) : (blanks kind).trace.validate = .ok () := by
  have hchecks : (blanks kind).trace.validate = (blanks kind).trace.checkAcyclic := rfl
  rw [hchecks, Trace.checkAcyclic_eq_ok]
  constructor
  · cbv
  · cbv

/-- The key of a node of the empty match. -/
def emptyKey (constructor : String) : NodeKey :=
  ⟨constructor, 0, 0, "act"⟩

section Blanks

variable (kind : ActionKind) {m : Memo}

/-- `Blank` has no body, so it is listed and fails. -/
theorem evaluate_blank (hnew : (blanks kind).known? (emptyKey "Blank") m = none) :
    (blanks kind).evaluate ⟨3⟩ m = (.failed, ((m.start (emptyKey "Blank")).addTodo
      (emptyKey "Blank")).set (emptyKey "Blank") .failed) := by
  have hnode : (blanks kind).trace.cstNode? ⟨3⟩ = some ⟨.nonterminal "Blank", ⟨0, 0⟩, []⟩ := rfl
  exact evaluate_of_finished (Trace.valid_of_validate (validate_blanks kind)) hnode hnew
    (.unwritten rfl rfl (by simp))

/-- The first factor fails because `Blank` does. -/
theorem evaluate_first (hnew : (blanks kind).known? (emptyKey "_iter") m = none)
    (hblank : (blanks kind).known? (emptyKey "Blank") (m.start (emptyKey "_iter")) = none) :
    (blanks kind).evaluate ⟨1⟩ m = (.failed, ((((m.start (emptyKey "_iter")).start
      (emptyKey "Blank")).addTodo (emptyKey "Blank")).set (emptyKey "Blank") .failed).set
        (emptyKey "_iter") .failed) := by
  have hnode : (blanks kind).trace.cstNode? ⟨1⟩ = some ⟨.iter, ⟨0, 0⟩, [⟨3⟩]⟩ := rfl
  have hos : outcomes (blanks kind).evaluate [⟨3⟩] (m.start (emptyKey "_iter")) =
      (.ok [.failed], ((blanks kind).evaluate ⟨3⟩ (m.start (emptyKey "_iter"))).2) := by
    rw [outcomes, evaluate_blank kind hblank]
    rfl
  rw [evaluate_blank kind hblank] at hos
  have hfinished : (blanks kind).Finished ⟨.iter, ⟨0, 0⟩, [⟨3⟩]⟩ _
    (Outcome.collected [.failed]) _ := .collect rfl rfl hos
  exact evaluate_of_finished (Trace.valid_of_validate (validate_blanks kind)) hnode hnew hfinished

/-- The second factor is the empty list. -/
theorem evaluate_second (hnew : (blanks kind).known? (emptyKey "_iter") m = none) :
    (blanks kind).evaluate ⟨2⟩ m = (.succeeded (.list []),
      (m.start (emptyKey "_iter")).set (emptyKey "_iter") (.succeeded (.list []))) := by
  have hnode : (blanks kind).trace.cstNode? ⟨2⟩ = some ⟨.iter, ⟨0, 0⟩, []⟩ := rfl
  have hos : outcomes (blanks kind).evaluate [] (m.start (emptyKey "_iter")) =
    (.ok [], m.start (emptyKey "_iter")) := rfl
  have hfinished : (blanks kind).Finished ⟨.iter, ⟨0, 0⟩, []⟩ _ (Outcome.collected []) _ :=
    .collect rfl rfl hos
  exact evaluate_of_finished (Trace.valid_of_validate (validate_blanks kind)) hnode hnew hfinished

theorem gives_blanks : (blanks kind).Gives ⟨0⟩ .empty ⟨1⟩ [⟨2⟩] .failed := by
  have hnode : (blanks kind).trace.cstNode? ⟨0⟩ =
    some ⟨.nonterminal "Pair", ⟨0, 0⟩, [⟨1⟩, ⟨2⟩]⟩ := rfl
  have hfirst := evaluate_first kind (m := Memo.empty.start (emptyKey "Pair"))
    (by cases kind <;> rfl) (by cases kind <;> rfl)
  have hgives : (blanks kind).Gives ⟨0⟩ .empty ⟨1⟩ [⟨2⟩]
      ((blanks kind).evaluate ⟨1⟩ (Memo.empty.start (emptyKey "Pair"))).1 :=
    .intro hnode (by cases kind <;> rfl) (List.nil_append _).symm rfl
  rwa [hfirst] at hgives

end Blanks

theorem not_succeeded_of_gives_failed_blanks :
    (blanks .property).trace.validate = .ok () ∧
      (blanks .property).Gives ⟨0⟩ .empty ⟨1⟩ [⟨2⟩] .failed ∧
      ((blanks .property).evaluate ⟨0⟩ .empty).1 ≠ .succeeded (.list []) := by
  have hnode : (blanks .property).trace.cstNode? ⟨0⟩ =
    some ⟨.nonterminal "Pair", ⟨0, 0⟩, [⟨1⟩, ⟨2⟩]⟩ := rfl
  exact ⟨validate_blanks _, gives_blanks _, not_succeeded_of_gives_failed (validate_blanks _) hnode
    (Option.some_ne_none _) (gives_blanks _) (.inl rfl) _⟩

/-- **An operation can succeed after a child has failed**: the factors have the same key, and the
empty list of the second one is recorded in place of the failure of the first one. -/
theorem exists_gives_failed_and_succeeded :
    (blanks .operation).trace.validate = .ok () ∧
      (blanks .operation).action.body? "Pair" ≠ none ∧
      (blanks .operation).Gives ⟨0⟩ .empty ⟨1⟩ [⟨2⟩] .failed ∧
      ((blanks .operation).evaluate ⟨0⟩ .empty).1 = .succeeded (.list []) := by
  have hnode : (blanks .operation).trace.cstNode? ⟨0⟩ =
    some ⟨.nonterminal "Pair", ⟨0, 0⟩, [⟨1⟩, ⟨2⟩]⟩ := rfl
  obtain ⟨m₁, hfirst⟩ : ∃ m₁, (blanks .operation).evaluate ⟨1⟩
    (Memo.empty.start (emptyKey "Pair")) = (.failed, m₁) := ⟨_, evaluate_first .operation rfl rfl⟩
  obtain ⟨m₂, hsecond, hget⟩ : ∃ m₂, (blanks .operation).evaluate ⟨2⟩ m₁ =
      (.succeeded (.list []), m₂) ∧ m₂.get? (emptyKey "_iter") = some (.succeeded (.list [])) :=
    ⟨_, evaluate_second .operation (known?_operation rfl _ _), Memo.get?_set_self _ _ _⟩
  have hos : outcomes (blanks .operation).evaluate [⟨1⟩, ⟨2⟩]
      (Memo.empty.start (emptyKey "Pair")) = (.ok [.failed, .succeeded (.list [])], m₂) := by
    simp only [outcomes, hfirst, hsecond]
    rfl
  have hfinished : (blanks .operation).Finished ⟨.nonterminal "Pair", ⟨0, 0⟩, [⟨1⟩, ⟨2⟩]⟩ _ _ _ :=
    .body rfl hos
  -- the memo knows both children by the value of the second one
  have hchildren : (blanks .operation).anyChildFailed ⟨.nonterminal "Pair", ⟨0, 0⟩, [⟨1⟩, ⟨2⟩]⟩ m₂ =
      false := by
    change ((m₂.get? (emptyKey "_iter")).any Outcome.isFailed ||
      ((m₂.get? (emptyKey "_iter")).any Outcome.isFailed || false)) = false
    rw [hget]
    rfl
  rw [evaluate_of_finished (Trace.valid_of_validate (validate_blanks _)) hnode rfl hfinished]
  refine ⟨validate_blanks _, Option.some_ne_none _, gives_blanks _, ?_⟩
  rw [runBody, hchildren]
  rfl

end ParseActions.Evaluation
