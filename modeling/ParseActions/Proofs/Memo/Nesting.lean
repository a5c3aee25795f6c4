import ParseActions.Proofs.Eval.Sizes
import ParseActions.Proofs.Memo.Reference

/-!
# How deep the values of nodes nest

A body builds values within the bounds, but it is given the results of the children in a list, and
this list in a record, and may give these back; a repetition without a body puts the results of its
children in a list, and an only child's result is passed on. None of these is checked, so the values
of nodes nest as deep as the syntax tree lets them: the nesting is bounded by recursion on the nodes
below a node, and so by the number of nodes.

## Main definitions

* `Evaluation.nesting`, `Evaluation.levels`: the nesting that the value of a node may have, given that
  of the values of its children, and by recursion
* `Evaluation.Leveled`: what is recorded nests no deeper than a node of this key may
* `Evaluation.Shallow`: what is recorded nests no deeper than the number of evaluations allows

## Main results

* `Evaluation.Finished.nestsTo`: a node adds to the nesting of its children what `nesting` says
* `Evaluation.leveled_evaluate`, `Evaluation.shallow_evaluate`: evaluations keep both bounds
* `Evaluation.levels_le`: the nesting is bounded by the number of nodes
-/

namespace ParseActions

open Footprint (maxDepth)

/-! ## What a body is given -/

namespace Value

theorem heights_le {items : List Value} {n : Nat} (h : ∀ v ∈ items, v.height ≤ n) :
    heights items ≤ n := by
  induction items with
  | nil => exact Nat.zero_le n
  | cons v items ih =>
    obtain ⟨hv, hitems⟩ := List.forall_mem_cons.mp h
    exact Nat.max_le.mpr ⟨hv, ih hitems⟩

/-- Fields that are set again do not nest deeper. -/
theorem fieldHeights_ofList_le (fields : List (String × Value)) :
    fieldHeights (Keyed.ofList fields) ≤ fieldHeights fields := by
  -- setting one field keeps to the deepest of all
  refine List.foldlRecOn (motive := fun m => fieldHeights m ≤ fieldHeights fields) fields _
    (Nat.zero_le _) fun m hm field hfield => ?_
  exact Nat.le_trans fieldHeights_insert_le (Nat.max_le.mpr ⟨hm, height_le_of_mem_fields hfield⟩)

end Value

/-- The value of an outcome, if it has one, nests up to so many levels. -/
def Outcome.NestsTo (outcome : Outcome) (levels : Nat) : Prop :=
  ∀ v, outcome.value? = some v → v.height ≤ levels

theorem Outcome.NestsTo.mono {outcome : Outcome} {levels levels' : Nat} (h : outcome.NestsTo levels)
    (hle : levels ≤ levels') : outcome.NestsTo levels' :=
  fun v hv => Nat.le_trans (h v hv) hle

theorem Outcome.nestsTo_of_errored {outcome : Outcome} (h : outcome.IsErrored) (levels : Nat) :
    outcome.NestsTo levels := by
  intro v hv
  rw [Outcome.value?_eq_none_of_errored h] at hv
  cases hv

theorem Outcome.NestsTo.argument {outcome : Outcome} {levels : Nat} (h : outcome.NestsTo levels) :
    outcome.argument.height ≤ levels := by
  rw [Outcome.argument]
  cases hv : outcome.value? with
  | none => exact Nat.zero_le levels
  | some v => exact h v hv

/-- The list of the values of outcomes nests one level more than these. -/
theorem Outcome.nestsTo_collected {outcomes : List Outcome} {levels : Nat}
    (h : ∀ outcome ∈ outcomes, outcome.NestsTo levels) :
    (Outcome.collected outcomes).NestsTo (levels + 1) := by
  intro v hv
  rw [collected] at hv
  cases hvalues : outcomes.mapM value? with
  | none =>
    rw [hvalues] at hv
    cases hv
  | some values =>
    rw [hvalues] at hv
    cases hv
    refine Nat.succ_le_succ (Value.heights_le fun v hv => ?_)
    rw [← map_argument hvalues] at hv
    obtain ⟨outcome, houtcome, rfl⟩ := List.mem_map.mp hv
    exact (h outcome houtcome).argument

namespace Evaluation

variable {c : Evaluation}

/-- The description of a node nests two levels more than the results of its children. -/
theorem height_describe_le (node : CstNode) {args : List Value} {n : Nat}
    (h : ∀ v ∈ args, v.height ≤ n) : (c.describe node args).height ≤ n + 2 := by
  have hfields := Value.fieldHeights_ofList_le [("rule", .string node.constructor),
    ("source", .string (c.trace.text node.interval)),
    ("start", .number (Float.ofNat node.interval.start)),
    ("end", .number (Float.ofNat node.interval.stop)), ("args", .list args)]
  simp only [Value.fieldHeights, Value.height] at hfields
  have hargs := Value.heights_le h
  rw [describe, Value.ofFields, Value.height]
  omega

/-- **What a body finds bound** nests at most two levels more than the results of the children. -/
theorem all_height_environment (a : RuleAction) (node : CstNode) {args : List Value} {n : Nat}
    (h : ∀ v ∈ args, v.height ≤ n) :
    (a.environment args (c.describe node args)).All fun v => v.height ≤ n + 2 := by
  have hargs := Value.heights_le h
  refine Environment.all_ofBindings fun binding hbinding => ?_
  rcases List.mem_append.mp hbinding with hbinding | hnamed
  · rcases List.mem_append.mp hbinding with hwhole | hnumbered
    · rcases List.mem_cons.mp hwhole with rfl | hthis
      · exact Nat.succ_le_succ (Nat.le_succ_of_le hargs)
      · obtain rfl := List.mem_singleton.mp hthis
        exact height_describe_le node h
    · obtain ⟨i, hi, rfl⟩ := List.mem_mapIdx.mp hnumbered
      exact Nat.le_add_right_of_le (h _ (List.getElem_mem hi))
  · exact Nat.le_add_right_of_le (h _ (List.of_mem_zip hnamed).2)

/-! ## What a node adds -/

/-- The nesting that the value of a node may have, where the values of its children nest up to `below`
levels. -/
def nesting (c : Evaluation) (node : CstNode) (below : Nat) : Nat :=
  match c.action.body? node.constructor, node.kind with
  | some _, _ => max maxDepth (below + 2)
  | none, .terminal => 0
  | none, .iter => below + 1
  | none, .nonterminal _ => below

/-- A node adds at most two levels. -/
theorem nesting_le (c : Evaluation) (node : CstNode) (below : Nat) :
    c.nesting node below ≤ max maxDepth (below + 2) := by
  unfold nesting
  split <;> omega

variable {node : CstNode}

/-- A body gives a value that nests as the bounds say, or as what it is given does. -/
theorem nestsTo_runBody {a : RuleAction} (h : c.action.body? node.constructor = some a)
    {args : List Value} {below : Nat} (hargs : ∀ v ∈ args, v.height ≤ below) (m : Memo) :
    (c.runBody a node args m).NestsTo (c.nesting node below) := by
  intro v hv
  have hresult : (a.run (a.environment args (c.describe node args)) c.limit).result = .ok v := by
    rw [value?_runBody] at hv
    cases hrun : (a.run (a.environment args (c.describe node args)) c.limit).result with
    | ok w =>
      rw [hrun] at hv
      split at hv <;> cases hv
      rfl
    | error e =>
      rw [hrun] at hv
      split at hv <;> cases hv
  simp only [nesting, h]
  refine a.body.height_le_of_eval (Nat.le_max_left _ _) c.limit ?_ hresult
  exact (all_height_environment a node hargs).mono fun _ hw => Nat.le_trans hw (Nat.le_max_right _ _)

variable {I : Memo → Prop} {B : Memo → Nat} {m m₁ : Memo} {outcome : Outcome}

/-- **A node adds to the nesting** of what its children evaluate to, as `nesting` says. The bound for
the children may grow with the memo. -/
theorem Finished.nestsTo (h : c.Finished node m outcome m₁)
    (hmono : ∀ ids m, B m ≤ B (outcomes c.evaluate ids m).2)
    (hchildren : ∀ child ∈ node.children, ∀ m, I m → I (c.evaluate child m).2 ∧
      (c.evaluate child m).1.NestsTo (B (c.evaluate child m).2))
    (hm : I m) (hpassThrough : I (m.addPassThrough (c.keyOf node))) :
    outcome.NestsTo (c.nesting node (B m₁)) := by
  have hgathered {os : List Outcome} (hos : outcomes c.evaluate node.children m = (.ok os, m₁)) :
      ∀ o ∈ os, o.NestsTo (B m₁) := by
    intro o ho
    obtain ⟨child, hchild, n, hn, rfl, -, later, hlater⟩ :=
      exists_of_mem_outcomes (fun child hchild n hn => (hchildren child hchild n hn).1) hm hos ho
    exact (hchildren child hchild n hn).2.mono (hlater ▸ hmono later _)
  cases h with
  | terminal hbody hkind =>
    rintro v ⟨⟩
    exact Nat.zero_le _
  | unwritten => nofun
  | passThrough hbody hkind hchild =>
    intro v hv
    rw [Outcome.value?_propagated] at hv
    simp only [nesting, hbody, hkind]
    exact (hchildren _ (hchild ▸ List.mem_singleton_self _) _ hpassThrough).2 v hv
  | body hbody hos =>
    refine nestsTo_runBody hbody (fun v hv => ?_) m₁
    obtain ⟨o, ho, rfl⟩ := List.mem_map.mp hv
    exact (hgathered hos o ho).argument
  | collect hbody hkind hos =>
    simp only [nesting, hbody, hkind]
    exact Outcome.nestsTo_collected (hgathered hos)
  | decided _ hos =>
    obtain ⟨child, -, n, -, herrored, -, rfl⟩ :=
      exists_of_outcomes_eq_error (fun child hchild n hn => (hchildren child hchild n hn).1) hm hos
    intro v hv
    rw [Outcome.value?_propagated] at hv
    exact Outcome.nestsTo_of_errored herrored _ v hv

/-! ## The bound by recursion -/

/-- The most that a function gives for some nodes. -/
def deepest {α : Type} (f : α → Nat) (ids : List α) : Nat :=
  (ids.map f).foldr max 0

theorem le_deepest {α : Type} {f : α → Nat} {ids : List α} {id : α} (h : id ∈ ids) :
    f id ≤ deepest f ids := by
  induction ids with
  | nil => cases h
  | cons other ids ih =>
    change f id ≤ max (f other) (deepest f ids)
    rcases List.mem_cons.mp h with rfl | h
    · exact Nat.le_max_left _ _
    · exact Nat.le_trans (ih h) (Nat.le_max_right _ _)

theorem deepest_map {α β : Type} {f : α → Nat} (g : β → α) (ids : List β) :
    deepest f (ids.map g) = deepest (fun id => f (g id)) ids := by
  rw [deepest, List.map_map]
  rfl

theorem deepest_le {α : Type} {f : α → Nat} {ids : List α} {n : Nat} (h : ∀ id ∈ ids, f id ≤ n) :
    deepest f ids ≤ n := by
  induction ids with
  | nil => exact Nat.zero_le n
  | cons id ids ih =>
    obtain ⟨hid, hids⟩ := List.forall_mem_cons.mp h
    exact Nat.max_le.mpr ⟨hid, ih hids⟩

/-- **The nesting that the value of a node may have**, by recursion on the nodes below it. -/
def levels (c : Evaluation) (hv : c.trace.Valid) (id : CstId) : Nat :=
  match c.trace.cstNode? id with
  | none => 0
  | some node =>
    c.nesting node (deepest (fun child => c.levels hv child.1) (c.trace.cstChildren id).attach)
termination_by hv.wellFounded.wrap id
decreasing_by exact child.2

theorem levels_eq_nesting (hv : c.trace.Valid) {id : CstId}
    (hnode : c.trace.cstNode? id = some node) :
    c.levels hv id = c.nesting node (deepest (c.levels hv) node.children) := by
  rw [levels, hnode]
  dsimp only
  rw [← deepest_map (f := c.levels hv) Subtype.val, List.attach_map_subtype_val,
    Trace.cstChildren_of_cstNode? hnode]

/-- **The nesting is bounded by the number of nodes**, as no node is below itself. -/
theorem levels_le (hv : c.trace.Valid) (id : CstId) :
    c.levels hv id ≤ maxDepth + 2 * c.trace.cst.size := by
  obtain ⟨rank, hsize, hrank⟩ :=
    Graph.exists_rank (Trace.treeGraph_lt hv.treeChildren) hv.treeAcyclic
  suffices h : c.levels hv id ≤ maxDepth + 2 * rank id.index by
    have hle := hsize id.index
    omega
  induction id using hv.tree_induction with
  | step id ih =>
    cases hnode : c.trace.cstNode? id with
    | none =>
      rw [levels, hnode]
      exact Nat.zero_le _
    | some node =>
      rw [Trace.cstChildren_of_cstNode? hnode] at ih
      have hdown : ∀ child ∈ node.children, rank child.index < rank id.index := fun child hchild =>
        hrank _ (Trace.index_lt_of_cstNode? hnode) _ (List.mem_map.mpr
          ⟨child, Trace.cstChildren_of_cstNode? hnode ▸ hchild, rfl⟩)
      have hbelow : deepest (c.levels hv) node.children ≤ maxDepth + 2 * rank id.index - 2 := by
        refine deepest_le fun child hchild => ?_
        have hle := ih child hchild
        have hlt := hdown child hchild
        omega
      have hbound : 2 ≤ maxDepth := by decide
      have hadded := c.nesting_le node (deepest (c.levels hv) node.children)
      rw [levels_eq_nesting hv hnode]
      omega

/-- What is recorded nests no deeper than a node of this key may. -/
def Leveled (c : Evaluation) (hv : c.trace.Valid) (m : Memo) : Prop :=
  ∀ key outcome, m.get? key = some outcome → ∀ v, outcome.value? = some v →
    ∃ id node, c.trace.cstNode? id = some node ∧ c.keyOf node = key ∧ v.height ≤ c.levels hv id

namespace Leveled

variable {hv : c.trace.Valid}

theorem empty : c.Leveled hv .empty :=
  fun _ _ h => nomatch h

theorem start (h : c.Leveled hv m) (key : NodeKey) : c.Leveled hv (m.start key) := by
  intro k outcome hget
  rw [Memo.get?_start] at hget
  split at hget
  · obtain rfl := Option.some.inj hget
    nofun
  · exact h k outcome hget

theorem set (h : c.Leveled hv m) {id : CstId} (hnode : c.trace.cstNode? id = some node)
    (houtcome : outcome.NestsTo (c.levels hv id)) : c.Leveled hv (m.set (c.keyOf node) outcome) := by
  intro k o hget
  rw [Memo.get?_set] at hget
  split at hget
  · next hkey =>
    obtain rfl := Option.some.inj hget
    exact fun v hvalue => ⟨id, node, hnode, hkey.symm, houtcome v hvalue⟩
  · exact h k o hget

end Leveled

/-- **Evaluations keep the bound by recursion**, where outcomes are not used again or different nodes
have different keys. -/
theorem leveled_evaluate (hv : c.trace.Valid)
    (hkeys : c.action.kind = .operation ∨ c.trace.Distinct) (id : CstId) :
    ∀ m, c.Leveled hv m →
      c.Leveled hv (c.evaluate id m).2 ∧ (c.evaluate id m).1.NestsTo (c.levels hv id) := by
  refine evaluate_induction hv (P := fun id m outcome m' => c.Leveled hv m →
    c.Leveled hv m' ∧ outcome.NestsTo (c.levels hv id)) ?_ ?_ ?_ id
  · exact fun _ _ _ hm => ⟨hm, nofun⟩
  · intro id node m outcome hnode hknown hm
    refine ⟨hm, fun v hvalue => ?_⟩
    rw [known?] at hknown
    split at hknown
    · cases hknown
    · cases hknown
    · next hkind _ =>
      -- the outcome was recorded for a node of this key, and there is no other
      obtain ⟨i, other, hother, hkey, hle⟩ := hm _ _ hknown v hvalue
      have hd := hkeys.resolve_left fun h => by rw [hkind] at h; cases h
      exact keyOf_injective hd hother hnode hkey ▸ hle
  · intro id node m outcome m₁ hnode _ h ih hm
    have hstart := hm.start (c.keyOf node)
    have houtcome : outcome.NestsTo (c.levels hv id) := by
      rw [levels_eq_nesting hv hnode]
      refine h.nestsTo (I := c.Leveled hv) (B := fun _ => deepest (c.levels hv) node.children)
        (fun _ _ => Nat.le_refl _) (fun child hchild n hn => ?_) hstart hstart
      obtain ⟨hkept, hnests⟩ := ih child hchild n hn
      exact ⟨hkept, hnests.mono (le_deepest hchild)⟩
    have hm₁ : c.Leveled hv m₁ :=
      h.invariant (fun child hchild n hn => (ih child hchild n hn).1) (fun _ _ _ => hstart)
        (fun _ => hstart) hstart
    exact ⟨hm₁.set hnode houtcome, houtcome⟩

/-! ## The bound by the number of evaluations -/

/-- The number of evaluations does not decrease. -/
theorem evaluations_le_evaluate (hv : c.trace.Valid) (id : CstId) (m : Memo) :
    m.evaluations ≤ (c.evaluate id m).2.evaluations :=
  evaluate_invariant hv (P := fun m' => m.evaluations ≤ m'.evaluations)
    (fun _ _ h => Nat.le_succ_of_le h) (fun _ _ _ h => h) (fun _ _ h => h) (fun _ _ h => h) id m
    (Nat.le_refl _)

theorem evaluations_le_outcomes (hv : c.trace.Valid) (ids : List CstId) (m : Memo) :
    m.evaluations ≤ (outcomes c.evaluate ids m).2.evaluations :=
  outcomes_invariant (P := fun m' => m.evaluations ≤ m'.evaluations)
    (fun id _ n hn => Nat.le_trans hn (evaluations_le_evaluate hv id n)) (Nat.le_refl _)

/-- While the evaluations of some nodes have begun and not ended, every value that is recorded nests
at most two levels for each evaluation that has ended, beyond what values may. -/
structure Shallow (waiting : Nat) (m : Memo) : Prop where
  begun : waiting ≤ m.evaluations
  nests : ∀ key outcome, m.get? key = some outcome →
    outcome.NestsTo (maxDepth + 2 * (m.evaluations - waiting))

namespace Shallow

variable {waiting : Nat}

theorem empty : Shallow 0 .empty :=
  ⟨Nat.zero_le 0, fun _ _ h => nomatch h⟩

theorem start (h : Shallow waiting m) (key : NodeKey) : Shallow (waiting + 1) (m.start key) where
  begun := Nat.succ_le_succ h.begun
  nests k o hget := by
    have hcount : (m.start key).evaluations - (waiting + 1) = m.evaluations - waiting :=
      Nat.add_sub_add_right _ 1 _
    rw [hcount]
    rw [Memo.get?_start] at hget
    split at hget
    · obtain rfl := Option.some.inj hget
      nofun
    · exact h.nests k o hget

/-- The evaluation of a node ends when its outcome is recorded. -/
theorem set (h : Shallow (waiting + 1) m) (key : NodeKey)
    (houtcome : outcome.NestsTo (maxDepth + 2 * (m.evaluations - waiting))) :
    Shallow waiting (m.set key outcome) where
  begun := Nat.le_of_succ_le h.begun
  nests k o hget := by
    rw [Memo.get?_set] at hget
    split at hget
    · exact Option.some.inj hget ▸ houtcome
    · have hle : m.evaluations - (waiting + 1) ≤ m.evaluations - waiting :=
        Nat.sub_le_sub_left (Nat.le_succ waiting) _
      exact (h.nests k o hget).mono (Nat.add_le_add_left (Nat.mul_le_mul_left 2 hle) _)

end Shallow

/-- **Evaluations keep the bound by their number**, whatever the keys are. -/
theorem shallow_evaluate (hv : c.trace.Valid) (id : CstId) :
    ∀ m waiting, Shallow waiting m → Shallow waiting (c.evaluate id m).2 ∧
      (c.evaluate id m).1.NestsTo
        (maxDepth + 2 * ((c.evaluate id m).2.evaluations - waiting)) := by
  refine evaluate_induction hv (P := fun _ m outcome m' => ∀ waiting, Shallow waiting m →
    Shallow waiting m' ∧ outcome.NestsTo (maxDepth + 2 * (m'.evaluations - waiting))) ?_ ?_ ?_ id
  · exact fun _ _ _ _ hm => ⟨hm, nofun⟩
  · exact fun _ _ _ _ _ hknown _ hm => ⟨hm, hm.nests _ _ (known?_eq_some hknown).1⟩
  · intro _ node m outcome m₁ _ _ h ih waiting hm
    have hstart := hm.start (c.keyOf node)
    have hpassThrough :
        Shallow (waiting + 1) ((m.start (c.keyOf node)).addPassThrough (c.keyOf node)) :=
      ⟨hstart.begun, hstart.nests⟩
    have hm₁ : Shallow (waiting + 1) m₁ :=
      h.invariant (fun child hchild n hn => (ih child hchild n _ hn).1)
        (fun _ _ _ => ⟨hstart.begun, hstart.nests⟩) (fun _ => hpassThrough) hstart
    -- what the evaluation of this node adds is counted when it ends
    have houtcome : outcome.NestsTo (maxDepth + 2 * (m₁.evaluations - waiting)) := by
      refine (h.nestsTo (I := Shallow (waiting + 1))
        (B := fun n => maxDepth + 2 * (n.evaluations - (waiting + 1))) (fun ids n => ?_)
        (fun child hchild n hn => ih child hchild n _ hn) hstart hpassThrough).mono ?_
      · have hle := evaluations_le_outcomes hv ids n
        omega
      · have hbegun := hm₁.begun
        have hadded := c.nesting_le node (maxDepth + 2 * (m₁.evaluations - (waiting + 1)))
        omega
    exact ⟨hm₁.set _ houtcome, houtcome⟩

end Evaluation

end ParseActions
