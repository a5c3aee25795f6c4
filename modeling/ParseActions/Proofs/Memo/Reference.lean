import ParseActions.Proofs.Memo.Progress

/-!
# Recorded values

Without a memo, the value of a node follows by recursion from the values of its children. Whatever
the order in which nodes are evaluated, and however often, each outcome that is recorded for a node
has the value of this node, or none where there is none.

This needs that different nodes have different keys. While it holds, a node has no value only when a
body at or below it raises an error or is missing; a failure is recorded only after a body was found
missing, and from then on no error is recorded in its place.

## Main definitions

* `Evaluation.combine?`, `Evaluation.value?`: the value that a node makes of those of its children,
  and the value of a node by recursion
* `Trace.Distinct`: different nodes of the syntax tree differ in their name or their interval
* `Evaluation.Faithful`: what is recorded agrees with the values

## Main results

* `Evaluation.faithful_evaluate`: every evaluation keeps a memo faithful
-/

namespace ParseActions

/-- No two nodes of the syntax tree agree in both their name and their interval. -/
def Trace.Distinct (t : Trace) : Prop :=
  ∀ i j a b, t.cstNode? i = some a → t.cstNode? j = some b → a.constructor = b.constructor →
    a.interval = b.interval → i = j

theorem Trace.distinct_of_nodup {t : Trace}
    (h : (t.cst.toList.map fun node => (node.constructor, node.interval)).Nodup) : t.Distinct := by
  intro i j a b ha hb hconstructor hinterval
  have hget {k : CstId} {node : CstNode} (hk : t.cstNode? k = some node) :
      (t.cst.toList.map fun node => (node.constructor, node.interval))[k.index]? =
        some (node.constructor, node.interval) := by
    rw [List.getElem?_map, Array.getElem?_toList, show t.cst[k.index]? = some node from hk,
      Option.map_some]
  have hlt : i.index < (t.cst.toList.map fun node => (node.constructor, node.interval)).length :=
    (List.getElem?_eq_some_iff.mp (hget ha)).1
  have hindex : i.index = j.index :=
    (List.getElem?_inj hlt h).mp (by rw [hget ha, hget hb, hconstructor, hinterval])
  exact congrArg CstId.mk hindex

theorem Trace.distinct_sample : Trace.sample.Distinct :=
  Trace.distinct_of_nodup (by decide)

namespace Evaluation

/-! ## Values of nodes -/

/-- The value that a node makes of the values of its children: that of its body, if it has one, or
else that of an only child, the text of a terminal, or the list of the values of a repetition. -/
def combine? {α : Type} (c : Evaluation) (node : CstNode) (children : List α)
    (valueOf : α → Option Value) : Option Value :=
  match c.action.body? node.constructor, node.kind with
  | some a, _ => do
    let args ← children.mapM valueOf
    (a.run (a.environment args (c.describe node args)) c.limit).result.toOption
  | none, .terminal => some (.string (c.trace.text node.interval))
  | none, .iter => do
    let values ← children.mapM valueOf
    return .list values
  | none, .nonterminal _ =>
    match children with
    | [child] => valueOf child
    | _ => none

/-- **The value of a node**, by recursion on the nodes below it. -/
def value? (c : Evaluation) (hv : c.trace.Valid) (id : CstId) : Option Value :=
  match c.trace.cstNode? id with
  | none => none
  | some node => c.combine? node (c.trace.cstChildren id).attach fun child => c.value? hv child.1
termination_by hv.wellFounded.wrap id
decreasing_by exact child.2

variable {c : Evaluation} {hv : c.trace.Valid}

theorem combine?_map {α β : Type} (node : CstNode) (g : β → α) (children : List β)
    (valueOf : α → Option Value) :
    c.combine? node (children.map g) valueOf =
      c.combine? node children fun child => valueOf (g child) := by
  unfold combine?
  rw [List.mapM_map]
  rcases children with - | ⟨child, - | ⟨child', rest⟩⟩ <;> rfl

section Values

variable {id : CstId} {node : CstNode} (hnode : c.trace.cstNode? id = some node)
include hnode

/-- The value of a node is what the node makes of the values of its children. -/
theorem value?_eq_combine? :
    c.value? hv id = c.combine? node node.children (c.value? hv) := by
  rw [value?, hnode]
  dsimp only
  rw [← combine?_map node Subtype.val _ (c.value? hv), List.attach_map_subtype_val,
    Trace.cstChildren_of_cstNode? hnode]

theorem value?_of_body {a : RuleAction} (h : c.action.body? node.constructor = some a) :
    c.value? hv id = (node.children.mapM (c.value? hv)).bind fun args =>
      (a.run (a.environment args (c.describe node args)) c.limit).result.toOption := by
  rw [value?_eq_combine? hnode]
  simp only [combine?, h]
  rfl

theorem value?_of_terminal (h : c.action.body? node.constructor = none)
    (hkind : node.kind = .terminal) : c.value? hv id = some (c.textOf node) := by
  rw [value?_eq_combine? hnode]
  simp only [combine?, h, hkind, textOf]

theorem value?_of_iter (h : c.action.body? node.constructor = none) (hkind : node.kind = .iter) :
    c.value? hv id = (node.children.mapM (c.value? hv)).map .list := by
  rw [value?_eq_combine? hnode]
  simp only [combine?, h, hkind]
  cases node.children.mapM (c.value? hv) <;> rfl

theorem value?_of_passThrough (h : c.action.body? node.constructor = none) {rule : String}
    (hkind : node.kind = .nonterminal rule) {child : CstId} (hchild : node.children = [child]) :
    c.value? hv id = c.value? hv child := by
  rw [value?_eq_combine? hnode]
  simp only [combine?, h, hkind, hchild]

theorem value?_of_unwritten (h : c.action.body? node.constructor = none) {rule : String}
    (hkind : node.kind = .nonterminal rule) (hchildren : ∀ child, node.children ≠ [child]) :
    c.value? hv id = none := by
  rw [value?_eq_combine? hnode]
  simp only [combine?, h, hkind]

end Values

/-! ## Faithful memos -/

/-- What is recorded agrees with the values of nodes, and no failure was recorded before a body was
found missing. -/
structure Faithful (c : Evaluation) (hv : c.trace.Valid) (m : Memo) : Prop where
  value? : ∀ id node outcome, c.trace.cstNode? id = some node →
    m.get? (c.keyOf node) = some outcome → outcome.Settled → outcome.value? = c.value? hv id
  permissive : ∀ key, m.get? key = some .failed → m.permissive

/-- An outcome of a node that may be recorded in a faithful memo. -/
def Fits (c : Evaluation) (hv : c.trace.Valid) (id : CstId) (m : Memo) (outcome : Outcome) : Prop :=
  outcome.value? = c.value? hv id ∧ (outcome = .failed → m.permissive)

theorem keyOf_injective (hd : c.trace.Distinct) {i j : CstId} {a b : CstNode}
    (ha : c.trace.cstNode? i = some a) (hb : c.trace.cstNode? j = some b)
    (h : c.keyOf a = c.keyOf b) : i = j := by
  simp only [keyOf, NodeKey.of, NodeKey.mk.injEq] at h
  obtain ⟨hconstructor, hstart, hstop, -⟩ := h
  have hinterval : a.interval = b.interval := by
    cases ha' : a.interval
    cases hb' : b.interval
    simp_all
  exact hd i j a b ha hb hconstructor hinterval

theorem faithful_empty : c.Faithful hv .empty :=
  ⟨fun _ _ _ _ h => (by cases h), fun _ h => by cases h⟩

namespace Faithful

variable {m m' : Memo}

theorem start (h : c.Faithful hv m) (key : NodeKey) : c.Faithful hv (m.start key) where
  value? id node outcome hnode hget hsettled := by
    rw [Memo.get?_start] at hget
    split at hget
    · exact absurd (Option.some.inj hget).symm hsettled
    · exact h.value? id node outcome hnode hget hsettled
  permissive k hget := by
    rw [Memo.get?_start] at hget
    split at hget
    · cases hget
    · exact h.permissive k hget

theorem addTodo (h : c.Faithful hv m) (key : NodeKey) : c.Faithful hv (m.addTodo key) :=
  ⟨h.value?, fun _ _ => Memo.permissive_addTodo m key⟩

theorem addPassThrough (h : c.Faithful hv m) (key : NodeKey) :
    c.Faithful hv (m.addPassThrough key) :=
  ⟨h.value?, h.permissive⟩

/-- Recording an outcome that fits keeps the memo faithful. No other node has the same key. -/
theorem set (h : c.Faithful hv m) (hd : c.trace.Distinct) {id : CstId} {node : CstNode}
    (hnode : c.trace.cstNode? id = some node) {outcome : Outcome} (hfits : c.Fits hv id m outcome) :
    c.Faithful hv (m.set (c.keyOf node) outcome) where
  value? i n o hn hget hsettled := by
    rw [Memo.get?_set] at hget
    split at hget
    · next hkey =>
      -- the key is that of one node only
      obtain rfl := keyOf_injective hd hn hnode hkey
      exact Option.some.inj hget ▸ hfits.1
    · exact h.value? i n o hn hget hsettled
  permissive k hget := by
    rw [Memo.get?_set] at hget
    split at hget
    · exact hfits.2 (Option.some.inj hget)
    · exact h.permissive k hget

/-- A failure stays one: its node has no value, and no error takes its place. -/
theorem get?_failed_of_progress (h : c.Faithful hv m) (h' : c.Faithful hv m')
    (hp : Memo.Progress m m') {id : CstId} {node : CstNode}
    (hnode : c.trace.cstNode? id = some node) (hfailed : m.get? (c.keyOf node) = some .failed) :
    m'.get? (c.keyOf node) = some .failed := by
  -- the outcome that is recorded later has no value either, and an error would have come too late
  obtain ⟨outcome, hget, hsettled⟩ := hp.ended ⟨.failed, hfailed, Outcome.settled_failed⟩
  have hnone : outcome.value? = none := by
    rw [h'.value? id node outcome hnode hget hsettled]
    exact (h.value? id node .failed hnode hfailed Outcome.settled_failed).symm
  rcases Outcome.failed_or_errored hsettled hnone with rfl | ⟨e, rfl⟩
  · exact hget
  · rw [hp.errored (h.permissive _ hfailed) _ e hget] at hfailed
    cases hfailed

end Faithful

/-! ## Evaluations keep memos faithful -/

/-- An evaluation of a node keeps every faithful memo faithful. -/
def Keeps (c : Evaluation) (hv : c.trace.Valid) (id : CstId) : Prop :=
  ∀ m, c.Faithful hv m → c.Faithful hv (c.evaluate id m).2

/-- How the outcomes of several nodes agree with the values of the nodes. -/
def FitAll (c : Evaluation) (hv : c.trace.Valid) (ids : List CstId) (m : Memo) :
    Except Outcome (List Outcome) → Prop
  | .ok os => os.mapM Outcome.value? = ids.mapM (c.value? hv) ∧
    ∀ id ∈ ids, c.value? hv id = none →
      ∃ node, c.trace.cstNode? id = some node ∧ m.get? (c.keyOf node) = some .failed
  | .error decided => ids.mapM (c.value? hv) = none ∧ decided.value? = none ∧
    (decided = .failed → m.permissive)

/-- An evaluation that keeps memos faithful gives an outcome that fits. -/
theorem Keeps.fits (hv : c.trace.Valid) {id : CstId} {node : CstNode} (h : c.Keeps hv id)
    (hnode : c.trace.cstNode? id = some node) {m : Memo} (hm : c.Faithful hv m) :
    c.Fits hv id (c.evaluate id m).2 (c.evaluate id m).1 := by
  have hget := get?_evaluate hv hnode m
  refine ⟨(h m hm).value? id node _ hnode hget (settled_evaluate hv id m), fun hfailed => ?_⟩
  rw [hfailed] at hget
  exact (h m hm).permissive _ hget

/-- An error counts as a failure only once a body is missing. -/
theorem permissive_of_propagated {outcome : Outcome} {p : Bool}
    (h : outcome.propagated p = .failed) : outcome = .failed ∨ p = true := by
  cases p with
  | false =>
    rw [Outcome.propagated_false] at h
    exact .inl h
  | true => exact .inr rfl

/-- The outcomes of several nodes agree with the values of the nodes. -/
theorem fitAll_outcomes (hv : c.trace.Valid) {ids : List CstId}
    (hkeeps : ∀ id ∈ ids, c.Keeps hv id)
    (hexists : ∀ id ∈ ids, ∃ node, c.trace.cstNode? id = some node) {m : Memo}
    (hm : c.Faithful hv m) :
    c.Faithful hv (outcomes c.evaluate ids m).2 ∧
      c.FitAll hv ids (outcomes c.evaluate ids m).2 (outcomes c.evaluate ids m).1 := by
  induction ids generalizing m with
  | nil =>
    rw [outcomes]
    exact ⟨hm, rfl, by simp⟩
  | cons id rest ih =>
    obtain ⟨node, hnode⟩ := hexists id List.mem_cons_self
    have hid := hkeeps id List.mem_cons_self
    have hfits := hid.fits hv hnode hm
    by_cases h : (c.evaluate id m).1.IsErrored
    -- an error decides; no value, so the values of all are none
    · rw [outcomes_cons_of_errored h]
      have hnone : c.value? hv id = none := by rw [← hfits.1, Outcome.value?_eq_none_of_errored h]
      refine ⟨hid m hm, by rw [List.mapM_cons, hnone]; rfl, ?_, fun hfailed => ?_⟩
      · rw [Outcome.value?_propagated, hfits.1, hnone]
      · exact (permissive_of_propagated hfailed).elim hfits.2 fun hp => hp
    · obtain ⟨hrest, hfitAll⟩ := ih (fun id hid => hkeeps id (List.mem_cons_of_mem _ hid))
        (fun id hid => hexists id (List.mem_cons_of_mem _ hid)) (hid m hm)
      have hprogress := progress_outcomes hv rest (c.evaluate id m).2
      rw [outcomes_cons_of_not_errored h]
      refine ⟨hrest, ?_⟩
      generalize (outcomes c.evaluate rest (c.evaluate id m).2).1 = g at hfitAll ⊢
      cases g with
      | ok os =>
        obtain ⟨hvalues, hfailures⟩ := hfitAll
        refine ⟨by rw [List.mapM_cons, List.mapM_cons, hvalues, hfits.1], fun i hi hnone => ?_⟩
        rcases List.mem_cons.mp hi with rfl | hi
        -- no error, so a failure, and the evaluations of the others leave it one
        · rw [← hfits.1] at hnone
          have hsettled := settled_evaluate hv i m
          have hfailed := (Outcome.failed_or_errored hsettled hnone).resolve_right h
          have hget := get?_evaluate hv hnode m
          rw [hfailed] at hget
          exact ⟨node, hnode, (hid m hm).get?_failed_of_progress hrest hprogress hnode hget⟩
        · exact hfailures i hi hnone
      | error decided =>
        obtain ⟨hnone, hdecided⟩ := hfitAll
        refine ⟨?_, hdecided⟩
        rw [List.mapM_cons, hnone]
        cases c.value? hv id <;> rfl

/-- If a node has no value and no error decided the outcomes, a body is missing. -/
theorem permissive_of_fitAll {ids : List CstId} {m : Memo} {os : List Outcome}
    (hm : c.Faithful hv m) (h : c.FitAll hv ids m (.ok os))
    (hnone : ids.mapM (c.value? hv) = none) : m.permissive = true := by
  obtain ⟨child, hmem, hchild⟩ := Option.exists_of_mapM_eq_none hnone
  obtain ⟨below, -, hget⟩ := h.2 child hmem hchild
  exact hm.permissive _ hget

/-- Whether a child failed is known from the values of the children. -/
theorem anyChildFailed_of_fitAll {node : CstNode} {m : Memo} {os : List Outcome}
    (hm : c.Faithful hv m) (h : c.FitAll hv node.children m (.ok os)) :
    c.anyChildFailed node m = true ↔ node.children.mapM (c.value? hv) = none := by
  rw [anyChildFailed_iff]
  constructor
  · rintro ⟨child, hmem, below, hbelow, hget⟩
    by_contra hsome
    obtain ⟨values, hvalues⟩ := Option.ne_none_iff_exists'.mp hsome
    exact Option.ne_none_of_mapM_eq_some hvalues hmem
      (hm.value? child below .failed hbelow hget Outcome.settled_failed).symm
  -- no error decided the outcomes, so a child without a value has failed
  · intro hnone
    obtain ⟨child, hmem, hchild⟩ := Option.exists_of_mapM_eq_none hnone
    obtain ⟨below, hbelow, hget⟩ := h.2 child hmem hchild
    exact ⟨child, hmem, below, hbelow, hget⟩

section Finishing

variable {id : CstId} {node : CstNode} {m : Memo} {os : List Outcome}

/-- A body gives its result, unless a child failed. -/
theorem value?_runBody (a : RuleAction) (node : CstNode) (args : List Value) (m : Memo) :
    (c.runBody a node args m).value? = if c.anyChildFailed node m then none else
      (a.run (a.environment args (c.describe node args)) c.limit).result.toOption := by
  rw [runBody]
  cases (a.run (a.environment args (c.describe node args)) c.limit).result with
  | ok value => cases c.anyChildFailed node m <;> rfl
  | error e =>
    rw [Outcome.value?_propagated]
    cases c.anyChildFailed node m <;> rfl

/-- A body fails only after a child failed, or once a body is missing. -/
theorem anyChildFailed_of_runBody {a : RuleAction} {args : List Value}
    (h : c.runBody a node args m = .failed) :
    c.anyChildFailed node m = true ∨ m.permissive = true := by
  rw [runBody] at h
  cases hresult : (a.run (a.environment args (c.describe node args)) c.limit).result with
  | ok value =>
    cases hany : c.anyChildFailed node m with
    | true => exact .inl rfl
    | false =>
      simp only [hresult, hany] at h
      cases h
  | error e =>
    simp only [hresult] at h
    exact (permissive_of_propagated h).elim (fun herrored => by cases herrored) .inr

/-- The outcome of a body fits. -/
theorem fits_runBody (hm : c.Faithful hv m) (hnode : c.trace.cstNode? id = some node)
    {a : RuleAction} (h : c.action.body? node.constructor = some a)
    (hall : c.FitAll hv node.children m (.ok os)) :
    c.Fits hv id m (c.runBody a node (os.map Outcome.argument) m) := by
  have hiff := anyChildFailed_of_fitAll hm hall
  refine ⟨?_, fun hfailed => ?_⟩
  · rw [value?_of_body hnode h, value?_runBody]
    cases hvalues : node.children.mapM (c.value? hv) with
    | none => rw [if_pos (hiff.mpr hvalues), Option.bind_none]
    | some args =>
      have hany : ¬ c.anyChildFailed node m = true := by
        rw [hiff, hvalues]
        exact Option.some_ne_none args
      rw [if_neg hany, Option.bind_some, Outcome.map_argument (hall.1.trans hvalues)]
  -- a failure of the body shows that a child failed or that a body is missing, and a child fails
  -- only once a body is missing
  · rcases anyChildFailed_of_runBody hfailed with hany | hp
    · exact permissive_of_fitAll hm hall (hiff.mp hany)
    · exact hp

/-- The outcome of a repetition fits. -/
theorem fits_collected (hm : c.Faithful hv m) (hnode : c.trace.cstNode? id = some node)
    (h : c.action.body? node.constructor = none) (hkind : node.kind = .iter)
    (hall : c.FitAll hv node.children m (.ok os)) : c.Fits hv id m (Outcome.collected os) := by
  rw [Fits, value?_of_iter hnode h hkind, Outcome.collected, hall.1]
  cases hvalues : node.children.mapM (c.value? hv) with
  | none => exact ⟨rfl, fun _ => permissive_of_fitAll hm hall hvalues⟩
  | some values => exact ⟨rfl, fun hfailed => by cases hfailed⟩

/-- An error or a failure that decides a node fits: some child has no value. -/
theorem fits_decided (hnode : c.trace.cstNode? id = some node) {decided : Outcome}
    (h : c.action.body? node.constructor ≠ none ∨ node.kind = .iter)
    (hall : c.FitAll hv node.children m (.error decided)) : c.Fits hv id m decided := by
  obtain ⟨hnone, hdecided, hpermissive⟩ := hall
  refine ⟨?_, hpermissive⟩
  cases hbody : c.action.body? node.constructor with
  | some a => rw [value?_of_body hnode hbody, hnone, hdecided, Option.bind_none]
  | none => rw [value?_of_iter hnode hbody (h.resolve_left fun hne => hne hbody), hnone, hdecided,
      Option.map_none]

/-- How an evaluation that has begun ends in a faithful memo. -/
theorem Finished.fits (hv : c.trace.Valid) {m₁ : Memo} {outcome : Outcome}
    (h : c.Finished node m outcome m₁) (hnode : c.trace.cstNode? id = some node)
    (hkeeps : ∀ child ∈ node.children, c.Keeps hv child) (hm : c.Faithful hv m) :
    c.Faithful hv m₁ ∧ c.Fits hv id m₁ outcome := by
  have hall := fitAll_outcomes hv hkeeps (fun child => hv.exists_child hnode) hm
  cases h with
  | terminal h hkind =>
    exact ⟨hm, (value?_of_terminal hnode h hkind).symm, fun hfailed => by cases hfailed⟩
  | unwritten h hkind hchildren =>
    exact ⟨hm.addTodo _, (value?_of_unwritten hnode h hkind hchildren).symm,
      fun _ => Memo.permissive_addTodo m _⟩
  | @passThrough rule child h hkind hchild =>
    have hmem : child ∈ node.children := hchild ▸ List.mem_singleton_self child
    obtain ⟨below, hbelow⟩ := hv.exists_child hnode hmem
    have hadd := hm.addPassThrough (c.keyOf node)
    have hfits := (hkeeps child hmem).fits hv hbelow hadd
    refine ⟨hkeeps child hmem _ hadd, ?_, fun hfailed => ?_⟩
    · rw [Outcome.value?_propagated, hfits.1, value?_of_passThrough hnode h hkind hchild]
    · exact (permissive_of_propagated hfailed).elim hfits.2 fun hp => hp
  | body h hos =>
    rw [hos] at hall
    exact ⟨hall.1, fits_runBody hall.1 hnode h hall.2⟩
  | collect h hkind hos =>
    rw [hos] at hall
    exact ⟨hall.1, fits_collected hall.1 hnode h hkind hall.2⟩
  | decided h hos =>
    rw [hos] at hall
    exact ⟨hall.1, fits_decided hnode h hall.2⟩

end Finishing

/-- **Every evaluation** keeps a memo faithful, where different nodes have different keys. -/
theorem faithful_evaluate (hv : c.trace.Valid) (hd : c.trace.Distinct) (id : CstId) :
    c.Keeps hv id := by
  -- what is pending says nothing of values, so the memo is faithful all the way down and up
  refine evaluate_induction hv (P := fun _ m _ m' => c.Faithful hv m → c.Faithful hv m') ?_ ?_ ?_ id
  · exact fun _ _ _ hm => hm
  · exact fun _ _ _ _ _ _ hm => hm
  · intro _ node m outcome m₁ hnode _ h ih hm
    obtain ⟨hm₁, hfits⟩ := h.fits hv hnode ih (hm.start _)
    exact hm₁.set hd hnode hfits

end Evaluation

end ParseActions
