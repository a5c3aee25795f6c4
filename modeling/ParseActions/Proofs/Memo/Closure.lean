import ParseActions.Proofs.Memo.Stability

/-!
# What recorded outcomes are made from

A memo is closed when all that its outcomes are made from is recorded. An evaluation begins before
those of the children and its outcome is recorded after theirs, so it keeps a memo closed; an error
may leave children without an outcome, and then nothing else is evaluated.

## Main definitions

* `Evaluation.Closed`: what a recorded outcome is made from is recorded
* `Evaluation.Backed`: the same for a single node

## Main results

* `Evaluation.Closed.done`: a node with an outcome in a closed memo may be evaluated again
* `Evaluation.closed_evaluate`: evaluations without an error keep a memo closed
-/

namespace ParseActions.Evaluation

variable {c : Evaluation} {hv : c.trace.Valid}

/-! ## Closed memos -/

/-- What the recorded outcomes of nodes are made from is recorded, and the nodes are listed. -/
def Closed (c : Evaluation) (m : Memo) : Prop :=
  ∀ id node, c.trace.cstNode? id = some node → m.Ended (c.keyOf node) →
    c.Listed m node ∧
      ∀ child below, c.Needs id child → c.trace.cstNode? child = some below →
        m.Ended (c.keyOf below)

theorem Listed.mono {m m' : Memo} {node : CstNode} (h : c.Listed m node)
    (htodo : ∀ key ∈ m.todo, key ∈ m'.todo)
    (hpassThrough : ∀ key ∈ m.passThrough, key ∈ m'.passThrough) : c.Listed m' node :=
  ⟨fun hopens => hpassThrough _ (h.1 hopens), fun hunwritten => htodo _ (h.2 hunwritten)⟩

namespace Closed

variable {m : Memo}

theorem empty : c.Closed .empty := by
  rintro id node - ⟨outcome, hget, -⟩
  cases hget

/-- While an outcome is recorded, all that it needs is. -/
theorem done (h : c.Closed m) {id : CstId} {node : CstNode}
    (hnode : c.trace.cstNode? id = some node) (hended : m.Ended (c.keyOf node)) :
    c.Done m id := by
  intro x below hx hbelow
  -- induction on the way down to the node that is needed
  have hended' : m.Ended (c.keyOf below) := by
    induction hx generalizing below with
    | refl =>
      obtain rfl := Option.some.inj (hnode.symm.trans hbelow)
      exact hended
    | tail hx hneeds ih =>
      obtain ⟨above, mode, habove, hopens, hmem⟩ := hneeds
      exact (h _ above habove (ih above habove)).2 _ below ⟨above, mode, habove, hopens, hmem⟩
        hbelow
  exact ⟨hended', (h x below hbelow hended').1⟩

/-- The evaluation of a node whose outcome nothing is made from yet may begin. -/
theorem start (h : c.Closed m) {key : NodeKey} (hkey : ¬ m.Ended key) :
    c.Closed (m.start key) := by
  intro id node hnode hended
  obtain ⟨hlisted, hneeds⟩ := h id node hnode (Memo.ended_start.mp hended).2
  refine ⟨hlisted, fun child below hchild hbelow => ?_⟩
  have hended' := hneeds child below hchild hbelow
  exact Memo.ended_start.mpr ⟨fun he => hkey (he ▸ hended'), hended'⟩

theorem addTodo (h : c.Closed m) (key : NodeKey) : c.Closed (m.addTodo key) := by
  intro id node hnode hended
  obtain ⟨hlisted, hneeds⟩ := h id node hnode hended
  refine ⟨hlisted.mono (fun k hk => ?_) fun k hk => hk, hneeds⟩
  exact (Memo.mem_addNew key k).mpr (.inl hk)

theorem addPassThrough (h : c.Closed m) (key : NodeKey) : c.Closed (m.addPassThrough key) := by
  intro id node hnode hended
  obtain ⟨hlisted, hneeds⟩ := h id node hnode hended
  refine ⟨hlisted.mono (fun k hk => hk) fun k hk => ?_, hneeds⟩
  exact (Memo.mem_addNew key k).mpr (.inl hk)

/-- An outcome may be recorded when all that it is made from is recorded. -/
theorem set (h : c.Closed m) (hd : c.trace.Distinct) {id : CstId} {node : CstNode}
    (hnode : c.trace.cstNode? id = some node) {outcome : Outcome} (hsettled : outcome.Settled)
    (hlisted : c.Listed m node)
    (hneeds : ∀ child below, c.Needs id child → c.trace.cstNode? child = some below →
      m.Ended (c.keyOf below)) : c.Closed (m.set (c.keyOf node) outcome) := by
  intro x n hn hended
  -- other nodes have other keys, and what they need is still settled
  by_cases hkey : c.keyOf n = c.keyOf node
  · obtain rfl := keyOf_injective hd hn hnode hkey
    obtain rfl := Option.some.inj (hn.symm.trans hnode)
    exact ⟨hlisted, fun child below hchild hbelow =>
      (hneeds child below hchild hbelow).set _ hsettled⟩
  · obtain ⟨hlisted', hneeds'⟩ := h x n hn (Memo.ended_of_ended_set hended hkey)
    exact ⟨hlisted', fun child below hchild hbelow =>
      (hneeds' child below hchild hbelow).set _ hsettled⟩

end Closed

/-! ## The node that is evaluated -/

/-- Nodes that have a body, or do not apply a rule, need not be listed. -/
theorem listed_of_not {node : CstNode} (m : Memo)
    (h : c.action.body? node.constructor ≠ none ∨ ∀ rule, node.kind ≠ .nonterminal rule) :
    c.Listed m node := by
  constructor
  · rintro (- | ⟨hbody, hkind, -⟩)
    exact (h.elim (fun hne => hne hbody) fun hne => hne _ hkind).elim
  · rintro ⟨hbody, ⟨rule, hkind⟩, -⟩
    exact (h.elim (fun hne => hne hbody) fun hne => hne rule hkind).elim

/-- What the outcome of a node is made from is recorded, and the node is listed. -/
def Backed (c : Evaluation) (m : Memo) (node : CstNode) : Prop :=
  c.Listed m node ∧ ∀ mode, c.Opens node mode → ∀ child ∈ node.children, ∀ below,
    c.trace.cstNode? child = some below → m.Ended (c.keyOf below)

/-- A node is backed when all its children have outcomes, unless it passes one of them on. -/
theorem backed_of_ended {node : CstNode} {m : Memo} {mode : Mode} (hopens : c.Opens node mode)
    (hmode : mode ≠ .passThrough)
    (hended : ∀ child ∈ node.children, ∀ below, c.trace.cstNode? child = some below →
      m.Ended (c.keyOf below)) : c.Backed m node := by
  refine ⟨listed_of_not m ?_, fun _ _ => hended⟩
  cases hopens with
  | body hbody => exact .inl (by rw [hbody]; nofun)
  | passThrough => exact absurd rfl hmode
  | collect _ hkind => exact .inr (by rw [hkind]; nofun)

theorem backed_of_terminal {node : CstNode} (m : Memo)
    (h : c.action.body? node.constructor = none) (hkind : node.kind = .terminal) :
    c.Backed m node := by
  refine ⟨listed_of_not m (.inr (by rw [hkind]; nofun)), fun mode hopens => ?_⟩
  cases hopens <;> simp_all

theorem backed_of_unwritten {node : CstNode} (m : Memo) {rule : String}
    (h : c.action.body? node.constructor = none) (hkind : node.kind = .nonterminal rule)
    (hchildren : ∀ child, node.children ≠ [child]) : c.Backed (m.addTodo (c.keyOf node)) node := by
  refine ⟨⟨?_, fun _ => (Memo.mem_addNew _ _).mpr (.inr rfl)⟩, fun mode hopens => ?_⟩
  · rintro (- | ⟨-, -, hchild⟩)
    exact absurd hchild (hchildren _)
  · cases hopens <;> simp_all

/-! ## Evaluations keep memos closed -/

/-- An evaluation of a node keeps a memo closed, unless it gives an error. -/
def Closes (c : Evaluation) (hv : c.trace.Valid) (id : CstId) : Prop :=
  ∀ m, c.Sound hv m → c.Closed m → ¬ (c.evaluate id m).1.IsErrored → c.Closed (c.evaluate id m).2

/-- Evaluations of several nodes, none of which gives an error, leave outcomes of all of them. -/
theorem closed_outcomes (hv : c.trace.Valid) (hd : c.trace.Distinct) {ids : List CstId}
    (hcloses : ∀ id ∈ ids, c.Closes hv id)
    (hexists : ∀ id ∈ ids, ∃ node, c.trace.cstNode? id = some node) {m : Memo} (hm : c.Sound hv m)
    (hclosed : c.Closed m) {os : List Outcome} {m₁ : Memo}
    (h : outcomes c.evaluate ids m = (.ok os, m₁)) :
    c.Closed m₁ ∧ ∀ id ∈ ids, ∀ node, c.trace.cstNode? id = some node →
      m₁.Ended (c.keyOf node) := by
  induction ids generalizing m os with
  | nil =>
    cases h
    exact ⟨hclosed, by simp⟩
  | cons id rest ih =>
    obtain ⟨node, hnode⟩ := hexists id List.mem_cons_self
    obtain ⟨hnot, others, hothers, rfl⟩ := outcomes_cons_eq_ok.mp h
    obtain ⟨hclosed', hended⟩ := ih (fun id hid => hcloses id (List.mem_cons_of_mem _ hid))
      (fun id hid => hexists id (List.mem_cons_of_mem _ hid)) (hm.evaluate hv hd hnode hnot)
      (hcloses id List.mem_cons_self m hm hclosed hnot) hothers
    refine ⟨hclosed', fun i hi below hbelow => ?_⟩
    -- the outcome of the first node is still there after the evaluations of the others
    rcases List.mem_cons.mp hi with rfl | hi
    · have hprogress := progress_outcomes hv rest (c.evaluate i m).2
      rw [hothers] at hprogress
      exact hprogress.ended (ended_evaluate hv hbelow m)
    · exact hended i hi below hbelow

/-- An evaluation that has begun backs its node, unless it ends with an error. -/
theorem Finished.closed (hv : c.trace.Valid) (hd : c.trace.Distinct) {id : CstId} {node : CstNode}
    {m m₁ : Memo} {outcome : Outcome} (h : c.Finished node m outcome m₁)
    (hnode : c.trace.cstNode? id = some node) (hcloses : ∀ child ∈ node.children, c.Closes hv child)
    (hm : c.Sound hv m) (hclosed : c.Closed m) (hnot : ¬ outcome.IsErrored) :
    c.Closed m₁ ∧ c.Backed m₁ node := by
  have hexists (child : CstId) (hchild : child ∈ node.children) := hv.exists_child hnode hchild
  cases h with
  | terminal h hkind => exact ⟨hclosed, backed_of_terminal m h hkind⟩
  | unwritten h hkind hchildren =>
    exact ⟨hclosed.addTodo _, backed_of_unwritten m h hkind hchildren⟩
  | @passThrough rule child h hkind hchild =>
    have hmem : child ∈ node.children := hchild ▸ List.mem_singleton_self child
    obtain ⟨below, hbelow⟩ := hexists child hmem
    have hm' := hm.addPassThrough (c.keyOf node)
    -- no body is missing after an error, so the node would have the error too
    have hnot' : ¬ (c.evaluate child (m.addPassThrough (c.keyOf node))).1.IsErrored := by
      intro herrored
      rw [permissive_of_errored hv hbelow hm'.calm herrored, Outcome.propagated_false] at hnot
      exact hnot herrored
    have hprogress := progress_evaluate hv child (m.addPassThrough (c.keyOf node))
    refine ⟨hcloses child hmem _ hm' (hclosed.addPassThrough _) hnot',
      ⟨fun _ => ?_, fun hunwritten => ?_⟩, fun mode _ i hi n hn => ?_⟩
    · exact hprogress.passThrough.subset ((Memo.mem_addNew _ _).mpr (.inr rfl))
    · exact absurd hchild (hunwritten.2.2 child)
    · rw [hchild, List.mem_singleton] at hi
      obtain rfl := hi
      exact ended_evaluate hv hn _
  | body h hos =>
    obtain ⟨hclosed₁, hended⟩ := closed_outcomes hv hd hcloses hexists hm hclosed hos
    exact ⟨hclosed₁, backed_of_ended (.body h) nofun hended⟩
  | collect h hkind hos =>
    obtain ⟨hclosed₁, hended⟩ := closed_outcomes hv hd hcloses hexists hm hclosed hos
    exact ⟨hclosed₁, backed_of_ended (.collect h hkind) nofun hended⟩
  | decided h hos =>
    -- in a calm memo only an error that counts decides a node
    have hrises (child : CstId) (hchild : child ∈ node.children) : c.Rises child := by
      obtain ⟨below, hbelow⟩ := hexists child hchild
      exact Evaluation.rises hv hbelow
    rcases rises_outcomes hv hrises hm.calm with ⟨-, os, hok, -⟩ | ⟨e, he, -⟩
    · rw [hos] at hok
      cases hok
    · rw [hos] at he
      exact absurd ⟨e, Except.error.inj he⟩ hnot

/-- **Evaluations keep a memo closed**, unless they give an error. -/
theorem closed_evaluate (hv : c.trace.Valid) (hd : c.trace.Distinct) (id : CstId) :
    c.Closes hv id := by
  refine evaluate_induction hv (P := fun _ m outcome m' =>
    c.Sound hv m → c.Closed m → ¬ outcome.IsErrored → c.Closed m') ?_ ?_ ?_ id
  · exact fun _ _ _ _ hclosed _ => hclosed
  · exact fun _ _ _ _ _ _ _ hclosed _ => hclosed
  · intro id node m outcome m₁ hnode hnew h ih hm hclosed hnot
    have hevaluate := evaluate_of_finished hv hnode hnew h
    by_cases hended : m.Ended (c.keyOf node)
    -- evaluating the node again leaves what was recorded
    · obtain ⟨n, hn⟩ := snd_evaluate_of_done hv hd id m hm (hclosed.done hnode hended)
      rw [hevaluate] at hn
      replace hn : m₁.set (c.keyOf node) outcome = m.counted n := hn
      rw [hn]
      exact hclosed
    -- the node is the first to have this key, so no outcome that is recorded is made from it
    · obtain ⟨hclosed₁, hlisted, hneeds⟩ := h.closed hv hd hnode ih (hm.start _)
        (hclosed.start hended) hnot
      have hsettled := settled_evaluate hv id m
      rw [hevaluate] at hsettled
      refine hclosed₁.set hd hnode hsettled hlisted ?_
      rintro child below ⟨above, mode, habove, hopens, hmem⟩ hbelow
      obtain rfl := Option.some.inj (hnode.symm.trans habove)
      exact hneeds mode hopens child hmem below hbelow

end ParseActions.Evaluation
