import ParseActions.Proofs.Memo.Progress

/-!
# How an evaluation leaves a cleared memo

An evaluation that starts from a cleared memo leaves it in one of three ways. Either no body is
missing and every recorded node has a value; or no body is missing and one body raised an error,
which is the result of every node on a way down to the node of that body, while all others have
values; or some body is missing, and there are values and failures but no errors.

An error that counts as such goes straight up to the node that is evaluated, and nothing else is
evaluated in between. Failures arise only once a body is missing.

## Main definitions

* `Trace.Way`: the ways down the syntax tree
* `Evaluation.Ending`, `Evaluation.EndsAs`: the three ways to leave a memo

## Main results

* `Evaluation.existsUnique_endsAs`: an evaluation leaves a cleared memo in exactly one of them
-/

namespace ParseActions

/-- A way down the syntax tree, from a node to one below it or to itself. -/
inductive Trace.Way (t : Trace) : (top bottom : CstId) → List CstId → Prop where
  | here (id : CstId) : Way t id id [id]
  | down {id child bottom : CstId} {way : List CstId} (hchild : child ∈ t.cstChildren id)
    (h : Way t child bottom way) : Way t id bottom (id :: way)

theorem Trace.Way.top_mem {t : Trace} {top bottom : CstId} {way : List CstId}
    (h : t.Way top bottom way) : top ∈ way := by
  cases h with
  | here => exact List.mem_singleton_self top
  | down => exact List.mem_cons_self

/-- There is a value. -/
def Outcome.HasValue (outcome : Outcome) : Prop :=
  ∃ v, outcome = .succeeded v

namespace Evaluation

/-- How an evaluation can leave a cleared memo. -/
inductive Ending where
  | complete
  | raised
  | unfinished

/-- A way down to the node of the body that raised an error: the error is the result of all nodes on
the way, and all that is not on the way is as told. -/
structure Raised (c : Evaluation) (id : CstId) (e : RaisedError) (m : Memo)
    (others : Outcome → Prop) : Prop where
  written : m.todo = []
  exists_way : ∃ way origin node, c.trace.Way id origin way ∧
    c.trace.cstNode? origin = some node ∧ c.keyOf node = e.origin ∧
    (∀ x ∈ way, ∃ n, c.trace.cstNode? x = some n ∧ m.get? (c.keyOf n) = some (.errored e)) ∧
    ∀ key outcome, m.get? key = some outcome →
      (∀ x ∈ way, ∀ n, c.trace.cstNode? x = some n → c.keyOf n ≠ key) → others outcome

/-- What holds of the outcome of a node and the memo after an evaluation that ends in a given
way. -/
def EndsAs (c : Evaluation) (id : CstId) (outcome : Outcome) (m : Memo) : Ending → Prop
  | .complete => m.todo = [] ∧ ∀ key o, m.get? key = some o → o.HasValue
  | .raised => ∃ e, outcome = .errored e ∧ c.Raised id e m Outcome.HasValue
  | .unfinished => m.todo ≠ [] ∧ ∀ key o, m.get? key = some o → o.HasValue ∨ o = .failed

variable {c : Evaluation}

/-! ## While no error counts -/

/-- There is a value, or a failure that a missing body explains. -/
def Explained (m : Memo) (outcome : Outcome) : Prop :=
  outcome.HasValue ∨ outcome = .failed ∧ m.permissive

/-- What is recorded while no error counts. -/
def Calm (m : Memo) : Prop :=
  ∀ key outcome, m.get? key = some outcome → outcome = .pending ∨ Explained m outcome

theorem Explained.mono {m m' : Memo} {outcome : Outcome} (h : m.permissive → m'.permissive)
    (ho : Explained m outcome) : Explained m' outcome :=
  ho.imp_right fun ⟨hf, hp⟩ => ⟨hf, h hp⟩

theorem Explained.not_isErrored {m : Memo} {outcome : Outcome} (h : Explained m outcome) :
    ¬ outcome.IsErrored := by
  rintro ⟨e, rfl⟩
  rcases h with ⟨v, hv⟩ | ⟨hf, -⟩
  · cases hv
  · cases hf

theorem calm_empty : Calm .empty := by
  intro key outcome h
  cases h

theorem Calm.start {m : Memo} (h : Calm m) (key : NodeKey) : Calm (m.start key) := by
  intro k outcome hk
  rw [Memo.get?_start] at hk
  split at hk
  · exact .inl (Option.some.inj hk).symm
  · exact h k outcome hk

theorem Calm.addTodo {m : Memo} (h : Calm m) (key : NodeKey) : Calm (m.addTodo key) :=
  fun k outcome hk => (h k outcome hk).imp_right
    (Explained.mono (Memo.Progress.addTodo m key).permissive)

theorem Calm.set {m : Memo} (h : Calm m) (key : NodeKey) {outcome : Outcome}
    (ho : Explained m outcome) : Calm (m.set key outcome) := by
  intro k o hk
  rw [Memo.get?_set] at hk
  split at hk
  · exact .inr (Option.some.inj hk ▸ ho)
  · exact h k o hk

/-- Where a failure is recorded, a body is missing. -/
theorem Calm.permissive_of_failed {m : Memo} (h : Calm m) {key : NodeKey}
    (hget : m.get? key = some .failed) : m.permissive = true := by
  rcases h key _ hget with hpending | ⟨v, hvalue⟩ | ⟨-, hp⟩
  · cases hpending
  · cases hvalue
  · exact hp

theorem permissive_of_anyChildFailed {m : Memo} (h : Calm m) {node : CstNode}
    (hf : c.anyChildFailed node m = true) : m.permissive = true := by
  obtain ⟨child, -, below, -, hget⟩ := anyChildFailed_iff.mp hf
  exact h.permissive_of_failed hget

/-- The outcome of a body is explained, or it is an error of this body that counts. -/
theorem explained_runBody {m : Memo} (h : Calm m) (a : RuleAction) (node : CstNode)
    (args : List Value) :
    Explained m (c.runBody a node args m) ∨
      ∃ e, c.runBody a node args m = .errored e ∧ c.keyOf node = e.origin ∧ m.todo = [] := by
  rw [runBody]
  split
  · split
    · next hf => exact .inl (.inr ⟨rfl, permissive_of_anyChildFailed h hf⟩)
    · exact .inl (.inl ⟨_, rfl⟩)
  · cases hp : m.permissive with
    | true => exact .inl (.inr ⟨rfl, hp⟩)
    | false => exact .inr ⟨_, rfl, rfl, Memo.permissive_eq_false.mp hp⟩

/-- The outcome of a repetition is explained by those of its children. -/
theorem explained_collected {m : Memo} {os : List Outcome} (h : ∀ o ∈ os, Explained m o) :
    Explained m (Outcome.collected os) := by
  rw [Outcome.collected]
  cases hvalues : os.mapM Outcome.value? with
  | some values => exact .inl ⟨_, rfl⟩
  | none =>
    -- some child has no value, and so failed while a body was missing
    obtain ⟨o, ho, hnone⟩ := Option.exists_of_mapM_eq_none hvalues
    rcases h o ho with ⟨v, rfl⟩ | ⟨-, hp⟩
    · cases hnone
    · exact .inr ⟨rfl, hp⟩

/-! ## An error that counts -/

/-- There is a value, or the evaluation has not ended. -/
def Open (outcome : Outcome) : Prop :=
  outcome = .pending ∨ outcome.HasValue

section Raising

variable {id : CstId} {node : CstNode} {e : RaisedError} {m : Memo}

/-- The error of a body is the result of its node. -/
theorem raised_here (hnode : c.trace.cstNode? id = some node) (horigin : c.keyOf node = e.origin)
    (hcalm : Calm m) (hwritten : m.todo = []) :
    c.Raised id e (m.set (c.keyOf node) (.errored e)) Open := by
  refine ⟨hwritten, [id], id, node, .here id, hnode, horigin, fun x hx => ?_,
    fun key outcome hkey hother => ?_⟩
  · obtain rfl := List.mem_singleton.mp hx
    exact ⟨node, hnode, Memo.get?_set_self _ _ _⟩
  -- while no body is missing, no failure is recorded
  · have hne := hother id (List.mem_singleton_self id) node hnode
    rw [Memo.get?_set_of_ne _ _ (Ne.symm hne)] at hkey
    rcases hcalm key outcome hkey with hpending | hvalue | ⟨-, hp⟩
    · exact .inl hpending
    · exact .inr hvalue
    · exact absurd hwritten (Memo.permissive_eq_true.mp hp)

/-- **An error goes up** from a child to the node above. -/
theorem Raised.up {others : Outcome → Prop} {child : CstId} (h : c.Raised child e m others)
    (hnode : c.trace.cstNode? id = some node) (hchild : child ∈ node.children) :
    c.Raised id e (m.set (c.keyOf node) (.errored e)) others := by
  obtain ⟨hwritten, way, origin, bottom, hway, hbottom, horigin, hon, hoff⟩ := h
  rw [← Trace.cstChildren_of_cstNode? hnode] at hchild
  refine ⟨hwritten, id :: way, origin, bottom, .down hchild hway, hbottom, horigin, fun x hx => ?_,
    fun key outcome hkey hother => ?_⟩
  · rcases List.mem_cons.mp hx with rfl | hx
    · exact ⟨node, hnode, Memo.get?_set_self _ _ _⟩
    · obtain ⟨n, hn, hget⟩ := hon x hx
      refine ⟨n, hn, ?_⟩
      -- a node on the way may share its key with the node above
      rw [Memo.get?_set]
      split
      · rfl
      · exact hget
  · have hne := hother id List.mem_cons_self node hnode
    rw [Memo.get?_set_of_ne _ _ (Ne.symm hne)] at hkey
    exact hoff key outcome hkey fun x hx => hother x (List.mem_cons_of_mem _ hx)

end Raising

/-- What is not on the way may be told more weakly. -/
theorem Raised.imp {id : CstId} {e : RaisedError} {m : Memo} {P Q : Outcome → Prop}
    (h : c.Raised id e m P) (hPQ : ∀ key o, m.get? key = some o → P o → Q o) :
    c.Raised id e m Q := by
  obtain ⟨hwritten, way, origin, bottom, hway, hbottom, horigin, hon, hoff⟩ := h
  exact ⟨hwritten, way, origin, bottom, hway, hbottom, horigin, hon,
    fun key o ho hother => hPQ key o ho (hoff key o ho hother)⟩

/-- What an evaluation of a node does while no error counts: this stays so, or an error is
raised. -/
def Rises (c : Evaluation) (id : CstId) : Prop :=
  ∀ m, Calm m → Calm (c.evaluate id m).2 ∧ Explained (c.evaluate id m).2 (c.evaluate id m).1 ∨
    ∃ e, (c.evaluate id m).1 = .errored e ∧ c.Raised id e (c.evaluate id m).2 Open

/-- What the evaluations of several nodes do while no error counts. -/
theorem rises_outcomes (hv : c.trace.Valid) {ids : List CstId} (hids : ∀ id ∈ ids, c.Rises id)
    {m : Memo} (hm : Calm m) :
    Calm (outcomes c.evaluate ids m).2 ∧
        (∃ os, (outcomes c.evaluate ids m).1 = .ok os ∧
          ∀ o ∈ os, Explained (outcomes c.evaluate ids m).2 o) ∨
      ∃ e, (outcomes c.evaluate ids m).1 = .error (.errored e) ∧
        ∃ child ∈ ids, c.Raised child e (outcomes c.evaluate ids m).2 Open := by
  -- the memo stays calm up to the first error, and nothing is evaluated after it
  induction ids generalizing m with
  | nil =>
    rw [outcomes]
    exact .inl ⟨hm, [], rfl, by simp⟩
  | cons id rest ih =>
    rcases hids id List.mem_cons_self m hm with ⟨hcalm, hexplained⟩ | ⟨e, he, hraised⟩
    -- what explains an outcome still explains it after the other evaluations
    · rw [outcomes_cons_of_not_errored hexplained.not_isErrored]
      rcases ih (fun id hid => hids id (List.mem_cons_of_mem _ hid)) hcalm with
        ⟨hcalm', os, hos, hexplained'⟩ | ⟨e, he, child, hchild, hraised⟩
      · refine .inl ⟨hcalm', _, by rw [hos]; rfl, fun o ho => ?_⟩
        rcases List.mem_cons.mp ho with rfl | ho
        · exact hexplained.mono (progress_outcomes hv rest _).permissive
        · exact hexplained' o ho
      · exact .inr ⟨e, by rw [he]; rfl, child, List.mem_cons_of_mem _ hchild, hraised⟩
    -- no body is missing, so the error goes up as it is
    · rw [outcomes_cons_of_errored ⟨e, he⟩, he]
      refine .inr ⟨e, ?_, id, List.mem_cons_self, hraised⟩
      rw [Memo.permissive_eq_false.mpr hraised.written, Outcome.propagated_false]

/-- What an evaluation that has begun does while no error counts. -/
theorem Finished.rises (hv : c.trace.Valid) {id : CstId} {node : CstNode} {m m₁ : Memo}
    {outcome : Outcome} (h : c.Finished node m outcome m₁)
    (hnode : c.trace.cstNode? id = some node) (hchildren : ∀ id ∈ node.children, c.Rises id)
    (hm : Calm m) :
    Calm m₁ ∧ Explained m₁ outcome ∨
      ∃ e, outcome = .errored e ∧ c.Raised id e (m₁.set (c.keyOf node) outcome) Open := by
  have hall := rises_outcomes hv hchildren hm
  cases h with
  | terminal => exact .inl ⟨hm, .inl ⟨_, rfl⟩⟩
  | unwritten => exact .inl ⟨hm.addTodo _, .inr ⟨rfl, Memo.permissive_addTodo m _⟩⟩
  | passThrough _ _ hchild =>
    have hmem := hchild ▸ List.mem_singleton_self _
    rcases hchildren _ hmem (m.addPassThrough (c.keyOf node)) hm with
      ⟨hcalm, hexplained⟩ | ⟨e, he, hraised⟩
    · rw [Outcome.propagated_of_not_errored hexplained.not_isErrored]
      exact .inl ⟨hcalm, hexplained⟩
    -- no body is missing after an error, so the child passes it on as it is
    · rw [he, Memo.permissive_eq_false.mpr hraised.written, Outcome.propagated_false]
      exact .inr ⟨e, rfl, hraised.up hnode hmem⟩
  | @body a os m₁ _ hos =>
    rw [hos] at hall
    rcases hall with ⟨hcalm, -⟩ | ⟨e, he, -⟩
    · rcases explained_runBody hcalm a node (os.map Outcome.argument) with
        hexplained | ⟨e, he, horigin, hwritten⟩
      · exact .inl ⟨hcalm, hexplained⟩
      -- the way down is this node alone
      · rw [he]
        exact .inr ⟨e, rfl, raised_here hnode horigin hcalm hwritten⟩
    · cases he
  | collect _ _ hos =>
    rw [hos] at hall
    rcases hall with ⟨hcalm, os', hos', hexplained⟩ | ⟨e, he, -⟩
    · obtain rfl := Except.ok.inj hos'
      exact .inl ⟨hcalm, explained_collected hexplained⟩
    · cases he
  | decided _ hos =>
    rw [hos] at hall
    rcases hall with ⟨-, os, hos', -⟩ | ⟨e, he, child, hchild, hraised⟩
    · cases hos'
    · obtain rfl := Except.error.inj he
      exact .inr ⟨e, rfl, hraised.up hnode hchild⟩

/-- **Every evaluation** of a node does so in a valid trace. -/
theorem rises (hv : c.trace.Valid) {id : CstId} {node : CstNode}
    (hnode : c.trace.cstNode? id = some node) : c.Rises id := by
  refine fun m => evaluate_induction hv (P := fun id m outcome m' =>
    c.trace.cstNode? id ≠ none → Calm m → Calm m' ∧ Explained m' outcome ∨
      ∃ e, outcome = .errored e ∧ c.Raised id e m' Open) ?_ ?_ ?_ id m (by rw [hnode]; nofun)
  · exact fun _ _ hnone hnode => absurd hnone hnode
  -- a known outcome is no error, as none is recorded
  · intro id node m outcome _ h _ hm
    obtain ⟨hget, hsettled⟩ := known?_eq_some h
    exact .inl ⟨hm, (hm _ _ hget).resolve_left hsettled⟩
  · intro id node m outcome m₁ hnode _ h ih _ hm
    have hchildren (child : CstId) (hchild : child ∈ node.children) : c.Rises child := by
      obtain ⟨below, hbelow⟩ := hv.exists_child hnode hchild
      exact fun m => ih child hchild m (by rw [hbelow]; nofun)
    rcases h.rises hv hnode hchildren (hm.start _) with ⟨hcalm, hexplained⟩ | hraised
    · exact .inl ⟨hcalm.set _ hexplained, hexplained⟩
    · exact .inr hraised

/-- No body is missing after an error. -/
theorem permissive_of_errored (hv : c.trace.Valid) {id : CstId} {node : CstNode} {m : Memo}
    (hnode : c.trace.cstNode? id = some node) (hm : Calm m) (h : (c.evaluate id m).1.IsErrored) :
    (c.evaluate id m).2.permissive = false := by
  rcases rises hv hnode m hm with ⟨-, hexplained⟩ | ⟨e, -, hraised⟩
  · exact absurd h hexplained.not_isErrored
  · exact Memo.permissive_eq_false.mpr hraised.written

/-! ## The three ways -/

/-- Nothing is pending after an evaluation in a cleared memo. -/
theorem settled_of_evaluate_empty (hv : c.trace.Valid) (id : CstId) {key : NodeKey}
    {outcome : Outcome} (h : (c.evaluate id .empty).2.get? key = some outcome) :
    outcome.Settled := by
  rintro rfl
  cases (progress_evaluate hv id .empty).pending key h

/-- An error that was raised is recorded. -/
theorem Raised.exists_errored {id : CstId} {e : RaisedError} {m : Memo} {others : Outcome → Prop}
    (h : c.Raised id e m others) : ∃ key, m.get? key = some (.errored e) := by
  obtain ⟨-, way, origin, bottom, hway, -, -, hon, -⟩ := h
  obtain ⟨n, -, hget⟩ := hon id hway.top_mem
  exact ⟨_, hget⟩

/-- The ways to leave a memo exclude each other. -/
theorem EndsAs.unique {id : CstId} {outcome : Outcome} {m : Memo} {x y : Ending}
    (hx : c.EndsAs id outcome m x) (hy : c.EndsAs id outcome m y) : x = y := by
  have hraised (h : c.EndsAs id outcome m .complete) (h' : c.EndsAs id outcome m .raised) :
      False := by
    obtain ⟨e, -, hr⟩ := h'
    obtain ⟨key, hkey⟩ := hr.exists_errored
    obtain ⟨v, hv⟩ := h.2 key _ hkey
    cases hv
  cases x with
  | complete =>
    cases y with
    | complete => rfl
    | raised => exact (hraised hx hy).elim
    | unfinished => exact absurd hx.1 hy.1
  | raised =>
    cases y with
    | complete => exact (hraised hy hx).elim
    | raised => rfl
    | unfinished =>
      obtain ⟨e, -, hr⟩ := hx
      exact absurd hr.written hy.1
  | unfinished =>
    cases y with
    | complete => exact absurd hy.1 hx.1
    | raised =>
      obtain ⟨e, -, hr⟩ := hy
      exact absurd hr.written hx.1
    | unfinished => rfl

/-- An evaluation leaves a cleared memo in one of the three ways. -/
theorem exists_endsAs (hv : c.trace.Valid) (id : CstId) :
    ∃ ending, c.EndsAs id (c.evaluate id .empty).1 (c.evaluate id .empty).2 ending := by
  cases hnode : c.trace.cstNode? id with
  | none =>
    rw [evaluate_of_missing hv hnode]
    exact ⟨.complete, rfl, fun key o ho => by cases ho⟩
  | some node =>
    have hsettled (key : NodeKey) (o : Outcome) (ho : (c.evaluate id .empty).2.get? key = some o) :
        o ≠ .pending := settled_of_evaluate_empty hv id ho
    rcases rises hv hnode .empty calm_empty with ⟨hcalm, -⟩ | ⟨e, he, hraised⟩
    -- nothing is pending in the end, so what is explained is a value or a failure
    · by_cases hwritten : (c.evaluate id .empty).2.todo = []
      · refine ⟨.complete, hwritten, fun key o ho => ?_⟩
        rcases (hcalm key o ho).resolve_left (hsettled key o ho) with hvalue | ⟨-, hp⟩
        · exact hvalue
        · exact absurd hwritten (Memo.permissive_eq_true.mp hp)
      · refine ⟨.unfinished, hwritten, fun key o ho => ?_⟩
        exact ((hcalm key o ho).resolve_left (hsettled key o ho)).imp_right And.left
    · refine ⟨.raised, e, he, hraised.imp fun key o ho hopen => ?_⟩
      exact hopen.resolve_left (hsettled key o ho)

/-- **An evaluation leaves a cleared memo in exactly one of the three ways.** -/
theorem existsUnique_endsAs (ht : c.trace.validate = .ok ()) (id : CstId) :
    ∃! ending, c.EndsAs id (c.evaluate id .empty).1 (c.evaluate id .empty).2 ending := by
  obtain ⟨ending, h⟩ := exists_endsAs (Trace.valid_of_validate ht) id
  exact ⟨ending, h, fun _ h' => h'.unique h⟩

theorem existsUnique_endsAs_sample :
    sample.trace.validate = .ok () ∧ ∃! ending, sample.EndsAs ⟨0⟩ (sample.evaluate ⟨0⟩ .empty).1
      (sample.evaluate ⟨0⟩ .empty).2 ending :=
  ⟨Trace.validate_sample, existsUnique_endsAs Trace.validate_sample ⟨0⟩⟩

end Evaluation

end ParseActions
