import ParseActions.Proofs.Memo.Closure

/-!
# What the lists of a memo hold

A memo lists the applications of rules without a body: those that pass the result of their only
child on, and the others. Both lists name nodes that have been evaluated, and none twice. Where
different nodes have different keys, they name all that have an outcome.

## Main definitions

* `Evaluation.Bodiless`: the application of a rule without a body
* `Evaluation.Tidy`: what holds of the lists of a memo
* `Evaluation.AllListed`: the nodes with outcomes are in the lists, if they should be

## Main results

* `Evaluation.tidy_evaluate`: an evaluation keeps the lists tidy
* `Evaluation.allListed_evaluate`: an evaluation lists all nodes that it should
-/

namespace ParseActions.Evaluation

variable {c : Evaluation}

/-- The application of a rule for which there is no body. -/
def Bodiless (c : Evaluation) (node : CstNode) : Prop :=
  node.isNonterminal ∧ c.action.body? node.constructor = none

theorem isNonterminal_iff {node : CstNode} :
    node.isNonterminal ↔ ∃ rule, node.kind = .nonterminal rule := by
  rw [CstNode.isNonterminal, CstNode.rule?]
  cases node.kind <;> simp

theorem unwritten_iff {node : CstNode} :
    c.Unwritten node ↔ c.Bodiless node ∧ node.children.length ≠ 1 := by
  rw [Unwritten, Bodiless, isNonterminal_iff, Ne, List.length_eq_one_iff, not_exists]
  exact ⟨fun ⟨hbody, hkind, hchildren⟩ => ⟨⟨hkind, hbody⟩, hchildren⟩,
    fun ⟨⟨hkind, hbody⟩, hchildren⟩ => ⟨hbody, hkind, hchildren⟩⟩

theorem opens_passThrough_iff {node : CstNode} :
    c.Opens node .passThrough ↔ c.Bodiless node ∧ node.children.length = 1 := by
  rw [Bodiless, isNonterminal_iff, List.length_eq_one_iff]
  constructor
  · rintro (- | ⟨hbody, hkind, hchild⟩)
    exact ⟨⟨⟨_, hkind⟩, hbody⟩, _, hchild⟩
  · rintro ⟨⟨⟨rule, hkind⟩, hbody⟩, child, hchild⟩
    exact .passThrough hbody hkind hchild

/-! ## Tidy lists -/

/-- A list names nodes that have been evaluated, all of them of one sort and none twice. -/
structure TidyList (c : Evaluation) (m : Memo) (sort : CstNode → Prop) (keys : List NodeKey) :
    Prop where
  nodup : keys.Nodup
  known : ∀ key ∈ keys, m.get? key ≠ none
  named : ∀ key ∈ keys, ∃ id node, c.trace.cstNode? id = some node ∧ c.keyOf node = key ∧ sort node

/-- What holds of the lists of a memo. -/
structure Tidy (c : Evaluation) (m : Memo) : Prop where
  todo : c.TidyList m c.Unwritten m.todo
  passThrough : c.TidyList m (c.Opens · .passThrough) m.passThrough

namespace TidyList

variable {m m' : Memo} {sort : CstNode → Prop} {keys : List NodeKey}

theorem nil : c.TidyList m sort [] :=
  ⟨.nil, by simp, by simp⟩

/-- More may be known. -/
theorem mono (h : c.TidyList m sort keys) (hknown : ∀ key, m.get? key ≠ none → m'.get? key ≠ none) :
    c.TidyList m' sort keys :=
  ⟨h.nodup, fun key hkey => hknown key (h.known key hkey), h.named⟩

theorem congr {sort' : CstNode → Prop} (h : c.TidyList m sort keys)
    (hsort : ∀ node, sort node ↔ sort' node) : c.TidyList m sort' keys where
  nodup := h.nodup
  known := h.known
  named key hkey := by
    obtain ⟨id, node, hnode, hkeyOf, hnamed⟩ := h.named key hkey
    exact ⟨id, node, hnode, hkeyOf, (hsort node).mp hnamed⟩

/-- A node that has been evaluated may be listed. -/
theorem addNew (h : c.TidyList m sort keys) {id : CstId} {node : CstNode}
    (hnode : c.trace.cstNode? id = some node) (hsort : sort node)
    (hknown : m.get? (c.keyOf node) ≠ none) :
    c.TidyList m sort (Memo.addNew keys (c.keyOf node)) where
  nodup := by
    by_cases hkey : c.keyOf node ∈ keys
    · rw [Memo.addNew_of_mem hkey]
      exact h.nodup
    · rw [Memo.addNew, if_neg hkey, List.nodup_append_comm, List.singleton_append, List.nodup_cons]
      exact ⟨hkey, h.nodup⟩
  known key hkey := by
    rcases (Memo.mem_addNew _ _).mp hkey with hkey | rfl
    · exact h.known key hkey
    · exact hknown
  named key hkey := by
    rcases (Memo.mem_addNew _ _).mp hkey with hkey | rfl
    · exact h.named key hkey
    · exact ⟨id, node, hnode, rfl, hsort⟩

end TidyList

theorem get?_set_ne_none {m : Memo} {k : NodeKey} (key : NodeKey) (outcome : Outcome)
    (h : m.get? k ≠ none) : (m.set key outcome).get? k ≠ none := by
  rw [Memo.get?_set]
  split
  · nofun
  · exact h

namespace Tidy

variable {m : Memo} {id : CstId} {node : CstNode}

theorem empty : c.Tidy .empty :=
  ⟨.nil, .nil⟩

theorem set (h : c.Tidy m) (key : NodeKey) (outcome : Outcome) : c.Tidy (m.set key outcome) :=
  ⟨h.todo.mono fun _ => get?_set_ne_none key outcome,
    h.passThrough.mono fun _ => get?_set_ne_none key outcome⟩

theorem start (h : c.Tidy m) (key : NodeKey) : c.Tidy (m.start key) :=
  ⟨h.todo.mono fun _ => get?_set_ne_none key .pending,
    h.passThrough.mono fun _ => get?_set_ne_none key .pending⟩

theorem addTodo (h : c.Tidy m) (hnode : c.trace.cstNode? id = some node) (hsort : c.Unwritten node)
    (hknown : m.get? (c.keyOf node) ≠ none) : c.Tidy (m.addTodo (c.keyOf node)) :=
  ⟨(h.todo.addNew hnode hsort hknown).mono fun _ hk => hk, h.passThrough.mono fun _ hk => hk⟩

theorem addPassThrough (h : c.Tidy m) (hnode : c.trace.cstNode? id = some node)
    (hsort : c.Opens node .passThrough) (hknown : m.get? (c.keyOf node) ≠ none) :
    c.Tidy (m.addPassThrough (c.keyOf node)) :=
  ⟨h.todo.mono fun _ hk => hk, (h.passThrough.addNew hnode hsort hknown).mono fun _ hk => hk⟩

end Tidy

/-- **An evaluation** keeps the lists tidy. -/
theorem tidy_evaluate (hv : c.trace.Valid) (id : CstId) :
    ∀ m, c.Tidy m → c.Tidy (c.evaluate id m).2 := by
  refine evaluate_induction hv (P := fun _ m _ m' => c.Tidy m → c.Tidy m') ?_ ?_ ?_ id
  · exact fun _ _ _ hm => hm
  · exact fun _ _ _ _ _ _ hm => hm
  · intro _ node m outcome m₁ hnode _ h ih hm
    have hstart := hm.start (c.keyOf node)
    -- the node has an entry before it is listed
    have hknown : (m.start (c.keyOf node)).get? (c.keyOf node) ≠ none := by
      rw [Memo.get?_start, if_pos rfl]
      nofun
    have hm₁ : c.Tidy m₁ := h.invariant ih
      (fun hbody hkind hnone => hstart.addTodo hnode ⟨hbody, hkind, hnone⟩ hknown)
      (fun hopens => hstart.addPassThrough hnode hopens hknown) hstart
    exact hm₁.set _ _

/-! ## Complete lists -/

/-- The nodes with outcomes are in the lists, if they should be. -/
def AllListed (c : Evaluation) (m : Memo) : Prop :=
  ∀ id node, c.trace.cstNode? id = some node → m.Ended (c.keyOf node) → c.Listed m node

/-- An evaluation that has begun lists its node, however it ends. -/
theorem Finished.listed (hv : c.trace.Valid) {node : CstNode} {m m₁ : Memo} {outcome : Outcome}
    (h : c.Finished node m outcome m₁) : c.Listed m₁ node := by
  cases h with
  | terminal hbody hkind => exact (backed_of_terminal m hbody hkind).1
  | unwritten hbody hkind hchildren => exact (backed_of_unwritten m hbody hkind hchildren).1
  | @passThrough _ child _ _ hchild =>
    -- the node was listed before its child was evaluated
    refine ⟨fun _ => ?_, fun hunwritten => absurd hchild (hunwritten.2.2 child)⟩
    have hprogress := progress_evaluate hv child (m.addPassThrough (c.keyOf node))
    exact hprogress.passThrough.subset ((Memo.mem_addNew _ _).mpr (.inr rfl))
  | body hbody => exact listed_of_not m₁ (.inl (by rw [hbody]; nofun))
  | collect _ hkind => exact listed_of_not m₁ (.inr (by rw [hkind]; nofun))
  | decided h =>
    refine listed_of_not m₁ (h.imp (fun hbody => hbody) fun hkind rule => ?_)
    rw [hkind]
    nofun

namespace AllListed

variable {m : Memo}

theorem empty : c.AllListed .empty := by
  rintro id node - ⟨outcome, hget, -⟩
  cases hget

theorem start (h : c.AllListed m) (key : NodeKey) : c.AllListed (m.start key) :=
  fun id node hnode hended =>
    (h id node hnode (Memo.ended_start.mp hended).2).mono (fun _ hk => hk) fun _ hk => hk

theorem addTodo (h : c.AllListed m) (key : NodeKey) : c.AllListed (m.addTodo key) :=
  fun id node hnode hended =>
    (h id node hnode hended).mono (fun k hk => (Memo.mem_addNew key k).mpr (.inl hk)) fun _ hk => hk

theorem addPassThrough (h : c.AllListed m) (key : NodeKey) : c.AllListed (m.addPassThrough key) :=
  fun id node hnode hended =>
    (h id node hnode hended).mono (fun _ hk => hk) fun k hk => (Memo.mem_addNew key k).mpr (.inl hk)

/-- The outcome of a node that is listed may be recorded. -/
theorem set (h : c.AllListed m) (hd : c.trace.Distinct) {id : CstId} {node : CstNode}
    (hnode : c.trace.cstNode? id = some node) (hlisted : c.Listed m node) (outcome : Outcome) :
    c.AllListed (m.set (c.keyOf node) outcome) := by
  intro x n hn hended
  by_cases hkey : c.keyOf n = c.keyOf node
  -- the key is that of one node only
  · obtain rfl := keyOf_injective hd hn hnode hkey
    obtain rfl := Option.some.inj (hn.symm.trans hnode)
    exact hlisted.mono (fun _ hk => hk) fun _ hk => hk
  · exact (h x n hn (Memo.ended_of_ended_set hended hkey)).mono (fun _ hk => hk) fun _ hk => hk

end AllListed

/-- **An evaluation** lists all nodes that it should, where different nodes have different keys. -/
theorem allListed_evaluate (hv : c.trace.Valid) (hd : c.trace.Distinct) (id : CstId) :
    ∀ m, c.AllListed m → c.AllListed (c.evaluate id m).2 := by
  refine evaluate_induction hv (P := fun _ m _ m' => c.AllListed m → c.AllListed m') ?_ ?_ ?_ id
  · exact fun _ _ _ hm => hm
  · exact fun _ _ _ _ _ _ hm => hm
  · intro _ node m outcome m₁ hnode _ h ih hm
    have hstart := hm.start (c.keyOf node)
    have hm₁ : c.AllListed m₁ := h.invariant ih (fun _ _ _ => hstart.addTodo _)
      (fun _ => hstart.addPassThrough _) hstart
    exact hm₁.set hd hnode (h.listed hv) outcome

end ParseActions.Evaluation
