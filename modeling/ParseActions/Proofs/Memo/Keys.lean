import Mathlib.Data.Set.Function
import ParseActions.Proofs.Memo.Cases
import ParseActions.Proofs.Text.Parts

/-!
# The keys of memos

A key as text can be read from the right: once the action is taken off, each end stands behind the last
underscore of what is left, as digits contain no underscore. So keys under one action that are written
alike are the same, whatever the rules and the action are called.

The keys that a memo holds are those of nodes: the keys of its entries, those at which recorded errors
arose, and those on its lists.

## Main definitions

* `Outcome.origin?`: the key of the node whose body raised an error
* `Memo.AllKeys`: what holds of all keys that a memo holds

## Main results

* `NodeKey.display_injOn`: under one action, keys that are written alike are the same
* `Evaluation.allKeys_evaluate`: what holds of the keys of nodes holds of all keys that an evaluation
  leaves
-/

namespace ParseActions

namespace NodeKey

theorem toList_display (key : NodeKey) : key.display.toList =
    (key.constructor.toList ++ "_from".toList ++ '_' :: Nat.toDigits 10 key.start) ++
      "_to".toList ++ '_' :: Nat.toDigits 10 key.stop ++ "_at_".toList ++ key.action.toList := by
  simp [display, toString]

/-- **Under one action** keys that are written alike are the same. -/
theorem display_injOn (action : String) :
    {key : NodeKey | key.action = action}.InjOn NodeKey.display := by
  intro key haction key' haction' h
  have hlists := congrArg String.toList h
  rw [toList_display, toList_display, haction, haction', List.append_cancel_right_eq,
    List.append_cancel_right_eq] at hlists
  -- both ends are numbers behind an underscore, the last one first
  obtain ⟨hbefore, hstop⟩ := Text.append_number_inj hlists
  rw [List.append_cancel_right_eq] at hbefore
  obtain ⟨hbefore, hstart⟩ := Text.append_number_inj hbefore
  rw [List.append_cancel_right_eq] at hbefore
  cases key
  cases key'
  rw [NodeKey.mk.injEq]
  exact ⟨String.toList_injective hbefore, hstart, hstop, haction.trans haction'.symm⟩

example : NodeKey.display ⟨"a", 0, 1, "b_from_2_to_3_at_c"⟩ =
    NodeKey.display ⟨"a_from_0_to_1_at_b", 2, 3, "c"⟩ := by decide

end NodeKey

/-! ## The keys that a memo holds -/

namespace Outcome

/-- The key of the node whose body raised an error. -/
def origin? (outcome : Outcome) : Option NodeKey :=
  outcome.error?.map RaisedError.origin

theorem origin?_propagated {outcome : Outcome} {permissive : Bool} {key : NodeKey}
    (h : (outcome.propagated permissive).origin? = some key) : outcome.origin? = some key := by
  cases outcome with
  | errored e =>
    cases permissive with
    | true => cases h
    | false => exact h
  | _ => exact h

@[simp] theorem origin?_collected (outcomes : List Outcome) :
    (collected outcomes).origin? = none := by
  rw [collected]
  cases outcomes.mapM value? <;> rfl

end Outcome

/-- All keys that a memo holds have a property: those of its entries, those at which recorded errors
arose, and those on its lists. -/
structure Memo.AllKeys (p : NodeKey → Prop) (m : Memo) : Prop where
  entries : ∀ entry ∈ m.entries, p entry.1
  origins : ∀ entry ∈ m.entries, ∀ origin ∈ entry.2.origin?, p origin
  todo : ∀ key ∈ m.todo, p key
  passThrough : ∀ key ∈ m.passThrough, p key

namespace Memo.AllKeys

variable {p : NodeKey → Prop} {m : Memo} {key : NodeKey}

theorem empty : AllKeys p .empty where
  entries _ hentry := nomatch hentry
  origins _ hentry := nomatch hentry
  todo _ hkey := nomatch hkey
  passThrough _ hkey := nomatch hkey

theorem set (h : m.AllKeys p) (hkey : p key) {outcome : Outcome}
    (horigin : ∀ origin ∈ outcome.origin?, p origin) : (m.set key outcome).AllKeys p where
  entries entry hentry := by
    rcases Keyed.mem_insert hentry with rfl | hentry
    · exact hkey
    · exact h.entries entry hentry
  origins entry hentry := by
    rcases Keyed.mem_insert hentry with rfl | hentry
    · exact horigin
    · exact h.origins entry hentry
  todo := h.todo
  passThrough := h.passThrough

theorem start (h : m.AllKeys p) (hkey : p key) : (m.start key).AllKeys p :=
  have hset : (m.set key .pending).AllKeys p := h.set hkey nofun
  ⟨hset.entries, hset.origins, hset.todo, hset.passThrough⟩

theorem addTodo (h : m.AllKeys p) (hkey : p key) : (m.addTodo key).AllKeys p :=
  { h with todo := fun k hk => ((mem_addNew key k).mp hk).elim (h.todo k) fun he => he ▸ hkey }

theorem addPassThrough (h : m.AllKeys p) (hkey : p key) : (m.addPassThrough key).AllKeys p :=
  { h with passThrough := fun k hk =>
      ((mem_addNew key k).mp hk).elim (h.passThrough k) fun he => he ▸ hkey }

/-- What holds of all keys holds of the origin of an outcome that is recorded. -/
theorem origin_of_get? (h : m.AllKeys p) {outcome : Outcome} (hget : m.get? key = some outcome) :
    ∀ origin ∈ outcome.origin?, p origin :=
  h.origins (key, outcome) (Keyed.mem_of_find? hget)

end Memo.AllKeys

namespace Evaluation

variable {c : Evaluation} {p : NodeKey → Prop}

/-- An error of a body arose at its node. -/
theorem origin?_runBody {a : RuleAction} {node : CstNode} {args : List Value} {m : Memo} :
    ∀ origin ∈ (c.runBody a node args m).origin?, origin = c.keyOf node := by
  intro origin horigin
  rw [runBody] at horigin
  split at horigin
  · split at horigin <;> cases horigin
  · exact (Option.some.inj (Outcome.origin?_propagated horigin)).symm

/-- Where all keys of a memo have a property, so have those that the evaluation of a node leaves, and the
error that it may end with arose at such a key. -/
def KeepsKeys (c : Evaluation) (p : NodeKey → Prop) (id : CstId) : Prop :=
  ∀ m, m.AllKeys p → (c.evaluate id m).2.AllKeys p ∧ ∀ origin ∈ (c.evaluate id m).1.origin?, p origin

/-- The error of an evaluation that has begun arose at its node, or is that of a child. -/
theorem Finished.origin {node : CstNode} {m m₁ : Memo} {outcome : Outcome}
    (h : c.Finished node m outcome m₁) (hkey : p (c.keyOf node))
    (hchildren : ∀ child ∈ node.children, c.KeepsKeys p child) (hm : m.AllKeys p) :
    ∀ origin ∈ outcome.origin?, p origin := by
  cases h with
  | terminal => nofun
  | unwritten => nofun
  | passThrough _ _ hchild =>
    intro origin horigin
    exact (hchildren _ (hchild ▸ List.mem_singleton_self _) _ (hm.addPassThrough hkey)).2 origin
      (Outcome.origin?_propagated horigin)
  | body =>
    intro origin horigin
    exact origin?_runBody origin horigin ▸ hkey
  | collect =>
    rw [Outcome.origin?_collected]
    nofun
  | decided _ hall =>
    obtain ⟨child, hchild, n, hn, -, -, rfl⟩ :=
      exists_of_outcomes_eq_error (fun id hid m hm => (hchildren id hid m hm).1) hm hall
    intro origin horigin
    exact (hchildren child hchild n hn).2 origin (Outcome.origin?_propagated horigin)

/-- **What holds of the keys of nodes** holds of all keys that an evaluation leaves. -/
theorem allKeys_evaluate (hv : c.trace.Valid)
    (hp : ∀ id node, c.trace.cstNode? id = some node → p (c.keyOf node)) (id : CstId) :
    c.KeepsKeys p id := by
  refine evaluate_induction hv (P := fun _ m outcome m' =>
    m.AllKeys p → m'.AllKeys p ∧ ∀ origin ∈ outcome.origin?, p origin) ?_ ?_ ?_ id
  · exact fun _ _ _ hm => ⟨hm, nofun⟩
  · exact fun _ _ _ _ _ h hm => ⟨hm, hm.origin_of_get? (known?_eq_some h).1⟩
  · intro id node m outcome m₁ hnode _ h ih hm
    have hkey := hp id node hnode
    have hstart := hm.start hkey
    have hm₁ : m₁.AllKeys p := h.invariant (fun child hchild m hm => (ih child hchild m hm).1)
      (fun _ _ _ => hstart.addTodo hkey) (fun _ => hstart.addPassThrough hkey) hstart
    have horigin := h.origin hkey ih hstart
    exact ⟨hm₁.set hkey horigin, horigin⟩

end Evaluation

end ParseActions
