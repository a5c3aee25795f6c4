import ParseActions.Proofs.Action.Defaults
import ParseActions.Proofs.Action.Readings
import ParseActions.Proofs.Keyed

/-!
# What a body finds bound

The bindings of a body come in three groups, each of which may bind a name of the groups before it again:
`args` and `this`, the children under their numbers, and the first children under the names of the
arguments. Only the last two groups can meet, where an argument is named like a number. For the names of
an action have been checked: none of them is `args` or `this`, and none occurs twice, so that no child
hides another one under a name.

## Main results

* `Environment.get?_ofBindings`, `Environment.mem_visibleNames`: names in the scope of a list of bindings
* `RuleAction.environment_binds`: what each name means to a body, and that no other names are bound
-/

namespace ParseActions

/-! ## Scopes of lists of bindings -/

namespace Environment

variable {env : Environment} {name : String} {bindings : List (String × Value)}

theorem foldl_define (bindings : List (String × Value)) (env : Environment) :
    bindings.foldl (fun env (name, value) => env.define name value) env =
      ⟨bindings.foldl (fun m (key, a) => Keyed.insert key a m) env.innermost, env.enclosing⟩ := by
  induction bindings generalizing env with
  | nil => rfl
  | cons binding bindings ih => exact ih (env.define binding.1 binding.2)

theorem ofBindings_eq (bindings : List (String × Value)) :
    ofBindings bindings = ⟨Keyed.ofList bindings, []⟩ :=
  foldl_define bindings empty

/-- In a single scope a name means its last binding. -/
theorem get?_ofBindings (name : String) (bindings : List (String × Value)) :
    (ofBindings bindings).get? name = Keyed.find? name (Keyed.ofList bindings) := by
  rw [ofBindings_eq]
  simp [get?, scopes]

/-- A name has a value when some scope binds it. -/
theorem isBound_iff : env.isBound name = true ↔ ∃ scope ∈ env.scopes, name ∈ Keyed.keys scope := by
  simp only [isBound, get?, List.findSome?_isSome_iff, Keyed.mem_keys]

/-- **The visible names** are those that have a value. -/
theorem mem_visibleNames : name ∈ env.visibleNames ↔ env.isBound name = true := by
  rw [visibleNames, Keyed.mem_keys_ofList, isBound_iff]
  simp only [Keyed.keys, List.map_flatten, List.mem_flatten, List.mem_map, exists_exists_and_eq_and]

theorem isBound_ofBindings :
    (ofBindings bindings).isBound name = true ↔ name ∈ Keyed.keys bindings := by
  rw [isBound, get?_ofBindings, ← Keyed.mem_keys, Keyed.mem_keys_ofList]

end Environment

/-! ## The bindings of a body -/

namespace RuleAction

open Parameter (positional)

variable {action rule text name : String} {args : List String} {a : RuleAction}
  {children : List Value} {this v : Value}

/-- The children under their numbers. -/
def byNumber (children : List Value) : List (String × Value) :=
  children.mapIdx fun i child => (positional (i + 1), child)

theorem keys_byNumber (children : List Value) :
    Keyed.keys (byNumber children) = (List.range children.length).map fun k => positional (k + 1) := by
  refine List.ext_getElem ?_ fun k _ _ => ?_
  · simp [Keyed.keys, byNumber]
  · simp [Keyed.keys, byNumber]

theorem mem_keys_byNumber :
    name ∈ Keyed.keys (byNumber children) ↔ ∃ k < children.length, name = positional (k + 1) := by
  rw [keys_byNumber, List.mem_map]
  simp only [List.mem_range, @eq_comm _ name]

/-- No two children have the same number. -/
theorem nodup_keys_byNumber (children : List Value) : (Keyed.keys (byNumber children)).Nodup := by
  rw [keys_byNumber]
  exact List.nodup_range.map fun j k h => Nat.succ.inj (Parameter.positional_inj h)

/-- Numbers and the names that every body has are different. -/
theorem not_mem_keys_byNumber (h : name ∈ Parameter.reserved) : name ∉ Keyed.keys (byNumber children) := by
  intro hmem
  obtain ⟨k, -, rfl⟩ := mem_keys_byNumber.mp hmem
  exact (Parameter.bindable_positional (k + 1)).unreserved h

/-- Only as many arguments are bound as there are children. -/
theorem keys_zip (args : List String) (children : List Value) :
    Keyed.keys (args.zip children) = args.take children.length := by
  induction args generalizing children with
  | nil => simp [Keyed.keys]
  | cons name args ih =>
    cases children with
    | nil => rfl
    | cons child children => exact congrArg (name :: ·) (ih children)

/-- A body has bindings for `args` and `this`, the numbers of the children, and the first arguments. -/
theorem mem_keys_bindings : name ∈ Keyed.keys (a.bindings children this) ↔
    name = "args" ∨ name = "this" ∨ (∃ k < children.length, name = positional (k + 1)) ∨
      name ∈ a.args.take children.length := by
  have hkeys : Keyed.keys (a.bindings children this) =
      ["args", "this"] ++ Keyed.keys (byNumber children) ++ Keyed.keys (a.args.zip children) := by
    simp only [bindings, byNumber, Keyed.keys, List.map_append, List.map_cons, List.map_nil]
  rw [hkeys, keys_zip, List.mem_append, List.mem_append, mem_keys_byNumber, List.mem_cons,
    List.mem_singleton, or_assoc, or_assoc]

/-- What is bound to names of arguments comes last, and so it counts. -/
theorem get?_environment_of_mem (hnodup : a.args.Nodup) (h : (name, v) ∈ a.args.zip children) :
    (a.environment children this).get? name = some v := by
  have hkeys : (Keyed.keys (a.args.zip children)).Nodup := by
    rw [keys_zip]
    exact hnodup.sublist (List.take_sublist _ _)
  rw [environment, Environment.get?_ofBindings]
  exact Keyed.find?_ofList_append_of_mem hkeys h

/-- A name that no argument with a child has means what it means without arguments. -/
theorem get?_environment_of_not_mem (h : name ∉ a.args.take children.length) :
    (a.environment children this).get? name =
      Keyed.find? name
        (Keyed.ofList ([("args", .list children), ("this", this)] ++ byNumber children)) := by
  rw [← keys_zip] at h
  rw [environment, Environment.get?_ofBindings]
  exact Keyed.find?_ofList_append_of_not_mem h

theorem get?_environment_of_reserved (hargs : ∀ name ∈ a.args, name ∉ Parameter.reserved)
    (h : (name, v) ∈ [("args", Value.list children), ("this", this)]) :
    (a.environment children this).get? name = some v := by
  have hreserved : name ∈ Parameter.reserved := List.mem_map_of_mem (f := Prod.fst) h
  rw [get?_environment_of_not_mem fun hmem => hargs name (List.mem_of_mem_take hmem) hreserved,
    Keyed.find?_ofList_append_of_not_mem (not_mem_keys_byNumber hreserved)]
  exact Keyed.find?_ofList_of_mem (by simp [Keyed.keys]) h

/-- **What a body finds bound.** The names of an action are in order, so the first of them mean the
children in turn, `args` means all children, and `this` what is given for the node. A number means the
child at this place, unless the name of an argument with a child looks like it. No other name is bound. -/
theorem environment_binds (h : compile action rule args text = .ok a) (children : List Value)
    (this : Value) :
    let env := a.environment children this
    let named := args.take children.length
    env.get? "args" = some (.list children) ∧
      env.get? "this" = some this ∧
      (∀ (i : Nat) (hi : i < args.length) (hchild : i < children.length),
        env.get? args[i] = some children[i]) ∧
      (∀ (k : Nat) (hchild : k < children.length), positional (k + 1) ∉ named →
        env.get? (positional (k + 1)) = some children[k]) ∧
      (∀ name, env.isBound name = true ↔
        name = "args" ∨ name = "this" ∨ (∃ k < children.length, name = positional (k + 1)) ∨
          name ∈ named) ∧
      ∀ name, name ∈ env.visibleNames ↔ env.isBound name = true := by
  intro env named
  obtain ⟨hcheck, -, rfl, -⟩ := compile_eq_ok h
  obtain ⟨hnames, hnodup⟩ := Arguments.check_eq_ok_iff_nodup.mp hcheck
  have hunreserved : ∀ name ∈ a.args, name ∉ Parameter.reserved := fun name hname =>
    (hnames name hname).2
  refine ⟨get?_environment_of_reserved hunreserved List.mem_cons_self,
    get?_environment_of_reserved hunreserved (List.mem_cons_of_mem _ List.mem_cons_self),
    fun i hi hchild => ?_, fun k hchild hfree => ?_, fun name => ?_,
    fun name => Environment.mem_visibleNames⟩
  · refine get?_environment_of_mem hnodup ?_
    rw [← List.getElem_zip (h := by rw [List.length_zip]; omega)]
    exact List.getElem_mem _
  · rw [get?_environment_of_not_mem hfree]
    refine Keyed.find?_ofList_append_of_mem (nodup_keys_byNumber children) ?_
    exact List.mem_mapIdx.mpr ⟨k, hchild, rfl⟩
  · rw [show env = .ofBindings (a.bindings children this) from rfl, Environment.isBound_ofBindings,
      mem_keys_bindings]

/-- The name of the first argument is the number of the second child. -/
theorem environment_binds_swapped :
    ∃ a, compile "value" "Sum" ["$2", "b"] "$2 + b" = .ok a ∧
      let env := a.environment [.string "1", .string "+", .string "2"] .nil
      env.get? "$2" = some (.string "1") ∧ env.get? "b" = some (.string "+") ∧
        env.get? (positional 3) = some (.string "2") ∧ env.isBound "c" = false := by
  have hread : (compile "value" "Sum" ["$2", "b"] "$2 + b").toOption.isSome = true := by
    decide +kernel
  cases hcompile : compile "value" "Sum" ["$2", "b"] "$2 + b" with
  | error e =>
    rw [hcompile] at hread
    cases hread
  | ok a =>
    obtain ⟨-, -, hargs, hnumbers, hbound, -⟩ :=
      environment_binds hcompile [.string "1", .string "+", .string "2"] .nil
    refine ⟨a, rfl, hargs 0 (by decide) (by decide), hargs 1 (by decide) (by decide),
      hnumbers 2 (by decide) (by decide), Bool.eq_false_iff.mpr fun hc => ?_⟩
    rcases (hbound "c").mp hc with h | h | ⟨k, hk, h⟩ | h
    · exact absurd h (by decide)
    · exact absurd h (by decide)
    · have hdollar := congrArg (fun name => name.toList.head?) h
      rw [Parameter.toList_positional, List.head?_cons] at hdollar
      exact absurd hdollar (by decide)
    · exact absurd h (by decide)

end RuleAction

end ParseActions
