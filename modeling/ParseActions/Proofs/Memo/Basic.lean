import ParseActions.Memo.Basic
import ParseActions.Proofs.Keyed

/-!
# Laws of memos

Recording an outcome changes what is known of one key, and nothing else. What is recorded twice is
recorded once.

## Main definitions

* `Outcome.Settled`, `Outcome.IsErrored`: outcomes of evaluations that have ended, and errors
* `Outcome.argument`, `Outcome.collected`: what a body and a repetition make of the outcomes of
  children
* `Memo.Ended`: the outcome of a key is recorded and settled
* `Memo.counted`: a memo but for the number of evaluations

## Main results

* `Memo.get?_set`: what is known after an outcome was recorded
* `Memo.set_set`, `Memo.set_eq_self`: outcomes that are recorded again
-/

namespace ParseActions

namespace NodeKey

instance : Std.TransOrd NodeKey :=
  inferInstanceAs (Std.TransCmp (compareLex (compareOn constructor)
    (compareLex (compareOn start) (compareLex (compareOn stop) (compareOn action)))))

instance : Std.LawfulEqOrd NodeKey where
  eq_of_compare {a b} h := by
    change ((compare a.constructor b.constructor).then ((compare a.start b.start).then
      ((compare a.stop b.stop).then (compare a.action b.action)))) = .eq at h
    simp only [Ordering.then_eq_eq, Std.LawfulEqOrd.compare_eq_iff_eq] at h
    obtain ⟨hconstructor, hstart, hstop, haction⟩ := h
    cases a
    cases b
    simp_all

end NodeKey

namespace Option

variable {α β : Type} {f : α → Option β} {l : List α}

/-- A function that fails on a list fails on an element. -/
theorem exists_of_mapM_eq_none (h : l.mapM f = none) : ∃ a ∈ l, f a = none := by
  induction l with
  | nil => cases h
  | cons a l ih =>
    cases ha : f a with
    | none => exact ⟨a, List.mem_cons_self, ha⟩
    | some b =>
      cases hl : l.mapM f with
      | none =>
        obtain ⟨a', ha', hnone⟩ := ih hl
        exact ⟨a', List.mem_cons_of_mem _ ha', hnone⟩
      | some bs =>
        rw [List.mapM_cons, ha, hl] at h
        cases h

/-- A function that succeeds on a list succeeds on each element. -/
theorem ne_none_of_mapM_eq_some {bs : List β} (h : l.mapM f = some bs) {a : α} (ha : a ∈ l) :
    f a ≠ none := by
  induction l generalizing bs with
  | nil => cases ha
  | cons a' l ih =>
    simp only [List.mapM_cons, bind, Option.bind_eq_some_iff] at h
    obtain ⟨b, hb, bs', hbs, -⟩ := h
    rcases List.mem_cons.mp ha with rfl | ha
    · rw [hb]
      nofun
    · exact ih hbs ha

end Option

namespace Outcome

/-- The evaluation has ended. -/
def Settled (outcome : Outcome) : Prop :=
  outcome ≠ .pending

/-- The outcome is an error. -/
def IsErrored (outcome : Outcome) : Prop :=
  ∃ e, outcome = .errored e

/-- The argument of a body that a child gives: its value, or nil. -/
def argument (outcome : Outcome) : Value :=
  outcome.value?.getD .nil

/-- The outcome of a repetition: the list of the values of its children, if all of them have one. -/
def collected (outcomes : List Outcome) : Outcome :=
  (outcomes.mapM value?).elim failed fun values => succeeded (.list values)

theorem settled_failed : failed.Settled := by
  rintro ⟨⟩

theorem settled_succeeded (v : Value) : (succeeded v).Settled := by
  rintro ⟨⟩

theorem settled_errored (e : RaisedError) : (errored e).Settled := by
  rintro ⟨⟩

theorem not_isErrored_failed : ¬ failed.IsErrored := by
  rintro ⟨e, ⟨⟩⟩

theorem not_isErrored_succeeded (v : Value) : ¬ (succeeded v).IsErrored := by
  rintro ⟨e, ⟨⟩⟩

@[simp] theorem propagated_false (outcome : Outcome) : outcome.propagated false = outcome := by
  cases outcome <;> rfl

theorem propagated_of_not_errored {outcome : Outcome} (h : ¬ outcome.IsErrored) (p : Bool) :
    outcome.propagated p = outcome := by
  cases outcome with
  | errored e => exact absurd ⟨e, rfl⟩ h
  | _ => rfl

@[simp] theorem value?_propagated (outcome : Outcome) (p : Bool) :
    (outcome.propagated p).value? = outcome.value? := by
  cases outcome with
  | errored e => cases p <;> rfl
  | _ => rfl

theorem value?_eq_none_of_errored {outcome : Outcome} (h : outcome.IsErrored) :
    outcome.value? = none := by
  obtain ⟨e, rfl⟩ := h
  rfl

theorem value?_eq_some {outcome : Outcome} {v : Value} :
    outcome.value? = some v ↔ outcome = .succeeded v := by
  cases outcome with
  | succeeded v' => simp [value?]
  | _ => simp [value?]

/-- Without a value, an outcome that is settled is a failure or an error. -/
theorem failed_or_errored {outcome : Outcome} (h : outcome.Settled)
    (hnone : outcome.value? = none) : outcome = .failed ∨ outcome.IsErrored := by
  cases outcome with
  | pending => exact absurd rfl h
  | failed => exact .inl rfl
  | errored e => exact .inr ⟨e, rfl⟩
  | succeeded v => cases hnone

/-- Outcomes with values give these values as arguments. -/
theorem map_argument {outcomes : List Outcome} {values : List Value}
    (h : outcomes.mapM value? = some values) : outcomes.map argument = values := by
  induction outcomes generalizing values with
  | nil => simpa using h
  | cons outcome rest ih =>
    simp only [List.mapM_cons, bind, Option.bind_eq_some_iff, pure, Option.some.injEq] at h
    obtain ⟨v, hv, vs, hvs, rfl⟩ := h
    rw [List.map_cons, ih hvs, argument, hv, Option.getD_some]

end Outcome

namespace Memo

variable (m : Memo) (key k : NodeKey) (outcome : Outcome)

@[simp] theorem get?_set_self : (m.set key outcome).get? key = some outcome :=
  Keyed.find?_insert_self key outcome m.entries

theorem get?_set : (m.set key outcome).get? k = if k = key then some outcome else m.get? k :=
  Keyed.find?_insert key k outcome m.entries

variable {key k} in
theorem get?_set_of_ne (h : k ≠ key) : (m.set key outcome).get? k = m.get? k :=
  Keyed.find?_insert_of_ne h outcome m.entries

theorem get?_start : (m.start key).get? k = if k = key then some .pending else m.get? k :=
  m.get?_set key k .pending

variable {m key} in
theorem isFailed_iff : m.isFailed key = true ↔ m.get? key = some .failed := by
  rw [isFailed, Option.any_eq_true]
  constructor
  · rintro ⟨outcome, hget, hfailed⟩
    cases outcome with
    | failed => exact hget
    | _ => cases hfailed
  · exact fun hget => ⟨.failed, hget, rfl⟩

variable {m} in
theorem permissive_eq_true : m.permissive = true ↔ m.todo ≠ [] := by
  simp [permissive]

variable {m} in
theorem permissive_eq_false : m.permissive = false ↔ m.todo = [] := by
  simp [permissive]

theorem mem_addNew {keys : List NodeKey} : k ∈ addNew keys key ↔ k ∈ keys ∨ k = key := by
  by_cases h : key ∈ keys
  · rw [addNew, if_pos h]
    exact ⟨.inl, fun hk => hk.elim id fun he => he ▸ h⟩
  · simp [addNew, h]

theorem addNew_of_mem {keys : List NodeKey} {key : NodeKey} (h : key ∈ keys) :
    addNew keys key = keys :=
  if_pos h

theorem prefix_addNew (keys : List NodeKey) : keys <+: addNew keys key := by
  by_cases h : key ∈ keys
  · simp only [addNew_of_mem h, List.prefix_rfl]
  · simp only [addNew, if_neg h, List.prefix_append]

@[simp] theorem permissive_addTodo : (m.addTodo key).permissive = true := by
  rw [permissive_eq_true]
  exact List.ne_nil_of_mem ((mem_addNew key key).mpr (.inr rfl))

/-! ## Outcomes that are recorded again -/

/-- The second of two outcomes that are recorded for a key counts. -/
theorem set_set (o : Outcome) : (m.set key o).set key outcome = m.set key outcome := by
  rw [set, set, set, Keyed.insert_insert]

variable {m key outcome} in
/-- Recording what is recorded changes nothing. -/
theorem set_eq_self (hs : Keyed.Sorted m.entries) (h : m.get? key = some outcome) :
    m.set key outcome = m := by
  rw [set, Keyed.insert_eq_self hs h]

/-- The outcome of a key is recorded and settled. -/
def Ended : Prop :=
  ∃ outcome, m.get? key = some outcome ∧ outcome.Settled

variable {m key k} in
/-- An outcome is settled while another evaluation begins. -/
theorem ended_start : (m.start key).Ended k ↔ k ≠ key ∧ m.Ended k := by
  constructor
  · rintro ⟨outcome, hget, hsettled⟩
    rw [get?_start] at hget
    split at hget
    · exact absurd (Option.some.inj hget).symm hsettled
    · next hne => exact ⟨hne, outcome, hget, hsettled⟩
  · rintro ⟨hne, outcome, hget, hsettled⟩
    exact ⟨outcome, by rw [get?_start, if_neg hne, hget], hsettled⟩

variable {m k outcome} in
/-- An outcome that was settled is settled when a settled one is recorded. -/
theorem Ended.set (h : m.Ended k) (key : NodeKey) (ho : outcome.Settled) :
    (m.set key outcome).Ended k := by
  by_cases hk : k = key
  · exact ⟨outcome, by rw [hk, get?_set_self], ho⟩
  · obtain ⟨recorded, hget, hsettled⟩ := h
    exact ⟨recorded, by rw [get?_set_of_ne _ _ hk, hget], hsettled⟩

variable {m key k outcome} in
theorem ended_of_ended_set (h : (m.set key outcome).Ended k) (hk : k ≠ key) : m.Ended k := by
  obtain ⟨recorded, hget, hsettled⟩ := h
  rw [get?_set_of_ne _ _ hk] at hget
  exact ⟨recorded, hget, hsettled⟩

/-- A memo but for the number of evaluations. -/
def counted (n : Nat) : Memo :=
  { m with evaluations := n }

theorem counted_self : m.counted m.evaluations = m := rfl

end Memo

end ParseActions
