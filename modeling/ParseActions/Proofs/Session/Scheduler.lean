import Mathlib.Data.List.Induction
import ParseActions.Session.Scheduler

/-!
# Histories of a scheduler

Requests come and go: one that is asked for is replaced by a later one, taken when it is due,
dropped, or still pending. What is pending is the last request, as long as it was neither taken nor
dropped.

## Main definitions

* `Scheduler.Op`: what can be done with a scheduler, `Scheduler.after`: the scheduler after it
* `Scheduler.tally`: how many operations of a history have a property
* `Scheduler.Outstanding`: the last request of a history was neither taken nor dropped since

## Main results

* `Scheduler.generation_after`: what becomes of the requests that were made
* `Scheduler.due_after_iff`: what is pending after a history
* `Scheduler.take_after_iff`: when a request is taken
-/

namespace ParseActions.Scheduler

/-- What can be done with a scheduler: a refresh is asked for, the pending request is taken if it is
due, or it is dropped. -/
inductive Op where
  | request (delay now : Nat)
  | take (now : Nat)
  | cancel
  deriving DecidableEq

namespace Op

/-- The scheduler after an operation. -/
def perform (s : Scheduler) : Op → Scheduler
  | request delay now => s.request delay now
  | take now => (s.take now).2
  | cancel => s.cancel.2

/-- An operation takes the pending request. -/
def takes (s : Scheduler) : Op → Bool
  | take now => (s.take now).1
  | _ => false

/-- An operation drops the pending request. -/
def drops (s : Scheduler) : Op → Bool
  | cancel => s.cancel.1
  | _ => false

/-- An operation is no request, and neither takes nor drops one. -/
def Idle (s : Scheduler) : Op → Prop
  | request _ _ => False
  | op => op.takes s = false ∧ op.drops s = false

end Op

/-- The scheduler after some operations, one after the other. -/
def after (s : Scheduler) (ops : List Op) : Scheduler :=
  ops.foldl Op.perform s

/-- How many operations of a history have a property, which may depend on the scheduler they are
done with. -/
def tally (p : Scheduler → Op → Bool) : Scheduler → List Op → Nat
  | _, [] => 0
  | s, op :: ops => (p s op).toNat + tally p (op.perform s) ops

/-- No operation of a history asks for, takes or drops anything. -/
def Idle : Scheduler → List Op → Prop
  | _, [] => True
  | s, op :: ops => op.Idle s ∧ Idle (op.perform s) ops

/-- The last request of a history from the start was neither taken nor dropped since. -/
def Outstanding (ops : List Op) (delay asked : Nat) : Prop :=
  ∃ before since, ops = before ++ .request delay asked :: since ∧
    Idle (start.after (before ++ [.request delay asked])) since

variable {s : Scheduler} {op : Op} {ops : List Op} {delay asked now d : Nat}

/-! ## Single operations -/

theorem superseded_request (s : Scheduler) (delay now : Nat) :
    (s.request delay now).superseded = s.superseded + s.hasPending.toNat := by
  rw [request]
  cases s.hasPending <;> rfl

/-- What is due is pending. -/
theorem isDue_eq_true : s.isDue now = true ↔ ∃ due, s.due = some due ∧ due ≤ now := by
  simp [isDue, Option.any_eq_true]

theorem take_of_isDue (h : s.isDue now = true) : s.take now = (true, s.cancel.2) := by
  rw [take, if_pos h]
  rfl

theorem take_of_not_isDue (h : s.isDue now = false) : s.take now = (false, s) := by
  rw [take, if_neg (Bool.eq_false_iff.mp h)]

/-- The flag of a take tells whether a request was due. -/
theorem take_fst (s : Scheduler) (now : Nat) : (s.take now).1 = s.isDue now := by
  cases hdue : s.isDue now with
  | false => rw [take_of_not_isDue hdue]
  | true => rw [take_of_isDue hdue]

/-- No time is left exactly when a request is due. -/
theorem timeLeft?_eq_some_zero : s.timeLeft? now = some 0 ↔ s.isDue now = true := by
  rw [timeLeft?, Option.map_eq_some_iff, isDue_eq_true]
  simp only [Nat.sub_eq_zero_iff_le]

/-- **One operation** makes a request that replaces the pending one or not, or takes or drops the
pending one, or leaves it. -/
theorem generation_perform (s : Scheduler) (op : Op) :
    (op.perform s).generation + s.superseded + s.hasPending.toNat =
      s.generation + (op.perform s).superseded + (op.takes s).toNat + (op.drops s).toNat +
        (op.perform s).hasPending.toNat := by
  cases op with
  | request delay now =>
    show s.generation + 1 + s.superseded + s.hasPending.toNat =
      s.generation + (s.request delay now).superseded + 0 + 0 + 1
    rw [superseded_request]
    omega
  | take now =>
    cases hdue : s.isDue now with
    | false =>
      simp only [Op.perform, Op.takes, Op.drops, take_of_not_isDue hdue]
      rfl
    | true =>
      have hpending : s.hasPending = true := by
        obtain ⟨due, hsome, -⟩ := isDue_eq_true.mp hdue
        rw [hasPending, hsome, Option.isSome_some]
      simp only [Op.perform, Op.takes, Op.drops, take_of_isDue hdue, hpending]
      rfl
  | cancel => rfl

/-- An operation that is idle leaves the scheduler. -/
theorem perform_of_idle (h : op.Idle s) : op.perform s = s := by
  cases op with
  | request delay now => exact h.elim
  | take now =>
    have hdue : s.isDue now = false := by
      rw [← take_fst]
      exact h.1
    rw [Op.perform, take_of_not_isDue hdue]
  | cancel =>
    have hnone : s.due = none := by
      rw [← Option.not_isSome_iff_eq_none]
      exact Bool.eq_false_iff.mp h.2
    rw [Op.perform, cancel, ← hnone]

/-! ## Histories -/

theorem after_append (s : Scheduler) (ops ops' : List Op) :
    s.after (ops ++ ops') = (s.after ops).after ops' :=
  List.foldl_append

/-- What becomes of the requests that are made in the course of some operations. -/
theorem generation_after_add (s : Scheduler) (ops : List Op) :
    (s.after ops).generation + s.superseded + s.hasPending.toNat =
      s.generation + (s.after ops).superseded + tally (fun s op => op.takes s) s ops +
        tally (fun s op => op.drops s) s ops + (s.after ops).hasPending.toNat := by
  induction ops generalizing s with
  | nil => rfl
  | cons op ops ih =>
    have hperform := generation_perform s op
    have hrest := ih (op.perform s)
    rw [after, List.foldl_cons, ← after, tally, tally]
    omega

/-- **What becomes of requests**: each one that was made is replaced, taken or dropped, or is the
one that is pending. -/
theorem generation_after (ops : List Op) :
    (start.after ops).generation = (start.after ops).superseded +
      tally (fun s op => op.takes s) start ops + tally (fun s op => op.drops s) start ops +
      (start.after ops).hasPending.toNat := by
  have hadd := generation_after_add start ops
  simpa [start, hasPending] using hadd

/-- A history in which nothing is asked for, taken or dropped leaves the scheduler. -/
theorem after_of_idle (h : Idle s ops) : s.after ops = s := by
  induction ops with
  | nil => rfl
  | cons op ops ih =>
    have hop : op.perform s = s := perform_of_idle h.1
    have hops : Idle s ops := by
      rw [← hop]
      exact h.2
    rw [after, List.foldl_cons, hop]
    exact ih hops

theorem idle_concat (h : Idle s ops) (hop : op.Idle s) : Idle s (ops ++ [op]) := by
  induction ops with
  | nil => exact ⟨hop, trivial⟩
  | cons first ops ih =>
    obtain ⟨hfirst, hops⟩ := h
    rw [perform_of_idle hfirst] at hops
    refine ⟨hfirst, ?_⟩
    rw [perform_of_idle hfirst]
    exact ih hops

/-- The last request stays so when nothing is asked for, taken or dropped. -/
theorem Outstanding.concat (h : Outstanding ops delay asked) (hop : op.Idle (start.after ops)) :
    Outstanding (ops ++ [op]) delay asked := by
  obtain ⟨before, since, rfl, hsince⟩ := h
  refine ⟨before, since ++ [op], by simp, idle_concat hsince ?_⟩
  rwa [List.append_cons, after_append, after_of_idle hsince] at hop

/-- **What is pending** after a history is its last request, unless it was taken or dropped. -/
theorem due_after_iff (ops : List Op) (d : Nat) :
    (start.after ops).due = some d ↔
      ∃ delay asked, Outstanding ops delay asked ∧ d = Time.later asked delay := by
  constructor
  · intro hdue
    induction ops using List.reverseRecOn generalizing d with
    | nil => cases hdue
    | append_singleton ops op ih =>
      rw [after_append] at hdue
      cases op with
      | request delay asked =>
        obtain rfl : Time.later asked delay = d := Option.some.inj hdue
        exact ⟨delay, asked, ⟨ops, [], rfl, trivial⟩, rfl⟩
      | cancel => cases hdue
      | take now =>
        cases htaken : (start.after ops).isDue now with
        | true =>
          -- nothing is pending when the request was taken
          simp only [after, List.foldl_cons, List.foldl_nil, Op.perform] at hdue htaken
          rw [take_of_isDue htaken] at hdue
          cases hdue
        | false =>
          have hidle : (Op.take now).Idle (start.after ops) := by
            refine ⟨?_, rfl⟩
            rw [Op.takes, take_fst, htaken]
          have hsame : (start.after ops).after [.take now] = start.after ops :=
            perform_of_idle hidle
          rw [hsame] at hdue
          obtain ⟨delay, asked, hlast, hd⟩ := ih d hdue
          exact ⟨delay, asked, hlast.concat hidle, hd⟩
  · rintro ⟨delay, asked, ⟨before, since, rfl, hsince⟩, rfl⟩
    rw [List.append_cons, after_append, after_of_idle hsince, after_append]
    rfl

/-- **When a request is taken**: the last one was neither taken nor dropped since, and the time is
not before the end of its delay. -/
theorem take_after_iff (ops : List Op) (now : Nat) :
    ((start.after ops).take now).1 = true ↔
      ∃ delay asked, Outstanding ops delay asked ∧ Time.later asked delay ≤ now := by
  rw [take_fst, isDue_eq_true]
  constructor
  · rintro ⟨due, hdue, hle⟩
    obtain ⟨delay, asked, hlast, rfl⟩ := (due_after_iff ops due).mp hdue
    exact ⟨delay, asked, hlast, hle⟩
  · rintro ⟨delay, asked, hlast, hle⟩
    exact ⟨_, (due_after_iff ops _).mpr ⟨delay, asked, hlast, rfl⟩, hle⟩

/-- What makes a request pending that was not is a request. -/
theorem exists_request_of_hasPending (hs : s.hasPending = false)
    (hafter : (s.after ops).hasPending = true) : ∃ delay asked, Op.request delay asked ∈ ops := by
  induction ops generalizing s with
  | nil => exact absurd hafter (Bool.eq_false_iff.mp hs)
  | cons op ops ih =>
    have hrest (hnone : (op.perform s).hasPending = false) :
        ∃ delay asked, Op.request delay asked ∈ op :: ops := by
      obtain ⟨delay, asked, hmem⟩ := ih hnone hafter
      exact ⟨delay, asked, List.mem_cons_of_mem op hmem⟩
    cases op with
    | request delay asked => exact ⟨delay, asked, List.mem_cons_self⟩
    | cancel => exact hrest rfl
    | take now =>
      apply hrest
      cases hdue : s.isDue now with
      | false => rwa [Op.perform, take_of_not_isDue hdue]
      | true =>
        rw [Op.perform, take_of_isDue hdue]
        rfl

end ParseActions.Scheduler
