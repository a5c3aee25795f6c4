import ParseActions.Diagnostic

/-!
# What further reports keep

A pass over a body only ever adds to its reports. What one more report cannot make false then holds
to the end of the pass, if it held before. Only the first reports are kept, while all of them are
counted; so adding the reports of another pass to those of a pass loses the count of what the other
pass did not keep.

## Main definitions

* `Diagnostics.Lasting`: a property that one more report keeps
* `Diagnostics.ofReports`: the diagnostics of a pass by the reports that it makes

## Main results

* `Diagnostics.lasting_hasErrors`, `Diagnostics.lasting_explained`: there are reports, and one is
  kept unless there are none
* `Diagnostics.Lasting.extend`: adding what another pass kept
* `Diagnostics.extend_ofReports`, `Diagnostics.reports_of_two_passes`: the reports of two passes
-/

namespace ParseActions

namespace Diagnostics

/-- A property of reports that one more report keeps. -/
def Lasting (P : Diagnostics → Prop) : Prop :=
  ∀ ds d, P ds → P (ds.push d)

@[simp] theorem hasErrors_push (ds : Diagnostics) (d : Diagnostic) :
    (ds.push d).hasErrors = true := by
  simp [push, hasErrors]

theorem hasErrors_of_isFull {ds : Diagnostics} (h : ds.isFull = true) : ds.hasErrors = true := by
  have hfull : maxKept ≤ ds.total := of_decide_eq_true h
  exact decide_eq_true (Nat.lt_of_lt_of_le (by decide) hfull)

/-- There are reports. -/
theorem lasting_hasErrors : Lasting fun ds => ds.hasErrors = true :=
  fun ds d _ => hasErrors_push ds d

/-- None are counted only if none are kept either. -/
theorem lasting_clean : Lasting fun ds => ds.hasErrors = false → ds = .empty :=
  fun ds d _ hclean => Bool.noConfusion ((hasErrors_push ds d).symm.trans hclean)

/-- Unless there are no reports, one is kept. -/
theorem lasting_explained : Lasting fun ds => ds = .empty ∨ ds.kept ≠ [] := by
  rintro ds d -
  refine .inr ?_
  simp only [push]
  split
  · simp
  · next hfull =>
    intro hnone
    rw [hnone] at hfull
    exact hfull (by simp [maxKept])

/-- Adding what another pass kept adds reports. -/
theorem Lasting.extend {P : Diagnostics → Prop} (hP : Lasting P) {ds : Diagnostics} (h : P ds)
    (other : Diagnostics) : P (ds.extend other) := by
  rw [Diagnostics.extend]
  generalize other.kept = reports
  induction reports generalizing ds with
  | nil => exact h
  | cons d reports ih => exact ih (hP ds d h)

/-! ## Every report -/

/-- What holds of the reports that are kept and of a further one holds of those that are kept then. -/
theorem forall_kept_push {P : Diagnostic → Prop} {ds : Diagnostics} {d : Diagnostic}
    (h : ∀ d' ∈ ds.kept, P d') (hd : P d) : ∀ d' ∈ (ds.push d).kept, P d' := by
  simp only [push]
  split
  · exact List.forall_mem_append.mpr ⟨h, List.forall_mem_singleton.mpr hd⟩
  · exact h

theorem forall_kept_extend {P : Diagnostic → Prop} {ds other : Diagnostics}
    (h : ∀ d ∈ ds.kept, P d) (hother : ∀ d ∈ other.kept, P d) :
    ∀ d ∈ (ds.extend other).kept, P d := by
  rw [Diagnostics.extend]
  generalize other.kept = reports at hother
  induction reports generalizing ds with
  | nil => exact h
  | cons d reports ih =>
    obtain ⟨hd, hreports⟩ := List.forall_mem_cons.mp hother
    exact ih (forall_kept_push h hd) hreports

/-! ## The reports of two passes -/

/-- Cutting a list off before more is added makes no difference where the whole is cut off. -/
theorem take_take_append {α : Type} (n : Nat) (xs ys : List α) :
    (xs.take n ++ ys).take n = (xs ++ ys).take n := by
  rw [List.take_append, List.take_append, List.take_take, Nat.min_self, List.length_take]
  congr 2
  omega

theorem take_append_take {α : Type} (n : Nat) (xs ys : List α) :
    (xs ++ ys.take n).take n = (xs ++ ys).take n := by
  rw [List.take_append, List.take_append, List.take_take, Nat.min_eq_left (Nat.sub_le _ _)]

/-- The diagnostics of a pass that makes these reports, one after another. -/
def ofReports (reports : List Diagnostic) : Diagnostics :=
  reports.foldl push empty

theorem push_eq {ds : Diagnostics} (h : ds.kept.length ≤ maxKept) (d : Diagnostic) :
    ds.push d = ⟨(ds.kept ++ [d]).take maxKept, ds.total + 1⟩ := by
  simp only [push, mk.injEq, and_true]
  split
  · next hroom =>
    rw [List.take_of_length_le]
    rwa [List.length_append]
  · next hfull => rw [List.take_append_of_le_length (Nat.not_lt.mp hfull), List.take_of_length_le h]

/-- **Reports one after another**: the first of all are kept, and all are counted. -/
theorem foldl_push {ds : Diagnostics} (h : ds.kept.length ≤ maxKept) (reports : List Diagnostic) :
    reports.foldl push ds =
      ⟨(ds.kept ++ reports).take maxKept, ds.total + reports.length⟩ := by
  induction reports generalizing ds with
  | nil =>
    rw [List.append_nil, List.take_of_length_le h]
    rfl
  | cons d reports ih =>
    have hpush : (ds.push d).kept.length ≤ maxKept := by
      rw [push_eq h]
      exact List.length_take_le _ _
    rw [List.foldl_cons, ih hpush, push_eq h, take_take_append, ← List.append_cons,
      List.length_cons, Nat.add_assoc, Nat.add_comm 1]

theorem ofReports_eq (reports : List Diagnostic) :
    ofReports reports = ⟨reports.take maxKept, reports.length⟩ := by
  rw [ofReports, foldl_push (Nat.zero_le _)]
  simp [empty]

/-- Of the reports of another pass only those are counted that it kept. -/
theorem extend_ofReports {ds : Diagnostics} (h : ds.kept.length ≤ maxKept)
    (reports : List Diagnostic) :
    ds.extend (ofReports reports) =
      ⟨(ds.kept ++ reports).take maxKept, ds.total + min maxKept reports.length⟩ := by
  rw [extend, ofReports_eq, foldl_push h, take_append_take, List.length_take]

/-- **The reports of two passes**, where those of the second are added to those of the first. The
reports that are kept are those of a single pass that makes all of them, the first of them all; and the
count is that of a single pass if and only if the second pass kept all its reports. -/
theorem reports_of_two_passes (first second : List Diagnostic) :
    let added := (ofReports first).extend (ofReports second)
    let together := ofReports (first ++ second)
    added.kept = together.kept ∧ together.kept = (first ++ second).take maxKept ∧
      added.total = first.length + min maxKept second.length ∧
      together.total = first.length + second.length ∧
      (added = together ↔ second.length ≤ maxKept) := by
  intro added together
  have hroom : (ofReports first).kept.length ≤ maxKept := by
    rw [ofReports_eq]
    exact List.length_take_le _ _
  have hadded : added = ⟨(first ++ second).take maxKept, first.length + min maxKept second.length⟩ := by
    rw [show added = _ from extend_ofReports hroom second, ofReports_eq, take_take_append]
  have htogether : together = ⟨(first ++ second).take maxKept, first.length + second.length⟩ := by
    rw [show together = _ from ofReports_eq _, List.length_append]
  rw [hadded, htogether]
  refine ⟨rfl, rfl, rfl, rfl, ?_⟩
  rw [mk.injEq, and_iff_right rfl]
  omega

/-- A report by the lexer and twenty-one by the parser are counted as twenty-one. -/
theorem extend_ofReports_twentyOne :
    let report := Diagnostic.make "R.a" .unexpectedToken "unexpected" (.point 1 1) "x"
    let added := (ofReports [report]).extend (ofReports (List.replicate 21 report))
    let together := ofReports ([report] ++ List.replicate 21 report)
    added.total = 21 ∧ together.total = 22 ∧ added ≠ together :=
  ⟨rfl, rfl, fun h => absurd (congrArg total h) (by decide)⟩

end Diagnostics

end ParseActions
