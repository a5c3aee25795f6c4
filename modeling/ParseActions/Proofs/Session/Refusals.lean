import ParseActions.Proofs.Keyed
import ParseActions.Proofs.Session.Saving
import ParseActions.Proofs.Trace.Validity

/-!
# Refused commands

A command that is refused leaves the session as it was. Only a text that cannot be read as an action
leaves a mark: the editor of its rule is emptied, and its node is the one that was edited last.

## Main results

* `Session.unchanged_of_refused`: what a refused command leaves
-/

namespace ParseActions.Session

variable {s s' : Session} {e : SessionError}

theorem eq_of_loadText_error {text : String} (h : s.loadText text = (.error e, s')) : s' = s := by
  rw [loadText] at h
  split at h
  · exact (Prod.mk.inj h).2.symm
  · cases (Prod.mk.inj h).1

theorem eq_of_addAction_error {name : String} {kind : ActionKind}
    (h : s.addAction name kind = (.error e, s')) : s' = s := by
  rw [addAction] at h
  split at h
  · exact (Prod.mk.inj h).2.symm
  · cases (Prod.mk.inj h).1

theorem eq_of_selectAction_error {name : String} (h : s.selectAction name = (.error e, s')) :
    s' = s := by
  rw [selectAction] at h
  split at h
  · exact (Prod.mk.inj h).2.symm
  · cases (Prod.mk.inj h).1

/-- A save is refused before a place is found for it, or when its text is rejected there. -/
theorem saveAction_error {id : TraceId} {text : String} {overrides : List (Option String)}
    (h : s.saveAction id text overrides = (.error e, s')) :
    (s' = s ∧ ∀ c, e ≠ .compile c) ∨
      ∃ c place, e = .compile c ∧ s.Places id place ∧ s' = s.editedAt place := by
  rcases s.saveAction_cases id text overrides with ⟨e', hplacing, hsame⟩ | ⟨place, hplaces, hsaving⟩
  · obtain ⟨he, rfl⟩ := Prod.mk.inj (hsame.symm.trans h)
    obtain rfl : e' = e := Except.error.inj he
    refine .inl ⟨rfl, ?_⟩
    -- nothing is compiled as long as there is no place
    rintro c rfl
    cases hplacing
  · rw [h] at hsaving
    cases hsaving with
    | rejected _ => exact .inr ⟨_, place, rfl, hplaces, rfl⟩

/-- **A refused command leaves the session as it was.** Only when a text is rejected, the editor of
the rule at the step, and no other one, is emptied, and the node of the step under the active action
is the one that was edited last. -/
theorem unchanged_of_refused (s : Session) :
    (∀ text e s', s.loadText text = (.error e, s') → s' = s) ∧
    (∀ name kind e s', s.addAction name kind = (.error e, s') → s' = s) ∧
    (∀ name e s', s.selectAction name = (.error e, s') → s' = s) ∧
    ∀ id text overrides e s', s.saveAction id text overrides = (.error e, s') →
      (s' = s ∧ ∀ c, e ≠ .compile c) ∨
        ∃ c place, e = .compile c ∧ s.Places id place ∧
          s' = { s with
            edits := Keyed.erase place.rule s.edits
            lastEdited := some (.of place.node place.action.name) } ∧
          ∀ rule, Keyed.find? rule s'.edits =
            if rule = place.rule then none else Keyed.find? rule s.edits := by
  refine ⟨?_, ?_, ?_, ?_⟩
  · intro text e s' h
    exact eq_of_loadText_error h
  · intro name kind e s' h
    exact eq_of_addAction_error h
  · intro name e s' h
    exact eq_of_selectAction_error h
  · intro id text overrides e s' h
    rcases saveAction_error h with hsame | ⟨c, place, he, hplaces, rfl⟩
    · exact .inl hsame
    · refine .inr ⟨c, place, he, hplaces, rfl, ?_⟩
      intro rule
      exact Keyed.find?_erase place.rule rule s.edits

/-- A session with an action that has no bodies yet, in which the editors of two rules are in
use. -/
def draftSample : Session where
  config := .standard
  trace := some .sample
  registry := ⟨[.new "show" .operation], some 0⟩
  navigation := some (.start ⟨0⟩)
  scheduler := .start
  memo := .empty
  edits := [("Twice", ⟨["one"], "one"⟩), ("letter", .empty)]
  lastEdited := none
  now := 0

/-- A text that is no trace, a blank name and an unknown one. The match of `Twice` has one argument,
and two are given. -/
theorem unchanged_of_refused_sample :
    (draftSample.loadText "").2 = draftSample ∧
    (draftSample.addAction " " .operation).2 = draftSample ∧
    (draftSample.selectAction "other").2 = draftSample ∧
    ∃ c place, (draftSample.saveAction ⟨0⟩ "one" [none, none]).1 = .error (.compile c) ∧
      draftSample.Places ⟨0⟩ place ∧
      (draftSample.saveAction ⟨0⟩ "one" [none, none]).2 = { draftSample with
        edits := [("letter", .empty)]
        lastEdited := some (.of place.node place.action.name) } := by
  obtain ⟨hload, hadd, hselect, hsave⟩ := unchanged_of_refused draftSample
  have htext : (draftSample.loadText "").1 = .error (.trace .unreadable) := rfl
  have hname : (draftSample.addAction " " .operation).1 = .error (.invalidActionName "") := rfl
  have hother : (draftSample.selectAction "other").1 = .error (.unknownAction "other") := rfl
  obtain ⟨c, hc⟩ : ∃ c, (draftSample.saveAction ⟨0⟩ "one" [none, none]).1 = .error (.compile c) :=
    ⟨_, rfl⟩
  refine ⟨hload _ _ _ (Prod.ext htext rfl), hadd _ _ _ _ (Prod.ext hname rfl),
    hselect _ _ _ (Prod.ext hother rfl), ?_⟩
  have hrefused : draftSample.saveAction ⟨0⟩ "one" [none, none] =
    (.error (.compile c), (draftSample.saveAction ⟨0⟩ "one" [none, none]).2) := Prod.ext hc rfl
  have hedits : (draftSample.saveAction ⟨0⟩ "one" [none, none]).2.edits = [("letter", .empty)] :=
    rfl
  generalize (draftSample.saveAction ⟨0⟩ "one" [none, none]).2 = s' at hrefused hedits ⊢
  rcases hsave _ _ _ _ _ hrefused with ⟨-, hnot⟩ | ⟨_, place, -, hplaces, rfl, -⟩
  · exact absurd rfl (hnot c)
  · refine ⟨c, place, hc, hplaces, ?_⟩
    rw [← hedits]

end ParseActions.Session
