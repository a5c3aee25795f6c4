import ParseActions.Session.Basic

/-!
# Saving actions

An action is saved at a step that applies a rule and has a node of the syntax tree, while an action
is active. What a save does from there on is one of four things: the action for the rule is removed,
left as it is, replaced, or rejected.

## Main definitions

* `Session.Places`: the place of a step, `Session.Placing`: what comes of looking for it
* `Session.Saving`: what a save at a place does

## Main results

* `Session.saveAction_cases`: what comes of saving an action for a step
-/

namespace ParseActions.Session

/-! ## Places -/

/-- An action for a step is saved at a place: the step applies the rule, has the node, and the
action of the place is active. -/
structure Places (s : Session) (id : TraceId) (place : SavePlace) : Prop where
  step : ∃ t node cst, s.trace = some t ∧ t.node? id = some node ∧ node.rule? = some place.rule ∧
    node.cst = some cst ∧ t.cstNode? cst = some place.node
  action : s.registry.active? = some place.action

/-- What comes of looking for the place of a step. -/
inductive Placing (s : Session) (id : TraceId) : Except SessionError SavePlace → Prop where
  | noTrace (htrace : s.trace = none) : Placing s id (.error .noTrace)
  | unknownNode {t : Trace} (htrace : s.trace = some t) (hnode : t.node? id = none) :
    Placing s id (.error (.unknownNode id))
  | notARule {t : Trace} {node : TraceNode} (htrace : s.trace = some t)
    (hnode : t.node? id = some node)
    (hrule : node.rule? = none ∨ node.cst.bind t.cstNode? = none) :
    Placing s id (.error (.notARule id))
  | noActiveAction (haction : s.registry.active? = none) : Placing s id (.error .noActiveAction)
  | ok {place : SavePlace} (hplaces : s.Places id place) : Placing s id (.ok place)

/-- **Looking for the place of a step.** -/
theorem placing (s : Session) (id : TraceId) : s.Placing id (s.savePlace id) := by
  rw [savePlace]
  cases htrace : s.trace with
  | none => exact .noTrace htrace
  | some t =>
    cases hnode : t.node? id with
    | none =>
      simp only [hnode]
      exact .unknownNode htrace hnode
    | some node =>
      simp only [hnode]
      cases hrule : node.rule? with
      | none => exact .notARule htrace hnode (.inl hrule)
      | some rule =>
        cases hcst : node.cst.bind t.cstNode? with
        | none => exact .notARule htrace hnode (.inr hcst)
        | some cstNode =>
          obtain ⟨cst, hlink, htree⟩ := Option.bind_eq_some_iff.mp hcst
          cases haction : s.registry.active? with
          | none => exact .noActiveAction haction
          | some action => exact .ok ⟨⟨t, node, cst, htrace, hnode, hrule, hlink, htree⟩, haction⟩

/-- A place that is found is that of the step. -/
theorem places_of_savePlace {s : Session} {id : TraceId} {place : SavePlace}
    (h : s.savePlace id = .ok place) : s.Places id place := by
  have hplacing := s.placing id
  rw [h] at hplacing
  cases hplacing with
  | ok hplaces => exact hplaces

/-! ## Saves -/

/-- The session when the action at a place is the one that was edited last, and its editor was
emptied. -/
def editedAt (s : Session) (place : SavePlace) : Session :=
  { s with
    edits := Keyed.erase place.rule s.edits
    lastEdited := some (.of place.node place.action.name) }

/-- What a save at a place does: a blank text removes the action for the rule; other texts are
those of the action that is installed, or of one that replaces it, or are rejected. -/
inductive Saving (s : Session) (place : SavePlace) (text : String)
    (overrides : List (Option String)) : Except SessionError SaveOutcome → Session → Prop where
  | uninstalled (hblank : (Text.trimChars text.toList).isEmpty) :
    Saving s place text overrides (.ok .uninstalled)
      ({ s.editedAt place with
        registry := s.registry.modifyActive (·.uninstall place.rule) }.requestAfter
        s.config.saveDelay)
  | unchanged (hcompile : place.compile text overrides = .ok none) :
    Saving s place text overrides (.ok .unchanged) (s.editedAt place)
  | installed {a : RuleAction} (hcompile : place.compile text overrides = .ok (some a)) :
    Saving s place text overrides (.ok .installed)
      ({ s.editedAt place with
        registry := s.registry.modifyActive (·.install a)
        edits := Keyed.insert place.rule a.source s.edits }.requestAfter s.config.saveDelay)
  | rejected {e : CompileError} (hcompile : place.compile text overrides = .error e) :
    Saving s place text overrides (.error (.compile e)) (s.editedAt place)

/-- **A save at a place.** -/
theorem saving (s : Session) (place : SavePlace) (text : String)
    (overrides : List (Option String)) :
    s.Saving place text overrides (s.saveAt place text overrides).1
      (s.saveAt place text overrides).2 := by
  rw [saveAt]
  split
  · next hblank => exact .uninstalled hblank
  · split
    · next e hcompile => exact .rejected hcompile
    · next hcompile => exact .unchanged hcompile
    · next a hcompile => exact .installed hcompile

/-- A step with a place is saved for at the place. -/
theorem saveAction_of_savePlace {s : Session} {id : TraceId} {place : SavePlace}
    (h : s.savePlace id = .ok place) (text : String) (overrides : List (Option String)) :
    s.saveAction id text overrides = s.saveAt place text overrides := by
  rw [saveAction, h]

/-- **Saving an action for a step**: there is no place for it and nothing changes, or it is a save
at the place of the step. -/
theorem saveAction_cases (s : Session) (id : TraceId) (text : String)
    (overrides : List (Option String)) :
    (∃ e, s.Placing id (.error e) ∧ s.saveAction id text overrides = (.error e, s)) ∨
      ∃ place, s.Places id place ∧
        s.Saving place text overrides (s.saveAction id text overrides).1
          (s.saveAction id text overrides).2 := by
  cases hplace : s.savePlace id with
  | error e => exact .inl ⟨e, hplace ▸ s.placing id, by rw [saveAction, hplace]⟩
  | ok place =>
    rw [saveAction_of_savePlace hplace]
    exact .inr ⟨place, places_of_savePlace hplace, s.saving place text overrides⟩

end ParseActions.Session
