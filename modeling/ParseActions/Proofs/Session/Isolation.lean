import ParseActions.Proofs.Session.Editors

/-!
# Isolation of actions

What is done under other actions, or while none is active, does not show under an action. Two
sessions are the same for an action when they differ in no more than the bodies of other actions,
and in what the editors hold while it is not active. Acts keep them so, and edits that are made
while it is not active may be left out.

## Main definitions

* `Registry.SameFor`, `Session.SameFor`: the same for an action
* `Session.purge`: a course of acts without the edits that are made while an action is not active

## Main results

* `Session.SameFor.perform`: acts keep sessions the same for an action
* `Session.SameFor.edit`: so does an edit in one of them while the action is not active
* `Session.sameFor_purge`: leaving such edits out of a course of acts
-/

namespace ParseActions

namespace Registry

variable {r r₁ r₂ : Registry} {name : String} {kind : ActionKind} {f : Action → Action}

/-- Two registries are the same for an action: they differ in no more than the kinds and bodies of
other actions. -/
structure SameFor (name : String) (r₁ r₂ : Registry) : Prop where
  names : r₁.names = r₂.names
  activeIndex : r₁.activeIndex = r₂.activeIndex
  own : ∀ (i : Nat) (a : Action), a.name = name →
    (r₁.actions[i]? = some a ↔ r₂.actions[i]? = some a)

namespace SameFor

theorem refl (name : String) (r : Registry) : SameFor name r r :=
  ⟨rfl, rfl, fun _ _ _ => Iff.rfl⟩

theorem symm (h : SameFor name r₁ r₂) : SameFor name r₂ r₁ :=
  ⟨h.names.symm, h.activeIndex.symm, fun i a ha => (h.own i a ha).symm⟩

theorem length_actions (h : SameFor name r₁ r₂) : r₁.actions.length = r₂.actions.length := by
  simpa only [Registry.names, List.length_map] using congrArg List.length h.names

theorem activeName? (h : SameFor name r₁ r₂) : r₁.activeName? = r₂.activeName? := by
  rw [activeName?_eq, activeName?_eq, h.activeIndex, h.names]

/-- The action is active in both registries, or in none. -/
theorem active? (h : SameFor name r₁ r₂) {a : Action} (ha : a.name = name)
    (hactive : r₁.active? = some a) : r₂.active? = some a := by
  obtain ⟨i, hindex, hi⟩ := Option.bind_eq_some_iff.mp hactive
  exact Option.bind_eq_some_iff.mpr ⟨i, h.activeIndex ▸ hindex, (h.own i a ha).mp hi⟩

/-- **Adding an action** to both. -/
theorem add (h : SameFor name r₁ r₂) (new : String) (kind : ActionKind) :
    (∃ e, r₁.add new kind = .error e ∧ r₂.add new kind = .error e) ∨
      ∃ r₁' r₂', r₁.add new kind = .ok r₁' ∧ r₂.add new kind = .ok r₂' ∧
        SameFor name r₁' r₂' := by
  have hposition : r₁.position? (Text.trim new) = r₂.position? (Text.trim new) := by
    rw [position?_eq, position?_eq, h.names]
  simp only [Registry.add, hposition]
  split
  · exact .inl ⟨_, rfl, rfl⟩
  · split
    · exact .inl ⟨_, rfl, rfl⟩
    · refine .inr ⟨_, _, rfl, rfl, ?_, ?_, ?_⟩
      · rw [Registry.names, Registry.names, List.map_append, List.map_append]
        exact congrArg (· ++ [Text.trim new]) h.names
      · rw [h.length_actions]
      · intro i a ha
        simp only [List.getElem?_append, h.length_actions]
        split
        · exact h.own i a ha
        · exact Iff.rfl

/-- **A toggle** of both. -/
theorem toggle (h : SameFor name r₁ r₂) (other : String) :
    (∃ e, r₁.toggle other = .error e ∧ r₂.toggle other = .error e) ∨
      ∃ active r₁' r₂', r₁.toggle other = .ok (active, r₁') ∧
        r₂.toggle other = .ok (active, r₂') ∧ SameFor name r₁' r₂' := by
  have hposition : r₁.position? other = r₂.position? other := by
    rw [position?_eq, position?_eq, h.names]
  simp only [Registry.toggle, hposition, h.activeIndex]
  split
  · exact .inl ⟨_, rfl, rfl⟩
  · split
    · exact .inr ⟨_, _, _, rfl, rfl, h.names, rfl, h.own⟩
    · exact .inr ⟨_, _, _, rfl, rfl, h.names, rfl, h.own⟩

theorem deselect (h : SameFor name r₁ r₂) : SameFor name r₁.deselect r₂.deselect :=
  ⟨h.names, rfl, h.own⟩

/-- **Changing the active action** of both. -/
theorem modifyActive (h : SameFor name r₁ r₂) (hf : ∀ a, (f a).name = a.name) :
    SameFor name (r₁.modifyActive f) (r₂.modifyActive f) := by
  refine ⟨?_, ?_, ?_⟩
  · rw [names_modifyActive _ hf, names_modifyActive _ hf, h.names]
  · rw [activeIndex_modifyActive, activeIndex_modifyActive, h.activeIndex]
  · intro i a ha
    rw [getElem?_modifyActive, getElem?_modifyActive, h.activeIndex]
    split
    · rw [Option.map_eq_some_iff, Option.map_eq_some_iff]
      apply exists_congr
      intro b
      -- what is changed into an action of the name has the name
      apply and_congr_left
      rintro rfl
      exact h.own i b ((hf b).symm.trans ha)
    · exact h.own i a ha

/-- **Changing another action** in one of them. -/
theorem modifyActive_left (h : SameFor name r₁ r₂) (hf : ∀ a, (f a).name = a.name)
    (hother : r₁.activeName? ≠ some name) : SameFor name (r₁.modifyActive f) r₂ := by
  refine ⟨?_, ?_, ?_⟩
  · rw [names_modifyActive _ hf, h.names]
  · rw [activeIndex_modifyActive, h.activeIndex]
  · intro i a ha
    rw [getElem?_modifyActive]
    split
    · next hindex =>
      -- the action that is changed has another name, and so has what it is changed into
      have hnot (b : Action) (hb : r₁.actions[i]? = some b) : b.name ≠ name := by
        rintro rfl
        apply hother
        rw [Registry.activeName?, Registry.active?, hindex, Option.bind_some, hb, Option.map_some]
      constructor
      · intro hchanged
        obtain ⟨b, hb, rfl⟩ := Option.map_eq_some_iff.mp hchanged
        exact absurd ((hf b).symm.trans ha) (hnot b hb)
      · intro hsame
        exact absurd ha (hnot a ((h.own i a ha).mpr hsame))
    · exact h.own i a ha

end SameFor

end Registry

namespace Session

variable {s s₁ s₂ s₁' s₂' : Session} {name : String} {act : Act}

/-- Two sessions are the same for an action: they have the same trace, differ in no more than the
kinds and bodies of other actions, and the editors hold the same while it is active. -/
structure SameFor (name : String) (s₁ s₂ : Session) : Prop where
  trace : s₁.trace = s₂.trace
  registry : Registry.SameFor name s₁.registry s₂.registry
  edits : s₁.registry.activeName? = some name → s₁.edits = s₂.edits

/-- An act is an edit: it writes into an editor, or saves. -/
def Act.isEdit : Act → Bool
  | stage _ _ | saveAction _ _ _ => true
  | _ => false

/-- A course of acts without the edits that are made while an action is not active. -/
def purge (name : String) : Session → List Act → List Act
  | _, [] => []
  | s, act :: acts =>
    if act.isEdit ∧ s.registry.activeName? ≠ some name then purge name (act.perform s) acts
    else act :: purge name (act.perform s) acts

namespace SameFor

theorem refl (name : String) (s : Session) : SameFor name s s :=
  ⟨rfl, .refl name s.registry, fun _ => rfl⟩

theorem symm (h : SameFor name s₁ s₂) : SameFor name s₂ s₁ where
  trace := h.trace.symm
  registry := h.registry.symm
  edits hactive := (h.edits (h.registry.activeName?.trans hactive)).symm

/-- The relation is one of the trace, the actions and the editors. -/
theorem of_kept (h : SameFor name s₁ s₂) (h₁ : s₁.Kept s₁') (h₂ : s₂.Kept s₂') :
    SameFor name s₁' s₂' where
  trace := by rw [h₁.trace, h₂.trace, h.trace]
  registry := by
    rw [h₁.registry, h₂.registry]
    exact h.registry
  edits hactive := by
    rw [h₁.registry] at hactive
    rw [h₁.edits, h₂.edits, h.edits hactive]

/-- The action of the name is active in both sessions, or in none. -/
theorem active? (h : SameFor name s₁ s₂) (hactive : s₁.registry.activeName? = some name) :
    s₁.registry.active? = s₂.registry.active? := by
  obtain ⟨a, ha, hname⟩ := Option.map_eq_some_iff.mp hactive
  rw [ha, h.registry.active? hname ha]

/-- The editors hold the same while the action is active. -/
theorem actionSource (h : SameFor name s₁ s₂) (hactive : s₁.registry.activeName? = some name)
    (rule : String) : s₁.actionSource rule = s₂.actionSource rule := by
  rw [Session.actionSource, Session.actionSource, h.edits hactive, h.active? hactive]

/-! ## Acts on both -/

theorem addAction (h : SameFor name s₁ s₂) (new : String) (kind : ActionKind) :
    SameFor name (s₁.addAction new kind).2 (s₂.addAction new kind).2 := by
  rw [Session.addAction, Session.addAction]
  rcases h.registry.add new kind with ⟨e, h₁, h₂⟩ | ⟨r₁, r₂, h₁, h₂, hregistry⟩
  · simp only [h₁, h₂]
    exact h
  · simp only [h₁, h₂]
    exact ⟨h.trace, hregistry, fun _ => rfl⟩

theorem selectAction (h : SameFor name s₁ s₂) (other : String) :
    SameFor name (s₁.selectAction other).2 (s₂.selectAction other).2 := by
  rw [Session.selectAction, Session.selectAction]
  rcases h.registry.toggle other with ⟨e, h₁, h₂⟩ | ⟨active, r₁, r₂, h₁, h₂, hregistry⟩
  · simp only [h₁, h₂]
    exact h
  · simp only [h₁, h₂]
    cases active with
    | true => exact ⟨h.trace, hregistry, fun _ => rfl⟩
    | false =>
      refine ⟨h.trace, hregistry, ?_⟩
      intro hactive
      -- no action is active after the toggle
      rw [Registry.toggle_eq_ok_false h₁] at hactive
      cases hactive

/-- **Saving an action** while the action of the name is active. -/
theorem saveAction (h : SameFor name s₁ s₂) (hactive : s₁.registry.activeName? = some name)
    (id : TraceId) (text : String) (overrides : List (Option String)) :
    SameFor name (s₁.saveAction id text overrides).2 (s₂.saveAction id text overrides).2 := by
  have hplace : s₁.savePlace id = s₂.savePlace id := by
    rw [savePlace, savePlace, h.trace, h.active? hactive]
  have hedits : s₁.edits = s₂.edits := h.edits hactive
  rw [Session.saveAction, Session.saveAction, hplace]
  cases s₂.savePlace id with
  | error e => exact h
  | ok place =>
    simp only [saveAt]
    split
    · refine ⟨h.trace, h.registry.modifyActive fun _ => rfl, fun _ => ?_⟩
      exact congrArg (Keyed.erase place.rule) hedits
    · split
      · exact ⟨h.trace, h.registry, fun _ => congrArg (Keyed.erase place.rule) hedits⟩
      · exact ⟨h.trace, h.registry, fun _ => congrArg (Keyed.erase place.rule) hedits⟩
      · next a _ =>
        refine ⟨h.trace, h.registry.modifyActive fun _ => rfl, fun _ => ?_⟩
        exact congrArg (Keyed.insert place.rule a.source) hedits

/-! ## Edits in one of them -/

/-- **An edit while the action is not active** may be made in one of the sessions alone. -/
theorem edit (h : SameFor name s₁ s₂) (hedit : act.isEdit = true)
    (hinactive : s₁.registry.activeName? ≠ some name) : SameFor name (act.perform s₁) s₂ := by
  cases act with
  | stage rule source => exact ⟨h.trace, h.registry, fun hactive => absurd hactive hinactive⟩
  | saveAction id text overrides =>
    rw [Act.perform]
    rcases s₁.saveAction_cases id text overrides with ⟨e, -, hsame⟩ | ⟨place, -, hsaving⟩
    · rw [hsame]
      exact h
    · generalize (s₁.saveAction id text overrides).1 = result at hsaving
      generalize (s₁.saveAction id text overrides).2 = s₁' at hsaving ⊢
      have hnot : s₁'.registry.activeName? ≠ some name := by
        rw [hsaving.activeName?]
        exact hinactive
      refine ⟨?_, ?_, fun hactive => absurd hactive hnot⟩
      · cases hsaving <;> exact h.trace
      · cases hsaving with
        | uninstalled _ => exact h.registry.modifyActive_left (fun _ => rfl) hinactive
        | installed _ => exact h.registry.modifyActive_left (fun _ => rfl) hinactive
        | unchanged _ | rejected _ => exact h.registry
  | _ => cases hedit

/-- **Acts keep sessions the same** for an action. -/
theorem perform (h : SameFor name s₁ s₂) (act : Act) :
    SameFor name (act.perform s₁) (act.perform s₂) := by
  have hkept {act : Act} (hquiet : act.Quiet) : SameFor name (act.perform s₁) (act.perform s₂) :=
    h.of_kept (s₁.kept_perform hquiet) (s₂.kept_perform hquiet)
  -- an edit while the action is not active is one in each of the sessions
  have hinactive {act : Act} (hedit : act.isEdit = true)
      (hnot : s₁.registry.activeName? ≠ some name) :
      SameFor name (act.perform s₁) (act.perform s₂) := by
    have hnot' : s₂.registry.activeName? ≠ some name := by
      rw [← h.registry.activeName?]
      exact hnot
    exact ((h.edit hedit hnot).symm.edit hedit hnot').symm
  cases act with
  | loadTrace t => exact ⟨rfl, h.registry, h.edits⟩
  | loadText text =>
    rw [Act.perform, Act.perform, loadText, loadText]
    cases Trace.ofText text with
    | error e => exact h
    | ok t => exact ⟨rfl, h.registry, h.edits⟩
  | addAction new kind => exact h.addAction new kind
  | selectAction other => exact h.selectAction other
  | deselectAction => exact ⟨h.trace, h.registry.deselect, fun hactive => by cases hactive⟩
  | stage rule source =>
    by_cases hactive : s₁.registry.activeName? = some name
    · exact ⟨h.trace, h.registry, fun _ => congrArg (Keyed.insert rule source) (h.edits hactive)⟩
    · exact hinactive rfl hactive
  | saveAction id text overrides =>
    by_cases hactive : s₁.registry.activeName? = some name
    · exact h.saveAction hactive id text overrides
    · exact hinactive rfl hactive
  | _ => exact hkept trivial

end SameFor

/-- **Edits that are made while an action is not active** may be left out of a course of acts. -/
theorem sameFor_purge (h : SameFor name s₁ s₂) (acts : List Act) :
    SameFor name (s₁.after acts) (s₂.after (purge name s₁ acts)) := by
  induction acts generalizing s₁ s₂ with
  | nil => exact h
  | cons act acts ih =>
    rw [purge]
    split
    · next hedit => exact ih (h.edit hedit.1 hedit.2)
    · exact ih (h.perform act)

end Session

end ParseActions
