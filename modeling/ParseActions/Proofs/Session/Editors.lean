import ParseActions.Proofs.Keyed
import ParseActions.Proofs.Session.Course
import ParseActions.Proofs.Session.Registry
import ParseActions.Proofs.Session.Saving

/-!
# What acts do to actions and editors

Most acts keep the actions and what their editors hold. An action that becomes active finds its
editors empty, and only writing into an editor and saving an action changes what they hold.

## Main definitions

* `Session.Kept`: the trace, the actions and what the editors hold are kept
* `Session.Turn`: what an act does to actions and editors

## Main results

* `Session.turn`: the cases of an act
* `Session.orderly_after`: the actions are known by their names after every course of acts
-/

namespace ParseActions.Session

variable {s s' : Session} {act : Act}

/-! ## What is kept -/

/-- The trace, the actions and what their editors hold are kept. -/
structure Kept (s s' : Session) : Prop where
  trace : s'.trace = s.trace
  registry : s'.registry = s.registry
  edits : s'.edits = s.edits

theorem Kept.refl (s : Session) : s.Kept s :=
  ⟨rfl, rfl, rfl⟩

theorem kept_move (s : Session) (step : Navigation → Bool × Navigation) :
    s.Kept (s.move step).2 := by
  rw [move]
  split
  · exact ⟨rfl, rfl, rfl⟩
  · exact .refl s

theorem kept_navigate (s : Session) (step : Navigation → Navigation) (ms : Nat) :
    s.Kept (s.navigate step ms) := by
  rw [navigate]
  split
  · exact .refl s
  · exact ⟨rfl, rfl, rfl⟩

theorem kept_zoomIn (s : Session) (id : TraceId) : s.Kept (s.zoomIn id).2 := by
  rw [zoomIn]
  split
  · exact s.kept_move _
  · exact .refl s

theorem kept_refresh (s : Session) : s.Kept s.refresh.2 := by
  rw [refresh]
  split <;> exact ⟨rfl, rfl, rfl⟩

theorem kept_tick (s : Session) (now : Nat) : s.Kept (s.tick now).2 := by
  rw [tick]
  split
  · exact ⟨rfl, rfl, rfl⟩
  · next scheduler _ =>
    obtain ⟨htrace, hregistry, hedits⟩ := kept_refresh { s.advance now with scheduler := scheduler }
    exact ⟨htrace, hregistry, hedits⟩

/-- An act is none on traces, actions or editors. -/
def Act.Quiet : Act → Prop
  | loadTrace _ | loadText _ | addAction _ _ | selectAction _ | deselectAction | stage _ _ |
    saveAction _ _ _ => False
  | _ => True

/-- **Settings, requests, navigation and walks** keep the trace, the actions and the editors. -/
theorem kept_perform (s : Session) (hquiet : act.Quiet) : s.Kept (act.perform s) := by
  cases act with
  | configure _ | request _ | advance _ => exact ⟨rfl, rfl, rfl⟩
  | zoomIn id => exact s.kept_zoomIn id
  | zoomOut id => exact s.kept_move _
  | toggleZoom id =>
    rw [Act.perform, toggleZoom]
    split
    · exact s.kept_move _
    · exact s.kept_zoomIn id
  | enterPreview id =>
    rw [Act.perform, enterPreview]
    split
    · exact s.kept_navigate _ _
    · exact .refl s
  | leavePreview | exitZoom => exact s.kept_navigate _ _
  | refresh => exact s.kept_refresh
  | tick now => exact s.kept_tick now
  | _ => exact hquiet.elim

/-! ## The cases of an act -/

/-- What an act does to actions and editors. -/
inductive Turn (s : Session) : Act → Session → Prop where
  /-- The actions and the editors are kept. -/
  | kept {act : Act} {s' : Session} (hregistry : s'.registry = s.registry)
    (hedits : s'.edits = s.edits) : Turn s act s'
  /-- An action is added, and its editors are empty. -/
  | added {name : String} {kind : ActionKind} {s' : Session}
    (hadd : s.registry.add name kind = .ok s'.registry) (hedits : s'.edits = []) :
    Turn s (.addAction name kind) s'
  /-- An action becomes active, and its editors are empty. -/
  | selected {name : String} {s' : Session}
    (htoggle : s.registry.toggle name = .ok (true, s'.registry)) (hedits : s'.edits = []) :
    Turn s (.selectAction name) s'
  /-- No action is active any more. -/
  | deselected {act : Act} {s' : Session} (hregistry : s'.registry = s.registry.deselect)
    (hedits : s'.edits = s.edits) : Turn s act s'
  /-- An editor is written into. -/
  | staged {rule : String} {source : ActionSource} :
    Turn s (.stage rule source) (s.stage rule source)
  /-- An action is saved. -/
  | saved {id : TraceId} {place : SavePlace} {text : String} {overrides : List (Option String)}
    {s' : Session} (hplaces : s.Places id place)
    (hsaving : s.Saving place text overrides (s.saveAction id text overrides).1 s') :
    Turn s (.saveAction id text overrides) s'

/-- **The cases of an act.** -/
theorem turn (s : Session) (act : Act) : s.Turn act (act.perform s) := by
  have hkept {act : Act} (hquiet : act.Quiet) : s.Turn act (act.perform s) :=
    .kept (s.kept_perform hquiet).registry (s.kept_perform hquiet).edits
  cases act with
  | loadTrace t => exact .kept rfl rfl
  | loadText text =>
    refine .kept ?_ ?_
    all_goals
      rw [Act.perform, loadText]
      split <;> rfl
  | addAction name kind =>
    rw [Act.perform, addAction]
    split
    · exact .kept rfl rfl
    · next registry hadd => exact .added hadd rfl
  | selectAction name =>
    rw [Act.perform, selectAction]
    split
    · exact .kept rfl rfl
    · next active registry htoggle =>
      cases active with
      | true => exact .selected htoggle rfl
      | false => exact .deselected (Registry.toggle_eq_ok_false htoggle) rfl
  | deselectAction => exact .deselected rfl rfl
  | stage rule source => exact .staged
  | saveAction id text overrides =>
    rcases s.saveAction_cases id text overrides with ⟨e, -, hsame⟩ | ⟨place, hplaces, hsaving⟩
    · rw [Act.perform, hsame]
      exact .kept rfl rfl
    · exact .saved hplaces hsaving
  | _ => exact hkept trivial

/-! ## Names -/

/-- A save leaves the same action active. -/
theorem Saving.activeName? {place : SavePlace} {text : String} {overrides : List (Option String)}
    {result : Except SessionError SaveOutcome} (h : s.Saving place text overrides result s') :
    s'.registry.activeName? = s.registry.activeName? := by
  cases h with
  | uninstalled _ => exact Registry.activeName?_modifyActive _ fun _ => rfl
  | installed _ => exact Registry.activeName?_modifyActive _ fun _ => rfl
  | unchanged _ | rejected _ => rfl

theorem Saving.orderly {place : SavePlace} {text : String} {overrides : List (Option String)}
    {result : Except SessionError SaveOutcome} (h : s.Saving place text overrides result s')
    (hs : s.registry.Orderly) : s'.registry.Orderly := by
  cases h with
  | uninstalled _ => exact hs.modifyActive fun _ => rfl
  | installed _ => exact hs.modifyActive fun _ => rfl
  | unchanged _ | rejected _ => exact hs

theorem Turn.orderly (h : s.Turn act s') (hs : s.registry.Orderly) : s'.registry.Orderly := by
  cases h with
  | kept hregistry _ =>
    rw [hregistry]
    exact hs
  | added hadd _ => exact hs.add hadd
  | selected htoggle _ => exact hs.toggle htoggle
  | deselected hregistry _ =>
    rw [hregistry]
    exact hs.deselect
  | staged => exact hs
  | saved _ hsaving => exact hsaving.orderly hs

/-- **The actions are known by their names** after every course of acts. -/
theorem orderly_after (config : Config) (acts : List Act) :
    ((start config).after acts).registry.Orderly := by
  apply after_invariant (P := fun s => s.registry.Orderly) Registry.Orderly.empty
  intro s act _ hs
  exact (s.turn act).orderly hs

end ParseActions.Session
