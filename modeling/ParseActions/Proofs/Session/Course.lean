import ParseActions.Session.Command

/-!
# Courses of sessions

A host gives commands to a session, and lets time pass. What every act keeps holds after every
course of acts.

## Main definitions

* `Session.Act`: what can be done with a session, `Session.Act.perform`: the session after it
* `Session.after`: the session after some acts

## Main results

* `Session.after_invariant`: what each act keeps, a course of acts keeps
* `Session.exists_act_of_run`: a command that a host gives with texts is an act
-/

namespace ParseActions.Session

/-- What can be done with a session. -/
inductive Act where
  | configure (config : Config)
  | request (delay : Nat)
  | advance (now : Nat)
  | loadTrace (t : Trace)
  | loadText (text : String)
  | addAction (name : String) (kind : ActionKind)
  | selectAction (name : String)
  | deselectAction
  | stage (rule : String) (source : ActionSource)
  | saveAction (id : TraceId) (text : String) (overrides : List (Option String))
  | zoomIn (id : TraceId)
  | zoomOut (id : TraceId)
  | toggleZoom (id : TraceId)
  | enterPreview (id : TraceId)
  | leavePreview
  | exitZoom
  | refresh
  | tick (now : Nat)

/-- The session after an act. -/
def Act.perform (s : Session) : Act → Session
  | configure config => s.configure config
  | request delay => s.request delay
  | advance now => s.advance now
  | loadTrace t => s.loadTrace t
  | loadText text => (s.loadText text).2
  | addAction name kind => (s.addAction name kind).2
  | selectAction name => (s.selectAction name).2
  | deselectAction => s.deselectAction
  | stage rule source => s.stage rule source
  | saveAction id text overrides => (s.saveAction id text overrides).2
  | zoomIn id => (s.zoomIn id).2
  | zoomOut id => (s.zoomOut id).2
  | toggleZoom id => (s.toggleZoom id).2
  | enterPreview id => s.enterPreview id
  | leavePreview => s.leavePreview
  | exitZoom => s.exitZoom
  | refresh => s.refresh.2
  | tick now => (s.tick now).2

/-- The session after some acts, one after the other. -/
def after (s : Session) (acts : List Act) : Session :=
  acts.foldl Act.perform s

theorem after_concat (s : Session) (acts : List Act) (act : Act) :
    s.after (acts ++ [act]) = act.perform (s.after acts) :=
  List.foldl_append

/-- **What each act keeps**, a course of acts keeps. -/
theorem after_invariant {P : Session → Prop} {s : Session} {acts : List Act} (hs : P s)
    (hperform : ∀ s, ∀ act ∈ acts, P s → P (act.perform s)) : P (s.after acts) := by
  induction acts generalizing s with
  | nil => exact hs
  | cons act acts ih =>
    have hnext : P (act.perform s) := hperform s act List.mem_cons_self hs
    apply ih hnext
    intro s' act' hact'
    exact hperform s' act' (List.mem_cons_of_mem _ hact')

/-- **A command of a host** is an act, or changes nothing. Traces come as texts from a host, so that
they are checked. -/
theorem exists_act_of_run (s : Session) (command : Command) :
    (command.run s).2 = s ∨
      ∃ act : Act, (∀ t, act ≠ .loadTrace t) ∧ (command.run s).2 = act.perform s := by
  cases command with
  | version => exact .inl rfl
  | actionSource rule => exact .inl rfl
  | signature id => exact .inl rfl
  | loadTrace text => exact .inr ⟨.loadText text, nofun, rfl⟩
  | selectAction name => exact .inr ⟨.selectAction name, nofun, rfl⟩
  | toggleZoom id => exact .inr ⟨.toggleZoom id, nofun, rfl⟩
  | zoomIn id => exact .inr ⟨.zoomIn id, nofun, rfl⟩
  | zoomOut id => exact .inr ⟨.zoomOut id, nofun, rfl⟩
  | enterPreview id => exact .inr ⟨.enterPreview id, nofun, rfl⟩
  | leavePreview => exact .inr ⟨.leavePreview, nofun, rfl⟩
  | exitZoom => exact .inr ⟨.exitZoom, nofun, rfl⟩
  | addAction name kind =>
    -- a word that is no kind is refused before the session is asked
    cases hkind : ActionKind.ofName? kind with
    | none =>
      refine .inl ?_
      simp only [Command.run, addActionNamed, hkind]
    | some kind' =>
      refine .inr ⟨.addAction name kind', nofun, ?_⟩
      simp only [Command.run, addActionNamed, hkind, Act.perform]
  | saveAction id text overrides =>
    cases hgiven : overridesOfText? overrides with
    | none =>
      refine .inl ?_
      simp only [Command.run, saveActionText, hgiven]
    | some given =>
      refine .inr ⟨.saveAction id text given, nofun, ?_⟩
      simp only [Command.run, saveActionText, hgiven, Act.perform]

end ParseActions.Session
