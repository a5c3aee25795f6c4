import ParseActions.Proofs.Session.Course
import ParseActions.Proofs.Session.Navigation
import ParseActions.Proofs.Session.Registry
import ParseActions.Proofs.Session.Saving
import ParseActions.Proofs.Walk.Requests

/-!
# The invariant of sessions

What a session refers to is there. Navigation is within the trace that is loaded, the active action
is one of the actions, and the node that was edited last is one of the trace. So walks and saves
find every node that they look for.

## Main definitions

* `Session.WellFormed`: the invariant

## Main results

* `Session.WellFormed.perform`, `Session.WellFormed.run`: every act, and every command of a host,
  keeps the invariant
* `Session.wellFormed_after`: it holds after every course of acts, and what walks and saves look
  for is found
-/

namespace ParseActions

namespace Trace

/-- A trace that is read from a text has no fault. -/
theorem validate_of_ofText {text : String} {t : Trace} (h : ofText text = .ok t) :
    t.validate = .ok () := by
  rw [ofText] at h
  split at h
  · cases h
  · rw [ofJson] at h
    split at h
    · cases h
    · obtain ⟨hvalid, rfl⟩ := validated_eq_ok.mp h
      exact hvalid

end Trace

namespace Walk

variable {w : Walk}

/-- A panel forgets the node that was edited last, or leaves it. -/
theorem lastEdited_panel (id : TraceId) (node : TraceNode) (s : State) :
    (w.panel id node s).2.lastEdited = s.lastEdited ∨ (w.panel id node s).2.lastEdited = none := by
  have hpaneled := w.paneled id node s
  generalize (w.panel id node s).1 = panel at hpaneled
  generalize (w.panel id node s).2 = s' at hpaneled ⊢
  cases hpaneled with
  | bare => exact .inl rfl
  | drawn _ _ _ =>
    simp only [rulePanel]
    split
    · exact .inr rfl
    · exact .inl rfl

/-- **A walk forgets the node that was edited last, or leaves it.** -/
theorem lastEdited_run (focus : TraceId) (lastEdited : Option NodeKey) :
    (w.run focus lastEdited).lastEdited = lastEdited ∨
      (w.run focus lastEdited).lastEdited = none := by
  refine Trace.walk_invariant (v := w.visitor)
    (P := fun s => s.lastEdited = lastEdited ∨ s.lastEdited = none) ?_ (fun _ _ hs => hs) focus
    (.inl rfl)
  intro visit s hs
  simp only [visitor]
  split
  · exact hs
  · next node _ =>
    split
    · exact hs
    -- drawing the step changes no more of this than its panel does
    · show (w.panel visit.node node s).2.lastEdited = lastEdited ∨
        (w.panel visit.node node s).2.lastEdited = none
      rcases w.lastEdited_panel visit.node node s with hkept | hforgotten
      · rw [hkept]
        exact hs
      · exact .inr hforgotten

end Walk

namespace Session

variable {s s' : Session} {t : Trace}

/-- The key is that of a node of the syntax tree under one of the actions, which is the active
action if there is one. -/
def Edited (s : Session) (key : NodeKey) : Prop :=
  ∃ t id node action, s.trace = some t ∧ t.cstNode? id = some node ∧
    action ∈ s.registry.actions ∧ key = .of node action.name ∧
    ∀ active, s.registry.active? = some active → active = action

/-- What a session refers to is there. -/
structure WellFormed (s : Session) : Prop where
  /-- There is a navigation exactly when there is a trace. -/
  navigation : s.navigation.isSome = s.trace.isSome
  valid : ∀ t, s.trace = some t → t.validate = .ok ()
  within : ∀ t n, s.trace = some t → s.navigation = some n → n.Within t
  registry : s.registry.Orderly
  lastEdited : ∀ key, s.lastEdited = some key → s.Edited key

namespace WellFormed

theorem start (config : Config) : WellFormed (start config) where
  navigation := rfl
  valid _ ht := nomatch ht
  within _ _ ht := nomatch ht
  registry := .empty
  lastEdited _ hkey := nomatch hkey

/-! ## What the invariant depends on -/

/-- Changing the actions, when the node that was edited last is forgotten or still is one. -/
theorem of_registry (h : s.WellFormed) (htrace : s'.trace = s.trace)
    (hnavigation : s'.navigation = s.navigation) (hregistry : s'.registry.Orderly)
    (hedited : ∀ key, s'.lastEdited = some key → s'.Edited key) : s'.WellFormed where
  navigation := by rw [hnavigation, htrace, h.navigation]
  valid t ht := h.valid t (htrace ▸ ht)
  within t n ht hn := h.within t n (htrace ▸ ht) (hnavigation ▸ hn)
  registry := hregistry
  lastEdited := hedited

/-- The invariant is one of the trace, the actions, the navigation and the node that was edited
last, which may be forgotten. -/
theorem of_same (h : s.WellFormed) (htrace : s'.trace = s.trace)
    (hregistry : s'.registry = s.registry) (hnavigation : s'.navigation = s.navigation)
    (hedited : s'.lastEdited = s.lastEdited ∨ s'.lastEdited = none) : s'.WellFormed := by
  refine h.of_registry htrace hnavigation (hregistry ▸ h.registry) ?_
  intro key hkey
  rcases hedited with hkept | hforgotten
  · rw [hkept] at hkey
    simpa only [Edited, htrace, hregistry] using h.lastEdited key hkey
  · rw [hforgotten] at hkey
    cases hkey

theorem request (h : s.WellFormed) (delay : Nat) : (s.request delay).WellFormed :=
  h.of_same rfl rfl rfl (.inl rfl)

theorem configure (h : s.WellFormed) (config : Config) : (s.configure config).WellFormed :=
  h.of_same rfl rfl rfl (.inl rfl)

theorem advance (h : s.WellFormed) (now : Nat) : (s.advance now).WellFormed :=
  h.of_same rfl rfl rfl (.inl rfl)

theorem stage (h : s.WellFormed) (rule : String) (source : ActionSource) :
    (s.stage rule source).WellFormed :=
  h.of_same rfl rfl rfl (.inl rfl)

/-! ## Traces -/

/-- **Loading a trace** without faults. -/
theorem loadTrace (h : s.WellFormed) (ht : t.validate = .ok ()) : (s.loadTrace t).WellFormed where
  navigation := rfl
  valid t' ht' := by
    obtain rfl : t = t' := Option.some.inj ht'
    exact ht
  within t' n ht' hn := by
    obtain rfl : t = t' := Option.some.inj ht'
    obtain rfl : .start t.root = n := Option.some.inj hn
    obtain ⟨-, ⟨node, hroot⟩, -⟩ := Trace.validate_eq_ok.mp ht
    exact .start hroot
  registry := h.registry
  lastEdited _ hkey := nomatch hkey

theorem loadText (h : s.WellFormed) (text : String) : (s.loadText text).2.WellFormed := by
  rw [Session.loadText]
  split
  · exact h
  · next t ht => exact h.loadTrace (Trace.validate_of_ofText ht)

/-! ## Actions -/

/-- Where no action is active, the node that was edited last stays one under an action that was
there before. -/
theorem edited_of_inactive (h : s.WellFormed) (htrace : s'.trace = s.trace)
    (hactions : s'.registry.actions = s.registry.actions) (hactive : s'.registry.activeIndex = none)
    (hedited : s'.lastEdited = s.lastEdited) (key : NodeKey) (hkey : s'.lastEdited = some key) :
    s'.Edited key := by
  obtain ⟨t, id, node, action, ht, hnode, haction, hof, -⟩ :=
    h.lastEdited key (by rw [← hedited, hkey])
  refine ⟨t, id, node, action, htrace.trans ht, hnode, hactions ▸ haction, hof, ?_⟩
  intro active hsome
  rw [Registry.active?, hactive] at hsome
  cases hsome

/-- **Adding an action.** -/
theorem addAction (h : s.WellFormed) (name : String) (kind : ActionKind) :
    (s.addAction name kind).2.WellFormed := by
  rw [Session.addAction]
  split
  · exact h
  · next registry hadd =>
    exact h.of_registry rfl rfl (h.registry.add hadd) (fun _ hkey => nomatch hkey)

/-- **Selecting an action.** -/
theorem selectAction (h : s.WellFormed) (name : String) :
    (s.selectAction name).2.WellFormed := by
  rw [Session.selectAction]
  split
  · exact h
  · next active registry htoggle =>
    have horderly := h.registry.toggle htoggle
    obtain ⟨hactive, hactions, -⟩ := Registry.toggle_eq_ok htoggle
    -- the editors are emptied for an action that becomes active, and kept when none is active
    cases active with
    | true => exact h.of_registry rfl rfl horderly (fun _ hkey => nomatch hkey)
    | false =>
      have hnone : registry.activeIndex = none := by simpa using hactive.symm
      exact h.of_registry rfl rfl horderly (h.edited_of_inactive rfl hactions hnone rfl)

theorem deselectAction (h : s.WellFormed) : s.deselectAction.WellFormed :=
  h.of_registry rfl rfl h.registry.deselect (h.edited_of_inactive rfl rfl rfl rfl)

/-- The node that a save is for is one of the trace, under the action that is active afterwards. -/
theorem edited_of_places {id : TraceId} {place : SavePlace} {action : Action}
    (hplaces : s.Places id place) (htrace : s'.trace = s.trace)
    (haction : s'.registry.active? = some action) (hname : action.name = place.action.name) :
    s'.Edited (.of place.node place.action.name) := by
  obtain ⟨t, -, cst, ht, -, -, -, htree⟩ := hplaces.step
  refine ⟨t, cst, place.node, action, htrace.trans ht, htree, Registry.mem_of_active? haction,
    by rw [hname], ?_⟩
  intro active hactive
  exact Option.some.inj (hactive.symm.trans haction)

/-- A save at a place keeps the action there under its name, whatever it does with its bodies. -/
theorem of_saving (h : s.WellFormed) {id : TraceId} {place : SavePlace} {text : String}
    {overrides : List (Option String)} {result : Except SessionError SaveOutcome}
    (hplaces : s.Places id place) (hsaving : s.Saving place text overrides result s') :
    s'.WellFormed := by
  have hchanged (f : Action → Action) :
      (s.registry.modifyActive f).active? = some (f place.action) := by
    rw [Registry.active?_modifyActive, hplaces.action]
    rfl
  cases hsaving with
  | uninstalled _ =>
    refine h.of_registry rfl rfl (h.registry.modifyActive fun _ => rfl) ?_
    rintro key ⟨⟩
    exact edited_of_places hplaces rfl (hchanged (·.uninstall place.rule)) rfl
  | installed _ =>
    refine h.of_registry rfl rfl (h.registry.modifyActive fun _ => rfl) ?_
    rintro key ⟨⟩
    exact edited_of_places hplaces rfl (hchanged (·.install _)) rfl
  | unchanged _ | rejected _ =>
    refine h.of_registry rfl rfl h.registry ?_
    rintro key ⟨⟩
    exact edited_of_places hplaces rfl hplaces.action rfl

/-- **Saving an action.** -/
theorem saveAction (h : s.WellFormed) (id : TraceId) (text : String)
    (overrides : List (Option String)) : (s.saveAction id text overrides).2.WellFormed := by
  rcases s.saveAction_cases id text overrides with ⟨e, -, hsame⟩ | ⟨place, hplaces, hsaving⟩
  · rw [hsame]
    exact h
  · exact h.of_saving hplaces hsaving

/-! ## Navigation -/

/-- Changing what is shown, within the trace. -/
theorem of_navigation (h : s.WellFormed) {n : Navigation} {delay : Nat}
    (hsome : s.navigation.isSome) (hn : ∀ t, s.trace = some t → n.Within t) :
    (Session.request { s with navigation := some n } delay).WellFormed where
  navigation := by
    show (some n).isSome = s.trace.isSome
    rw [← h.navigation, hsome, Option.isSome_some]
  valid := h.valid
  within t n' ht hn' := by
    obtain rfl : n = n' := Option.some.inj hn'
    exact hn t ht
  registry := h.registry
  lastEdited := h.lastEdited

/-- A move that stays within the trace. -/
theorem move (h : s.WellFormed) {step : Navigation → Bool × Navigation}
    (hstep : ∀ t n, s.trace = some t → n.Within t → (step n).2.Within t) :
    (s.move step).2.WellFormed := by
  rw [Session.move]
  split
  · next n' hmoved =>
    obtain ⟨n, hn, hn'⟩ := Option.map_eq_some_iff.mp hmoved
    refine h.of_navigation (by rw [hn]; rfl) ?_
    intro t ht
    have hwithin := hstep t n ht (h.within t n ht hn)
    rwa [hn'] at hwithin
  · exact h

/-- A change of what is shown that stays within the trace. -/
theorem navigate (h : s.WellFormed) {step : Navigation → Navigation} {ms : Nat}
    (hstep : ∀ t n, s.trace = some t → n.Within t → (step n).Within t) :
    (s.navigate step ms).WellFormed := by
  rw [Session.navigate]
  split
  · exact h
  · next n hn =>
    refine h.of_navigation (by rw [hn]; rfl) ?_
    intro t ht
    exact hstep t n ht (h.within t n ht hn)

/-- A step of the session is one of the trace that is loaded. -/
theorem exists_of_hasNode {id : TraceId} (hid : s.hasNode id = true) (ht : s.trace = some t) :
    ∃ node, t.node? id = some node := by
  rw [hasNode, ht] at hid
  exact Option.isSome_iff_exists.mp hid

theorem zoomIn (h : s.WellFormed) (id : TraceId) : (s.zoomIn id).2.WellFormed := by
  rw [Session.zoomIn]
  split
  · next hid =>
    apply h.move
    intro t n ht hn
    obtain ⟨node, hnode⟩ := exists_of_hasNode hid ht
    exact hn.zoomIn hnode
  · exact h

theorem zoomOut (h : s.WellFormed) (id : TraceId) : (s.zoomOut id).2.WellFormed :=
  h.move fun _ _ _ hn => hn.zoomOut id

theorem toggleZoom (h : s.WellFormed) (id : TraceId) : (s.toggleZoom id).2.WellFormed := by
  rw [Session.toggleZoom]
  split
  · exact h.zoomOut id
  · exact h.zoomIn id

theorem enterPreview (h : s.WellFormed) (id : TraceId) : (s.enterPreview id).WellFormed := by
  rw [Session.enterPreview]
  split
  · next hid =>
    apply h.navigate
    intro t n ht hn
    obtain ⟨node, hnode⟩ := exists_of_hasNode hid ht
    exact hn.enterPreview hnode
  · exact h

theorem leavePreview (h : s.WellFormed) : s.leavePreview.WellFormed :=
  h.navigate fun _ _ _ hn => hn.leavePreview

theorem exitZoom (h : s.WellFormed) : s.exitZoom.WellFormed :=
  h.navigate fun _ _ _ hn => hn.reset

/-! ## Walks -/

/-- **A walk** changes nothing that is referred to, but may forget the node that was edited last. -/
theorem refresh (h : s.WellFormed) : s.refresh.2.WellFormed := by
  rw [Session.refresh]
  split
  · exact h.of_same rfl rfl rfl (.inl rfl)
  · exact h.of_same rfl rfl rfl (Walk.lastEdited_run _ _)

theorem tick (h : s.WellFormed) (now : Nat) : (s.tick now).2.WellFormed := by
  rw [Session.tick]
  split
  · exact h.advance now
  · next scheduler _ =>
    have hnext : WellFormed { s.advance now with scheduler := scheduler } :=
      (h.advance now).of_same rfl rfl rfl (.inl rfl)
    exact hnext.refresh

/-- **Every act keeps the invariant**; a trace that is taken must have no fault. -/
theorem perform (h : s.WellFormed) (act : Act)
    (hload : ∀ t, act = .loadTrace t → t.validate = .ok ()) : (act.perform s).WellFormed := by
  cases act with
  | configure config => exact h.configure config
  | request delay => exact h.request delay
  | advance now => exact h.advance now
  | loadTrace t => exact h.loadTrace (hload t rfl)
  | loadText text => exact h.loadText text
  | addAction name kind => exact h.addAction name kind
  | selectAction name => exact h.selectAction name
  | deselectAction => exact h.deselectAction
  | stage rule source => exact h.stage rule source
  | saveAction id text overrides => exact h.saveAction id text overrides
  | zoomIn id => exact h.zoomIn id
  | zoomOut id => exact h.zoomOut id
  | toggleZoom id => exact h.toggleZoom id
  | enterPreview id => exact h.enterPreview id
  | leavePreview => exact h.leavePreview
  | exitZoom => exact h.exitZoom
  | refresh => exact h.refresh
  | tick now => exact h.tick now

/-- Every command of a host keeps the invariant. -/
theorem run (h : s.WellFormed) (command : Command) : (command.run s).2.WellFormed := by
  rcases exists_act_of_run s command with hsame | ⟨act, hload, hact⟩
  · rw [hsame]
    exact h
  · rw [hact]
    apply h.perform
    intro t ht
    exact absurd ht (hload t)

/-! ## What is looked for -/

/-- What is shown is a step of the trace. -/
theorem exists_focus (h : s.WellFormed) (ht : s.trace = some t) :
    ∃ node, t.node? (s.focus t) = some node := by
  have hsome : s.navigation.isSome := by rw [h.navigation, ht, Option.isSome_some]
  obtain ⟨n, hn⟩ := Option.isSome_iff_exists.mp hsome
  rw [Session.focus, hn]
  exact (h.within t n ht hn).focus

/-- A walk enters steps of the trace alone. -/
theorem exists_of_entered (h : s.WellFormed) (ht : s.trace = some t) {visit : Visit}
    (hvisit : visit ∈ (s.walkOf t).entered (s.focus t) s.lastEdited) :
    ∃ node, t.node? visit.node = some node :=
  (Trace.valid_of_validate (h.valid t ht)).exists_of_entered _ _ _ visit hvisit

/-- What steps refer to is in the syntax tree. -/
theorem exists_of_cst (h : s.WellFormed) (ht : s.trace = some t) {id : TraceId} {node : TraceNode}
    {cst : CstId} (hnode : t.node? id = some node) (hcst : node.cst = some cst) :
    ∃ tree, t.cstNode? cst = some tree := by
  have hlinked := (Trace.valid_of_validate (h.valid t ht)).linked node (Array.mem_of_getElem? hnode)
  exact ⟨_, Array.getElem?_eq_getElem (hlinked cst hcst)⟩

/-- A save is refused for want of a rule only where a step applies none, or made no node. -/
theorem notARule_of_saveAction (h : s.WellFormed) {id refused : TraceId} {text : String}
    {overrides : List (Option String)}
    (hrefused : s.saveAction id text overrides = (.error (.notARule refused), s')) :
    ∃ t node, s.trace = some t ∧ t.node? id = some node ∧
      (node.rule? = none ∨ node.cst = none) := by
  rcases s.saveAction_cases id text overrides with ⟨e, hplacing, hsame⟩ | ⟨place, -, hsaving⟩
  · obtain ⟨he, -⟩ := Prod.mk.inj (hsame.symm.trans hrefused)
    rw [Except.error.inj he] at hplacing
    cases hplacing with
    | notARule ht hnode hrule =>
      refine ⟨_, _, ht, hnode, hrule.imp_right ?_⟩
      -- a node that the step refers to is there, so there is none that it refers to
      intro hbind
      cases hcst : TraceNode.cst _ with
      | none => rfl
      | some cst =>
        obtain ⟨tree, htree⟩ := h.exists_of_cst ht hnode hcst
        rw [hcst, Option.bind_some, htree] at hbind
        cases hbind
  -- a save at a place is refused for nothing but what is wrong with the text
  · rw [hrefused] at hsaving
    cases hsaving

end WellFormed

/-- **The invariant of sessions** holds after every course of acts in which the traces that are
taken have no faults. So a walk begins at a step that is there, and enters only steps that are there
and whose nodes are in the syntax tree; and a save looks for no node that is not there. -/
theorem wellFormed_after (config : Config) {acts : List Act}
    (hload : ∀ t, .loadTrace t ∈ acts → t.validate = .ok ()) :
    let s := (Session.start config).after acts
    s.WellFormed ∧
      (∀ t, s.trace = some t →
        (∃ node, t.node? (s.focus t) = some node) ∧
          ∀ visit ∈ (s.walkOf t).entered (s.focus t) s.lastEdited,
            ∃ node, t.node? visit.node = some node ∧
              ∀ cst, node.cst = some cst → ∃ tree, t.cstNode? cst = some tree) ∧
      ∀ id text overrides refused s',
        s.saveAction id text overrides = (.error (.notARule refused), s') →
          ∃ t node, s.trace = some t ∧ t.node? id = some node ∧
            (node.rule? = none ∨ node.cst = none) := by
  intro s
  have h : s.WellFormed := by
    apply after_invariant (WellFormed.start config)
    intro s act hact hs
    apply hs.perform
    rintro t rfl
    exact hload t hact
  refine ⟨h, ?_, ?_⟩
  · intro t ht
    refine ⟨h.exists_focus ht, ?_⟩
    intro visit hvisit
    obtain ⟨node, hnode⟩ := h.exists_of_entered ht hvisit
    exact ⟨node, hnode, fun cst hcst => h.exists_of_cst ht hnode hcst⟩
  · intro id text overrides refused s' hrefused
    exact h.notARule_of_saveAction hrefused

theorem wellFormed_after_sample :
    let acts : List Act := [.loadTrace .sample, .addAction " show " .operation, .zoomIn ⟨1⟩,
      .saveAction ⟨0⟩ "one" [none, none], .enterPreview ⟨0⟩]
    let s := (Session.start .standard).after acts
    (∀ t, Act.loadTrace t ∈ acts → t.validate = .ok ()) ∧ s.WellFormed ∧
      s.registry.names = ["show"] ∧ s.navigation = some ⟨⟨0⟩, [⟨1⟩], some ⟨0⟩⟩ ∧
      s.lastEdited = some ⟨"Twice", 0, 1, "show"⟩ := by
  intro acts s
  have hload : ∀ t, Act.loadTrace t ∈ acts → t.validate = .ok () := by
    intro t ht
    obtain rfl : t = .sample := by simpa [acts] using ht
    exact Trace.validate_sample
  refine ⟨hload, (wellFormed_after .standard hload).1, ?_, ?_, ?_⟩
  · rfl
  · rfl
  · rfl

end Session

end ParseActions
