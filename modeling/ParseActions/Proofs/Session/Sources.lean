import ParseActions.Proofs.Action.Readings
import ParseActions.Proofs.Action.Source
import ParseActions.Proofs.Keyed
import ParseActions.Proofs.Session.Editors
import ParseActions.Proofs.Trace.Validity

/-!
# Sources that are saved

After a save the editor of the rule shows what is installed: the names and the text that were saved,
what was installed before when they are rejected, or nothing when the action for the rule was
removed. A save of what is installed already is told by fingerprints, and they are right as long as
no two encodings that are compared have one digest.

## Main definitions

* `Session.installed?`: the body for a rule that is installed in the active action
* `Session.Named`: the names of the arguments of installed bodies have the shape of identifiers
* `Session.Installs`: what is installed after a save

## Main results

* `Session.named_after`: installed bodies have passed the check of their names
* `Session.actionSource_saveAction`: what the editors show after a save
-/

namespace ParseActions

namespace Action

theorem body?_install_self (action : Action) (a : RuleAction) :
    (action.install a).body? a.rule = some a :=
  Keyed.find?_insert_self a.rule a action.bodies

theorem body?_install_of_ne {action : Action} {a : RuleAction} {rule : String} (h : rule ≠ a.rule) :
    (action.install a).body? rule = action.body? rule :=
  Keyed.find?_insert_of_ne h a action.bodies

theorem body?_uninstall_self (action : Action) (rule : String) :
    (action.uninstall rule).body? rule = none :=
  Keyed.find?_erase_self rule action.bodies

theorem body?_uninstall_of_ne {action : Action} {rule other : String} (h : other ≠ rule) :
    (action.uninstall rule).body? other = action.body? other :=
  Keyed.find?_erase_of_ne h action.bodies

end Action

namespace Registry

variable {r : Registry} {f : Action → Action} {a : Action}

/-- The actions are those there were, but for the active one. -/
theorem mem_actions_modifyActive (h : a ∈ (r.modifyActive f).actions) :
    a ∈ r.actions ∨ ∃ b, r.active? = some b ∧ a = f b := by
  obtain ⟨i, hi⟩ := List.mem_iff_getElem?.mp h
  rw [getElem?_modifyActive] at hi
  split at hi
  · next hindex =>
    obtain ⟨b, hb, rfl⟩ := Option.map_eq_some_iff.mp hi
    refine .inr ⟨b, ?_, rfl⟩
    rw [active?, hindex, Option.bind_some, hb]
  · exact .inl (List.mem_of_getElem? hi)

end Registry

namespace Session

variable {s s' : Session} {place : SavePlace} {text : String} {overrides : List (Option String)}

/-- **A text that is accepted** is found by its fingerprint to be the one that is installed, or is
compiled. -/
theorem SavePlace.compile_eq_ok {result : Option RuleAction}
    (h : place.compile text overrides = .ok result) :
    ∃ args, Arguments.resolve place.action.name place.rule place.names overrides = .ok args ∧
      ((result = none ∧ ∃ a, place.action.body? place.rule = some a ∧
          a.fingerprint = ActionSource.fingerprint ⟨args, text⟩) ∨
        ∃ a, result = some a ∧
          RuleAction.compile place.action.name place.rule args text = .ok a) := by
  simp only [SavePlace.compile] at h
  cases hargs : Arguments.resolve place.action.name place.rule place.names overrides with
  | error e =>
    rw [hargs] at h
    cases h
  | ok args =>
    rw [hargs] at h
    refine ⟨args, rfl, ?_⟩
    by_cases hsame : (place.action.body? place.rule).any
        (fun a => a.fingerprint = ActionSource.fingerprint ⟨args, text⟩) = true
    · obtain ⟨a, ha, hfingerprint⟩ := (Option.any_eq_true _ _).mp hsame
      have hresult : Except.ok none = Except.ok result := (if_pos hsame).symm.trans h
      exact .inl ⟨(Except.ok.inj hresult).symm, a, ha, decide_eq_true_eq.mp hfingerprint⟩
    · have hcompile := (if_neg hsame).symm.trans h
      cases hbody : RuleAction.compile place.action.name place.rule args text with
      | error e =>
        rw [hbody] at hcompile
        cases hcompile
      | ok a =>
        rw [hbody] at hcompile
        exact .inr ⟨a, (Except.ok.inj hcompile).symm, rfl⟩

/-! ## What is installed -/

/-- The body for a rule that is installed in the active action. -/
def installed? (s : Session) (rule : String) : Option RuleAction :=
  s.registry.active?.bind (·.body? rule)

/-- An editor shows what it holds, or else what is installed. -/
theorem actionSource_eq (s : Session) (rule : String) :
    s.actionSource rule =
      ((Keyed.find? rule s.edits).or ((s.installed? rule).map RuleAction.source)).getD .empty := by
  rw [actionSource, installed?, Option.map_bind]
  rfl

/-- The names of the arguments of installed bodies have the shape of identifiers. -/
def Named (s : Session) : Prop :=
  ∀ action ∈ s.registry.actions, ∀ rule a, (rule, a) ∈ action.bodies → Arguments.Named a.source.args

/-- A body that is installed is one of an action. -/
theorem Named.of_installed? (h : s.Named) {rule : String} {a : RuleAction}
    (ha : s.installed? rule = some a) : Arguments.Named a.source.args := by
  obtain ⟨action, haction, hbody⟩ := Option.bind_eq_some_iff.mp ha
  exact h action (Registry.mem_of_active? haction) rule a (Keyed.mem_of_find? hbody)

/-- **A save** installs a body whose names are in order, or none. -/
theorem Saving.named {result : Except SessionError SaveOutcome}
    (h : s.Saving place text overrides result s') (hs : s.Named) : s'.Named := by
  cases h with
  | unchanged _ | rejected _ => exact hs
  | uninstalled _ =>
    intro action haction rule a ha
    rcases Registry.mem_actions_modifyActive haction with hold | ⟨b, hb, rfl⟩
    · exact hs action hold rule a ha
    · exact hs b (Registry.mem_of_active? hb) rule a (List.mem_of_mem_filter ha)
  | installed hcompile =>
    intro action haction rule a ha
    rcases Registry.mem_actions_modifyActive haction with hold | ⟨b, hb, rfl⟩
    · exact hs action hold rule a ha
    · rcases Keyed.mem_insert ha with hnew | hold
      · obtain ⟨-, rfl⟩ := Prod.mk.inj hnew
        obtain ⟨args, -, ⟨hnone, -⟩ | ⟨_, hsome, hbody⟩⟩ := SavePlace.compile_eq_ok hcompile
        · cases hnone
        · obtain rfl := Option.some.inj hsome
          obtain ⟨hcheck, -, -, hsource⟩ := RuleAction.compile_eq_ok hbody
          rw [hsource]
          exact Arguments.named_of_check hcheck
      · exact hs b (Registry.mem_of_active? hb) rule a hold

theorem Turn.named {act : Act} (h : s.Turn act s') (hs : s.Named) : s'.Named := by
  cases h with
  | kept hregistry _ =>
    rw [Named, hregistry]
    exact hs
  | added hadd _ =>
    obtain ⟨-, -, hregistry⟩ := Registry.add_eq_ok hadd
    rw [Named, hregistry]
    intro action haction rule a ha
    rcases List.mem_append.mp haction with hold | hnew
    · exact hs action hold rule a ha
    -- an action that is added has no bodies
    · obtain rfl := List.mem_singleton.mp hnew
      cases ha
  | selected htoggle _ =>
    obtain ⟨-, hactions, -⟩ := Registry.toggle_eq_ok htoggle
    rw [Named, hactions]
    exact hs
  | deselected hregistry _ =>
    rw [Named, hregistry]
    exact hs
  | staged => exact hs
  | saved _ hsaving => exact hsaving.named hs

/-- **Installed bodies have passed the check of their names.** -/
theorem named_after (config : Config) (acts : List Act) : ((start config).after acts).Named := by
  apply after_invariant (P := Named)
  · intro action haction
    cases haction
  · intro s act _ hs
    exact (s.turn act).named hs

/-- A fingerprint tells whether a source with names that are in order is the one that is installed,
unless two messages have one digest. -/
theorem source_eq_of_fingerprint {a : RuleAction} {args : List String}
    (ha : Arguments.Named a.source.args) (hargs : Arguments.Named args)
    (hdigest :
      Sha256.digest a.source.encoding = Sha256.digest (ActionSource.encoding ⟨args, text⟩) →
      a.source.encoding = ActionSource.encoding ⟨args, text⟩)
    (h : a.fingerprint = ActionSource.fingerprint ⟨args, text⟩) : a.source = ⟨args, text⟩ := by
  have hencoding := hdigest (Fingerprint.mk.inj h)
  exact ActionSource.encoding_injOn ha hargs hencoding

/-! ## What a save shows -/

/-- A body that replaces what is installed is for the rule of the place, and keeps the names and the
text that were saved. -/
theorem exists_source_of_compile {a : RuleAction}
    (h : place.compile text overrides = .ok (some a)) :
    a.rule = place.rule ∧ ∃ args,
      Arguments.resolve place.action.name place.rule place.names overrides = .ok args ∧
        a.source = ⟨args, text⟩ := by
  obtain ⟨args, hargs, ⟨hnone, -⟩ | ⟨_, hsome, hbody⟩⟩ := SavePlace.compile_eq_ok h
  · cases hnone
  · obtain rfl := Option.some.inj hsome
    obtain ⟨-, hrule, -, hsource⟩ := RuleAction.compile_eq_ok hbody
    exact ⟨hrule, args, hargs, hsource⟩

theorem body?_install_of_compile {a : RuleAction}
    (h : place.compile text overrides = .ok (some a)) :
    (place.action.install a).body? place.rule = some a := by
  rw [← (exists_source_of_compile h).1]
  exact Action.body?_install_self place.action a

/-- What is installed after the active action was changed. -/
theorem installed?_of_modifyActive {f : Action → Action} {action : Action}
    (hregistry : s'.registry = s.registry.modifyActive f)
    (haction : s.registry.active? = some action) (rule : String) :
    s'.installed? rule = (f action).body? rule := by
  rw [installed?, hregistry, Registry.active?_modifyActive, haction]
  rfl

theorem installed?_eq {action : Action} (haction : s.registry.active? = some action)
    (rule : String) : s.installed? rule = action.body? rule := by
  rw [installed?, haction]
  rfl

/-- An editor that holds nothing shows what is installed. -/
theorem actionSource_of_find?_eq_none {rule : String} (h : Keyed.find? rule s.edits = none) :
    s.actionSource rule = ((s.installed? rule).map RuleAction.source).getD .empty := by
  rw [actionSource_eq, h]
  rfl

/-- **The editors of other rules** show after a save what they showed before it, and their bodies
are left. -/
theorem Saving.others {result : Except SessionError SaveOutcome}
    (h : s.Saving place text overrides result s')
    (haction : s.registry.active? = some place.action) {other : String}
    (hother : other ≠ place.rule) :
    s'.actionSource other = s.actionSource other ∧ s'.installed? other = s.installed? other := by
  have hedits : Keyed.find? other s'.edits = Keyed.find? other s.edits := by
    cases h with
    | uninstalled _ | unchanged _ | rejected _ => exact Keyed.find?_erase_of_ne hother s.edits
    | installed _ => exact Keyed.find?_insert_of_ne hother _ s.edits
  have hinstalled : s'.installed? other = s.installed? other := by
    cases h with
    | uninstalled _ =>
      rw [installed?_of_modifyActive (s := s) rfl haction, installed?_eq haction]
      exact Action.body?_uninstall_of_ne hother
    | installed hcompile =>
      rw [installed?_of_modifyActive (s := s) rfl haction, installed?_eq haction]
      apply Action.body?_install_of_ne
      rw [(exists_source_of_compile hcompile).1]
      exact hother
    | unchanged _ | rejected _ => rfl
  rw [actionSource_eq, actionSource_eq, hedits, hinstalled]
  exact ⟨rfl, rfl⟩

/-- What an editor holds is what it shows. -/
theorem actionSource_of_find?_eq_some {rule : String} {source : ActionSource}
    (h : Keyed.find? rule s.edits = some source) : s.actionSource rule = source := by
  rw [actionSource_eq, h]
  rfl

/-- **The editor of the rule** shows after a save what is installed. -/
theorem Saving.actionSource {result : Except SessionError SaveOutcome}
    (h : s.Saving place text overrides result s')
    (haction : s.registry.active? = some place.action) :
    s'.actionSource place.rule =
      ((s'.installed? place.rule).map RuleAction.source).getD .empty := by
  cases h with
  | uninstalled _ | unchanged _ | rejected _ =>
    exact actionSource_of_find?_eq_none (Keyed.find?_erase_self place.rule s.edits)
  | @installed a hcompile =>
    rw [installed?_of_modifyActive (s := s) rfl haction, body?_install_of_compile hcompile]
    exact actionSource_of_find?_eq_some (Keyed.find?_insert_self place.rule a.source s.edits)

/-- What is installed for the rule of a place after a save that ends in some way: what was saved,
nothing, or what was installed before. -/
def Installs (s s' : Session) (place : SavePlace) (text : String)
    (overrides : List (Option String)) : Except SessionError SaveOutcome → Prop
  | .ok .installed | .ok .unchanged =>
    ∃ args, Arguments.resolve place.action.name place.rule place.names overrides = .ok args ∧
      (s'.installed? place.rule).map RuleAction.source = some ⟨args, text⟩
  | .ok .uninstalled => s'.installed? place.rule = none
  | .error e => (∃ c, e = .compile c) ∧ s'.installed? place.rule = s.installed? place.rule

/-- **The body for the rule** after a save. A text is taken for the one that is installed by its
fingerprint, which is why the digests must not agree when the encodings differ. -/
theorem Saving.installs {result : Except SessionError SaveOutcome}
    (h : s.Saving place text overrides result s')
    (haction : s.registry.active? = some place.action) (hs : s.Named)
    (hdigest : ∀ a args, s.installed? place.rule = some a →
      Arguments.resolve place.action.name place.rule place.names overrides = .ok args →
      Sha256.digest a.source.encoding = Sha256.digest (ActionSource.encoding ⟨args, text⟩) →
        a.source.encoding = ActionSource.encoding ⟨args, text⟩) :
    s.Installs s' place text overrides result := by
  cases h with
  | uninstalled _ =>
    show Session.installed? _ place.rule = none
    rw [installed?_of_modifyActive (s := s) rfl haction]
    exact Action.body?_uninstall_self place.action place.rule
  | rejected _ => exact ⟨⟨_, rfl⟩, rfl⟩
  | unchanged hcompile =>
    obtain ⟨args, hargs, ⟨-, a, ha, hfingerprint⟩ | ⟨_, hsome, -⟩⟩ :=
      SavePlace.compile_eq_ok hcompile
    · have hinstalled : s.installed? place.rule = some a := (installed?_eq haction _).trans ha
      have hsource : a.source = ⟨args, text⟩ :=
        source_eq_of_fingerprint (hs.of_installed? hinstalled)
          (Arguments.named_of_check (Arguments.check_of_resolve hargs))
          (hdigest a args hinstalled hargs) hfingerprint
      refine ⟨args, hargs, ?_⟩
      show (s.installed? place.rule).map RuleAction.source = some ⟨args, text⟩
      rw [hinstalled, Option.map_some, hsource]
    · cases hsome
  | @installed a hcompile =>
    obtain ⟨-, args, hargs, hsource⟩ := exists_source_of_compile hcompile
    refine ⟨args, hargs, ?_⟩
    rw [installed?_of_modifyActive (s := s) rfl haction, body?_install_of_compile hcompile,
      Option.map_some, hsource]

/-- The place of a step that applies a rule and has a node of the syntax tree, while an action is
active. -/
theorem savePlace_eq_ok {t : Trace} {id : TraceId} {node : TraceNode} {rule : String} {cst : CstId}
    {tree : CstNode} {action : Action} (htrace : s.trace = some t) (hnode : t.node? id = some node)
    (hrule : node.rule? = some rule) (hcst : node.cst = some cst)
    (htree : t.cstNode? cst = some tree) (haction : s.registry.active? = some action) :
    s.savePlace id = .ok ⟨action, rule, tree,
      ((t.matchedBody? id).elim [] ParsingExpr.signature).map Parameter.name⟩ := by
  rw [savePlace]
  simp only [htrace, hnode, hrule, hcst, htree, haction, Option.bind_some]
  rfl

theorem saving_of_savePlace {id : TraceId} (hplace : s.savePlace id = .ok place) (text : String)
    (overrides : List (Option String)) :
    s.Saving place text overrides (s.saveAction id text overrides).1
      (s.saveAction id text overrides).2 := by
  rw [saveAction_of_savePlace hplace]
  exact s.saving place text overrides

/-- **A source that is saved can be shown again.** After a save for a step that applies a rule and
has a node of the syntax tree, while an action is active, the editor of the rule shows the names
that were resolved and the text that was given, when they are installed or were already; nothing,
when the body was removed; and what was installed before, when they are rejected. The editors and
the bodies of all other rules are left. Names and text are found to be those that are installed by
the digests of their encodings, which must not agree when the encodings differ. -/
theorem actionSource_saveAction (hs : ∃ config acts, s = (start config).after acts) (id : TraceId)
    (text : String) (overrides : List (Option String)) {t : Trace} {node : TraceNode}
    {rule : String} {cst : CstId} {tree : CstNode} {action : Action} (htrace : s.trace = some t)
    (hnode : t.node? id = some node) (hrule : node.rule? = some rule) (hcst : node.cst = some cst)
    (htree : t.cstNode? cst = some tree) (haction : s.registry.active? = some action)
    {names : List String}
    (hnames : names = ((t.matchedBody? id).elim [] ParsingExpr.signature).map Parameter.name)
    (hdigest : ∀ a args, s.installed? rule = some a →
      Arguments.resolve action.name rule names overrides = .ok args →
      Sha256.digest a.source.encoding = Sha256.digest (ActionSource.encoding ⟨args, text⟩) →
        a.source.encoding = ActionSource.encoding ⟨args, text⟩) :
    let s' := (s.saveAction id text overrides).2
    (match (s.saveAction id text overrides).1 with
      | .ok .installed | .ok .unchanged =>
        ∃ args, Arguments.resolve action.name rule names overrides = .ok args ∧
          s'.actionSource rule = ⟨args, text⟩
      | .ok .uninstalled => s'.actionSource rule = .empty ∧ s'.installed? rule = none
      | .error e => (∃ c, e = .compile c) ∧
        s'.actionSource rule = ((s.installed? rule).map RuleAction.source).getD .empty) ∧
    ∀ other, other ≠ rule →
      s'.actionSource other = s.actionSource other ∧ s'.installed? other = s.installed? other := by
  intro s'
  obtain ⟨config, acts, rfl⟩ := hs
  have hplace : ((start config).after acts).savePlace id = .ok ⟨action, rule, tree, names⟩ := by
    rw [hnames]
    exact savePlace_eq_ok htrace hnode hrule hcst htree haction
  have hsaving := saving_of_savePlace hplace text overrides
  have hshown := hsaving.actionSource haction
  have hinstalled := hsaving.installs haction (named_after config acts) hdigest
  refine ⟨?_, fun other hother => hsaving.others haction hother⟩
  generalize (((start config).after acts).saveAction id text overrides).1 = result at hinstalled ⊢
  match result, hinstalled with
  | .ok .installed, ⟨args, hargs, hsource⟩ | .ok .unchanged, ⟨args, hargs, hsource⟩ =>
    refine ⟨args, hargs, ?_⟩
    rw [hshown, hsource]
    rfl
  | .ok .uninstalled, hnone =>
    refine ⟨?_, hnone⟩
    rw [hshown, hnone]
    rfl
  | .error e, ⟨hcompile, hkept⟩ =>
    have hkept : s'.installed? rule = ((start config).after acts).installed? rule := hkept
    refine ⟨hcompile, ?_⟩
    rw [hshown, hkept]

/-- A text whose fingerprint is that of what is installed is not compiled. -/
theorem SavePlace.compile_of_fingerprint {args : List String} {a : RuleAction}
    (hargs : Arguments.resolve place.action.name place.rule place.names overrides = .ok args)
    (ha : place.action.body? place.rule = some a)
    (hsame : a.fingerprint = ActionSource.fingerprint ⟨args, text⟩) :
    place.compile text overrides = .ok none := by
  have hany : (place.action.body? place.rule).any
      (fun a => a.fingerprint = ActionSource.fingerprint ⟨args, text⟩) = true := by
    rw [ha, Option.any_some, decide_eq_true_eq, hsame]
  simp only [SavePlace.compile, hargs]
  exact if_pos hany

/-- A source that is installed is found again. -/
theorem SavePlace.compile_of_source {args : List String} {a : RuleAction}
    (hargs : Arguments.resolve place.action.name place.rule place.names overrides = .ok args)
    (ha : place.action.body? place.rule = some a) (hsource : a.source = ⟨args, text⟩) :
    place.compile text overrides = .ok none :=
  compile_of_fingerprint hargs ha (congrArg ActionSource.fingerprint hsource)

/-- A save of what is installed changes nothing. -/
theorem saveAction_of_compile_eq_none {id : TraceId} (hplace : s.savePlace id = .ok place)
    (htext : (Text.trimChars text.toList).isEmpty = false)
    (hcompile : place.compile text overrides = .ok none) :
    (s.saveAction id text overrides).1 = .ok .unchanged := by
  rw [saveAction_of_savePlace hplace]
  simp only [saveAt, htext, hcompile]
  rfl

/-- What is put into an editor is shown. -/
theorem actionSource_stage (s : Session) (rule : String) (source : ActionSource) :
    (s.stage rule source).actionSource rule = source :=
  actionSource_of_find?_eq_some (Keyed.find?_insert_self rule source s.edits)

/-- A body is installed, its editor is emptied, and the same text is saved again. -/
theorem actionSource_saveAction_sample :
    let s := (start .standard).after [.loadTrace .sample, .addAction "show" .operation,
      .saveAction ⟨0⟩ "x" [], .stage "Twice" .empty]
    s.actionSource "Twice" = .empty ∧ (s.saveAction ⟨0⟩ "x" []).1 = .ok .unchanged ∧
      (s.saveAction ⟨0⟩ "x" []).2.actionSource "Twice" = ⟨["letter"], "x"⟩ := by
  intro s
  have hreached : ∃ config acts, s = (start config).after acts := ⟨_, _, rfl⟩
  have htrace : s.trace = some .sample := rfl
  have hargs : Arguments.resolve "show" "Twice" ["letter"] [] = .ok ["letter"] := rfl
  let tree : CstNode := ⟨.nonterminal "Twice", ⟨0, 1⟩, [⟨1⟩, ⟨1⟩]⟩
  -- the first save installs the body
  let s₀ := (start .standard).after [.loadTrace .sample, .addAction "show" .operation]
  have hs : s = (s₀.saveAction ⟨0⟩ "x" []).2.stage "Twice" .empty := rfl
  have hplace₀ : s₀.savePlace ⟨0⟩ = .ok ⟨.new "show" .operation, "Twice", tree, ["letter"]⟩ := rfl
  have hsaving := saving_of_savePlace hplace₀ "x" []
  have hfirst : (s₀.saveAction ⟨0⟩ "x" []).1 = .ok .installed := rfl
  rw [hfirst] at hsaving
  obtain ⟨args, hargs', hinstalled⟩ := hsaving.installs rfl (named_after .standard _) nofun
  obtain rfl := Except.ok.inj (hargs.symm.trans hargs')
  obtain ⟨a, ha, hsource⟩ := Option.map_eq_some_iff.mp hinstalled
  have hactive : s.registry.activeName? = some "show" := hsaving.activeName?
  obtain ⟨action, haction, hname⟩ := Option.map_eq_some_iff.mp hactive
  have ha : s.installed? "Twice" = some a := ha
  have hstaged : s.actionSource "Twice" = .empty := by
    rw [hs, actionSource_stage]
  clear_value s
  -- the second one finds it
  have hbody : action.body? "Twice" = some a := (installed?_eq haction "Twice").symm.trans ha
  rw [← hname] at hargs
  have hplace : s.savePlace ⟨0⟩ = .ok ⟨action, "Twice", tree, ["letter"]⟩ :=
    savePlace_eq_ok htrace rfl rfl rfl rfl haction
  have hunchanged : (s.saveAction ⟨0⟩ "x" []).1 = .ok .unchanged :=
    saveAction_of_compile_eq_none hplace rfl (SavePlace.compile_of_source hargs hbody hsource)
  have hdigest : ∀ b args, s.installed? "Twice" = some b →
      Arguments.resolve action.name "Twice" ["letter"] [] = .ok args →
      Sha256.digest b.source.encoding = Sha256.digest (ActionSource.encoding ⟨args, "x"⟩) →
        b.source.encoding = ActionSource.encoding ⟨args, "x"⟩ := by
    intro b args hb hargs' _
    obtain rfl := Option.some.inj (ha.symm.trans hb)
    obtain rfl := Except.ok.inj (hargs.symm.trans hargs')
    rw [hsource]
  obtain ⟨hsaved, -⟩ := actionSource_saveAction hreached ⟨0⟩ "x" [] htrace rfl rfl rfl rfl haction
    rfl hdigest
  rw [hunchanged] at hsaved
  obtain ⟨args, hargs', hshown⟩ := hsaved
  obtain rfl := Except.ok.inj (hargs.symm.trans hargs')
  exact ⟨hstaged, hunchanged, hshown⟩

end Session

end ParseActions
