import ParseActions.Proofs.Session.Sources

/-!
# What fingerprints tell

A save compares the fingerprint of what is saved with that of what is installed. The bytes that are hashed
tell sources apart whose names are in order, so two of them have one fingerprint only if they are the same
or their bytes are a collision of the hash. All that is installed, and all that is compared, has passed
the check of its names: a save that changes nothing saves what is installed, but for such a collision.

## Main results

* `Session.saveAction_again`: saving again what was just installed changes nothing
* `Session.unchanged_or_collision`: when a save changes nothing
-/

namespace ParseActions

namespace Session

variable {s s' : Session} {place : SavePlace} {id : TraceId} {text : String}
  {overrides : List (Option String)}

/-! ## Saves that change nothing -/

/-- A text is taken for the one that is installed where the fingerprints agree. -/
theorem SavePlace.compile_eq_none_iff : place.compile text overrides = .ok none ↔
    ∃ args a, Arguments.resolve place.action.name place.rule place.names overrides = .ok args ∧
      place.action.body? place.rule = some a ∧
      a.fingerprint = ActionSource.fingerprint ⟨args, text⟩ := by
  constructor
  · intro h
    obtain ⟨args, hargs, ⟨-, a, ha, hsame⟩ | ⟨_, hsome, -⟩⟩ := SavePlace.compile_eq_ok h
    · exact ⟨args, a, hargs, ha, hsame⟩
    · cases hsome
  · rintro ⟨args, a, hargs, ha, hsame⟩
    exact SavePlace.compile_of_fingerprint hargs ha hsame

/-- What is installed and what is compared with it has passed the check of its names. -/
theorem fingerprint_eq_of_installed? {args : List String} {a : RuleAction} (hs : s.Named)
    (ha : s.installed? place.rule = some a)
    (hargs : Arguments.resolve place.action.name place.rule place.names overrides = .ok args) :
    a.fingerprint = ActionSource.fingerprint ⟨args, text⟩ ↔
      a.source = ⟨args, text⟩ ∨
        Sha256.Collision a.source.encoding (ActionSource.encoding ⟨args, text⟩) :=
  ActionSource.fingerprint_eq_iff (hs.of_installed? ha)
    (Arguments.named_of_check (Arguments.check_of_resolve hargs))

/-- A save that is not refused for want of a place is one at the place of the step. -/
theorem exists_place_of_saveAction_eq_ok {outcome : SaveOutcome}
    (h : (s.saveAction id text overrides).1 = .ok outcome) :
    ∃ place, s.savePlace id = .ok place ∧ (s.saveAt place text overrides).1 = .ok outcome := by
  cases hplace : s.savePlace id with
  | error e =>
    rw [saveAction, hplace] at h
    cases h
  | ok place =>
    rw [saveAction_of_savePlace hplace] at h
    exact ⟨place, rfl, h⟩

/-- A blank text only removes what is installed. -/
theorem not_blank_of_saveAt {outcome : SaveOutcome}
    (h : (s.saveAt place text overrides).1 = .ok outcome) (houtcome : outcome ≠ .uninstalled) :
    (Text.trimChars text.toList).isEmpty = false := by
  refine Bool.eq_false_of_not_eq_true fun hblank => houtcome ?_
  simp only [saveAt, hblank, if_true] at h
  exact (Except.ok.inj h).symm

/-- A save changes nothing where a text that is not blank is taken for the one that is installed. -/
theorem saveAction_eq_unchanged_iff : (s.saveAction id text overrides).1 = .ok .unchanged ↔
    ∃ place, s.savePlace id = .ok place ∧ (Text.trimChars text.toList).isEmpty = false ∧
      place.compile text overrides = .ok none := by
  constructor
  · intro h
    obtain ⟨place, hplace, hsave⟩ := exists_place_of_saveAction_eq_ok h
    have hsaving := s.saving place text overrides
    rw [hsave] at hsaving
    refine ⟨place, hplace, not_blank_of_saveAt hsave nofun, ?_⟩
    generalize (s.saveAt place text overrides).2 = s' at hsaving
    cases hsaving with
    | unchanged hcompile => exact hcompile
  · rintro ⟨place, hplace, htext, hcompile⟩
    exact saveAction_of_compile_eq_none hplace htext hcompile

/-- The place of a step when another version of the action is active. -/
theorem savePlace_of_active? {action : Action} (h : s.savePlace id = .ok place)
    (htrace : s'.trace = s.trace) (haction : s'.registry.active? = some action) :
    s'.savePlace id = .ok { place with action := action } := by
  have hplaces := places_of_savePlace h
  obtain ⟨t, node, cst, ht, hnode, hrule, hcst, htree⟩ := hplaces.step
  -- the names are those of the body that matched at the step
  rw [savePlace_eq_ok ht hnode hrule hcst htree hplaces.action] at h
  rw [savePlace_eq_ok (htrace.trans ht) hnode hrule hcst htree haction, ← Except.ok.inj h]

/-- **Saving again** what was just installed changes nothing. -/
theorem saveAction_again (h : (s.saveAction id text overrides).1 = .ok .installed) :
    ((s.saveAction id text overrides).2.saveAction id text overrides).1 = .ok .unchanged := by
  obtain ⟨place, hplace, hsave⟩ := exists_place_of_saveAction_eq_ok h
  have hsaving := saving_of_savePlace hplace text overrides
  rw [h] at hsaving
  generalize (s.saveAction id text overrides).2 = s' at hsaving ⊢
  cases hsaving with
  | @installed a hcompile =>
    obtain ⟨-, args, hargs, hsource⟩ := exists_source_of_compile hcompile
    -- the place is the same, and what was saved is installed there
    let place' : SavePlace := { place with action := place.action.install a }
    have hfound : place'.compile text overrides = .ok none :=
      SavePlace.compile_of_source hargs (body?_install_of_compile hcompile) hsource
    refine saveAction_of_compile_eq_none (savePlace_of_active? hplace rfl ?_)
      (not_blank_of_saveAt hsave nofun) hfound
    show (s.registry.modifyActive (·.install a)).active? = some (place.action.install a)
    rw [Registry.active?_modifyActive, (places_of_savePlace hplace).action, Option.map_some]

/-- **A save changes nothing** exactly if a text that is not blank is saved and its source is the one that
is installed, or the bytes of both are a collision of the hash. For the bytes that are hashed tell apart
any sources whose names pass the check, whatever the texts of their bodies are. -/
theorem unchanged_or_collision :
    (∀ file rule file' rule' : String, ∀ source source' : ActionSource,
      Arguments.check file rule source.args = .ok () →
      Arguments.check file' rule' source'.args = .ok () →
      (source.encoding = source'.encoding ↔ source = source') ∧
      (source.fingerprint = source'.fingerprint ↔
        source = source' ∨ Sha256.Collision source.encoding source'.encoding)) ∧
    ∀ config acts id text overrides,
      let s := (start config).after acts
      (s.saveAction id text overrides).1 = .ok .unchanged ↔
        ∃ place args a, s.savePlace id = .ok place ∧ (Text.trimChars text.toList).isEmpty = false ∧
          Arguments.resolve place.action.name place.rule place.names overrides = .ok args ∧
          s.installed? place.rule = some a ∧
          (a.source = ⟨args, text⟩ ∨
            Sha256.Collision a.source.encoding (ActionSource.encoding ⟨args, text⟩)) := by
  refine ⟨fun _ _ _ _ source source' hcheck hcheck' => ?_, fun config acts id text overrides => ?_⟩
  · have hnamed := Arguments.named_of_check hcheck
    have hnamed' := Arguments.named_of_check hcheck'
    exact ⟨ActionSource.encoding_inj hnamed hnamed', ActionSource.fingerprint_eq_iff hnamed hnamed'⟩
  · intro s
    have hs : s.Named := named_after config acts
    rw [saveAction_eq_unchanged_iff]
    constructor
    · rintro ⟨place, hplace, htext, hcompile⟩
      obtain ⟨args, a, hargs, ha, hsame⟩ := SavePlace.compile_eq_none_iff.mp hcompile
      have hinstalled : s.installed? place.rule = some a :=
        (installed?_eq (places_of_savePlace hplace).action _).trans ha
      exact ⟨place, args, a, hplace, htext, hargs, hinstalled,
        (fingerprint_eq_of_installed? hs hinstalled hargs).mp hsame⟩
    · rintro ⟨place, args, a, hplace, htext, hargs, hinstalled, hsame⟩
      refine ⟨place, hplace, htext, SavePlace.compile_eq_none_iff.mpr ⟨args, a, hargs, ?_, ?_⟩⟩
      · rw [← installed?_eq (places_of_savePlace hplace).action place.rule, hinstalled]
      · exact (fingerprint_eq_of_installed? hs hinstalled hargs).mpr hsame

theorem unchanged_or_collision_sample :
    let s := (start .standard).after [.loadTrace .sample, .addAction "show" .operation,
      .saveAction ⟨0⟩ "x" []]
    Arguments.check "Twice.show" "Twice" ["ab"] = .ok () ∧
      Arguments.check "Twice.show" "Twice" ["a"] = .ok () ∧
      ActionSource.encoding ⟨["ab"], "c"⟩ ≠ ActionSource.encoding ⟨["a"], "bc"⟩ ∧
      (s.saveAction ⟨0⟩ "x" []).1 = .ok .unchanged ∧
      ∃ place args a, s.savePlace ⟨0⟩ = .ok place ∧ s.installed? place.rule = some a ∧
        (a.source = ⟨args, "x"⟩ ∨
          Sha256.Collision a.source.encoding (ActionSource.encoding ⟨args, "x"⟩)) := by
  intro s
  have hcheck : Arguments.check "Twice.show" "Twice" ["ab"] = .ok () := rfl
  have hcheck' : Arguments.check "Twice.show" "Twice" ["a"] = .ok () := rfl
  have hencoding := (unchanged_or_collision.1 _ _ _ _ ⟨["ab"], "c"⟩ ⟨["a"], "bc"⟩ hcheck hcheck').1
  -- the same text was saved before
  let s₀ := (start .standard).after [.loadTrace .sample, .addAction "show" .operation]
  have hfirst : (s₀.saveAction ⟨0⟩ "x" []).1 = .ok .installed := rfl
  have hunchanged : (s.saveAction ⟨0⟩ "x" []).1 = .ok .unchanged := saveAction_again hfirst
  obtain ⟨place, args, a, hplace, -, -, hinstalled, hsame⟩ :=
    (unchanged_or_collision.2 _ _ _ _ _).mp hunchanged
  exact ⟨hcheck, hcheck', mt hencoding.mp (by decide), hunchanged, place, args, a, hplace, hinstalled,
    hsame⟩

end Session

end ParseActions
