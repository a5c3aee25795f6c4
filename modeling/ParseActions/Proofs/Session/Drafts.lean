import Mathlib.Data.List.Induction
import ParseActions.Proofs.Session.Isolation

/-!
# Drafts

What the editors of the active action hold was written into them since it became active. So an
editor that was not written into shows what is installed in the action, and what was written under
other actions, or while none was active, makes no difference.

## Main definitions

* `Session.Act.Writes`, `Session.Written`: acts write a source into the editor of a rule
* `Session.ActiveSince`: an action became active by an act and is active since

## Main results

* `Session.exists_activeSince`: what the editors hold was written since the action became active
* `Session.drafts_of_active`: what the editors of the active action show
-/

namespace ParseActions.Session

/-- An act writes a source into the editor of a rule: it is put there, or saved as a new body. -/
def Act.Writes (s : Session) (rule : String) (source : ActionSource) : Act → Prop
  | stage rule' source' => rule' = rule ∧ source' = source
  | saveAction id text overrides =>
    (s.saveAction id text overrides).1 = .ok .installed ∧
      ∃ place a, s.Places id place ∧ place.compile text overrides = .ok (some a) ∧
        place.rule = rule ∧ a.source = source
  | _ => False

/-- One of some acts writes a source into the editor of a rule. -/
def Written (s : Session) (acts : List Act) (rule : String) (source : ActionSource) : Prop :=
  ∃ soFar act rest, acts = soFar ++ act :: rest ∧ act.Writes (s.after soFar) rule source

/-- An action was made active by an act, and has been active in the course of the acts since. -/
structure ActiveSince (s : Session) (name : String) (before : List Act) (act : Act)
    (since : List Act) : Prop where
  inactive : (s.after before).registry.activeName? ≠ some name
  active : ∀ soFar, soFar <+: since →
    (s.after (before ++ act :: soFar)).registry.activeName? = some name

variable {s s' : Session} {name rule : String} {source : ActionSource} {act next : Act}
  {acts before since : List Act}

theorem Written.concat (h : s.Written acts rule source) (act : Act) :
    s.Written (acts ++ [act]) rule source := by
  obtain ⟨soFar, writer, rest, rfl, hwrites⟩ := h
  exact ⟨soFar, writer, rest ++ [act], by simp, hwrites⟩

theorem written_of_writes (h : act.Writes (s.after acts) rule source) :
    s.Written (acts ++ [act]) rule source :=
  ⟨acts, act, [], rfl, h⟩

theorem ActiveSince.concat (h : s.ActiveSince name before act since)
    (hactive : (s.after (before ++ act :: since ++ [next])).registry.activeName? = some name) :
    s.ActiveSince name before act (since ++ [next]) where
  inactive := h.inactive
  active soFar hsoFar := by
    rcases List.prefix_concat_iff.mp hsoFar with rfl | hsoFar
    · simpa using hactive
    · exact h.active soFar hsoFar

/-- **One act** under which an action is active: it became so and its editors are empty, or it was
active before, and what its editors hold was there before or is written by the act. -/
theorem Turn.cases_active (h : s.Turn act s') (hs : s.registry.Orderly)
    (hactive : s'.registry.activeName? = some name) :
    (s.registry.activeName? ≠ some name ∧ s'.edits = []) ∨
      (s.registry.activeName? = some name ∧ ∀ rule source, (rule, source) ∈ s'.edits →
        (rule, source) ∈ s.edits ∨ act.Writes s rule source) := by
  cases h with
  | kept hregistry hedits =>
    rw [hregistry] at hactive
    rw [hedits]
    exact .inr ⟨hactive, fun _ _ hmem => .inl hmem⟩
  | added hadd hedits =>
    obtain ⟨hnew, hold⟩ := Registry.activeName?_add hadd
    obtain rfl := Option.some.inj (hnew.symm.trans hactive)
    exact .inl ⟨hold, hedits⟩
  | selected htoggle hedits =>
    obtain ⟨hnew, hold⟩ := hs.activeName?_toggle htoggle
    obtain rfl := Option.some.inj (hnew.symm.trans hactive)
    exact .inl ⟨hold, hedits⟩
  | deselected hregistry _ =>
    rw [hregistry] at hactive
    cases hactive
  | staged =>
    refine .inr ⟨hactive, ?_⟩
    intro rule source hmem
    rcases Keyed.mem_insert hmem with hnew | hold
    · obtain ⟨rfl, rfl⟩ := Prod.mk.inj hnew
      exact .inr ⟨rfl, rfl⟩
    · exact .inl hold
  | saved hplaces hsaving =>
    rw [hsaving.activeName?] at hactive
    refine .inr ⟨hactive, ?_⟩
    intro rule source hmem
    generalize hresult : (s.saveAction _ _ _).1 = result at hsaving
    cases hsaving with
    | installed hcompile =>
      rcases Keyed.mem_insert hmem with hnew | hold
      · obtain ⟨rfl, rfl⟩ := Prod.mk.inj hnew
        exact .inr ⟨hresult, _, _, hplaces, hcompile, rfl, rfl⟩
      · exact .inl hold
    | uninstalled _ | unchanged _ | rejected _ => exact .inl (List.mem_of_mem_filter hmem)

/-- **What the editors hold** was written since the action became active. -/
theorem exists_activeSince (config : Config) (acts : List Act)
    (hactive : ((start config).after acts).registry.activeName? = some name) :
    ∃ before act since, acts = before ++ act :: since ∧
      (start config).ActiveSince name before act since ∧
      ∀ rule source, (rule, source) ∈ ((start config).after acts).edits →
        ((start config).after (before ++ [act])).Written since rule source := by
  induction acts using List.reverseRecOn with
  | nil => cases hactive
  | append_singleton acts next ih =>
    rw [after_concat] at hactive
    have hturn := ((start config).after acts).turn next
    rcases hturn.cases_active (orderly_after config acts) hactive with
      ⟨hold, hempty⟩ | ⟨hold, hwritten⟩
    -- the action became active just now
    · refine ⟨acts, next, [], rfl, ⟨hold, ?_⟩, ?_⟩
      · intro soFar hsoFar
        obtain rfl := List.prefix_nil.mp hsoFar
        rw [after_concat]
        exact hactive
      · intro rule source hmem
        rw [after_concat, hempty] at hmem
        cases hmem
    · obtain ⟨before, act, since, rfl, hsince, hedits⟩ := ih hold
      refine ⟨before, act, since ++ [next], by simp, hsince.concat ?_, ?_⟩
      · rw [after_concat]
        exact hactive
      · intro rule source hmem
        rw [after_concat] at hmem
        rcases hwritten rule source hmem with hthere | hnew
        · exact (hedits rule source hthere).concat next
        · apply written_of_writes
          rw [List.append_cons, after, List.foldl_append, ← after] at hnew
          exact hnew

/-- An editor that holds nothing shows what is installed. -/
theorem actionSource_of_not_mem {a : Action} (hactive : s.registry.active? = some a)
    (hnone : ∀ source, (rule, source) ∉ s.edits) :
    s.actionSource rule = (a.source? rule).getD .empty := by
  have hfind : Keyed.find? rule s.edits = none := by
    rw [Option.eq_none_iff_forall_ne_some]
    intro source hsource
    exact hnone source (Keyed.mem_of_find? hsource)
  rw [actionSource, hfind, hactive]
  rfl

/-- **Drafts stay with their action.** There is an act by which the active action became so, and it
has been active since. What its editors hold was written since then, so that the editor of a rule
that was not written into shows what is installed in the action, or nothing. And the editors show
the same when the edits that were made while it was not active are left out. -/
theorem drafts_of_active (config : Config) (acts : List Act) {a : Action}
    (hactive : ((start config).after acts).registry.active? = some a) :
    let s := (start config).after acts
    (∃ before act since, acts = before ++ act :: since ∧
      (start config).ActiveSince a.name before act since ∧
      (∀ rule source, (rule, source) ∈ s.edits →
        ((start config).after (before ++ [act])).Written since rule source) ∧
      ∀ rule, (∀ source, ¬((start config).after (before ++ [act])).Written since rule source) →
        s.actionSource rule = (a.source? rule).getD .empty) ∧
    let s' := (start config).after (purge a.name (start config) acts)
    s'.registry.active? = some a ∧ ∀ rule, s'.actionSource rule = s.actionSource rule := by
  intro s
  have hname : s.registry.activeName? = some a.name := by
    rw [Registry.activeName?, hactive, Option.map_some]
  refine ⟨?_, ?_⟩
  · obtain ⟨before, act, since, hacts, hsince, hedits⟩ := exists_activeSince config acts hname
    refine ⟨before, act, since, hacts, hsince, hedits, ?_⟩
    intro rule hnot
    apply actionSource_of_not_mem hactive
    intro source hmem
    exact hnot source (hedits rule source hmem)
  · intro s'
    have hsame : SameFor a.name s s' := sameFor_purge (.refl a.name (start config)) acts
    refine ⟨hsame.registry.active? rfl hactive, ?_⟩
    intro rule
    exact (hsame.actionSource hname rule).symm

/-- The edits of `Twice`, under the first action, and of `letter`, while no action is active, are
left out. -/
theorem drafts_of_active_sample :
    let acts : List Act := [.addAction "first" .operation, .stage "Twice" ⟨["one"], "one"⟩,
      .addAction "second" .operation, .selectAction "second", .stage "letter" ⟨[], "2"⟩,
      .selectAction "second", .stage "Pair" ⟨[], "3"⟩]
    let s := (start .standard).after acts
    let s' := (start .standard).after [.addAction "first" .operation,
      .addAction "second" .operation, .selectAction "second", .selectAction "second",
      .stage "Pair" ⟨[], "3"⟩]
    s.registry.active? = some (.new "second" .operation) ∧
      (∃ before act since, acts = before ++ act :: since ∧
        (start .standard).ActiveSince "second" before act since ∧
        ((start .standard).after (before ++ [act])).Written since "Pair" ⟨[], "3"⟩) ∧
      ∀ rule, s'.actionSource rule = s.actionSource rule := by
  intro acts s s'
  have hactive : s.registry.active? = some (.new "second" .operation) := rfl
  have hpurge : (start .standard).after (purge "second" (start .standard) acts) = s' := rfl
  obtain ⟨⟨before, act, since, hacts, hsince, hedits, -⟩, -, hsame⟩ :=
    drafts_of_active .standard acts hactive
  refine ⟨hactive, ⟨before, act, since, hacts, hsince, ?_⟩, ?_⟩
  · exact hedits "Pair" _ List.mem_cons_self
  · intro rule
    rw [← hpurge]
    exact hsame rule

end ParseActions.Session
