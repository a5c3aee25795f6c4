import ParseActions.Proofs.Memo.Keys
import ParseActions.Proofs.Walk.Requests

/-!
# The keys that a walk shows

Requests and reports show keys as texts. All of them are keys of nodes under the active action, as are
those under which the walk recorded outcomes. So the texts tell them apart: a text that is shown stands
for one key, and for the entry of this key alone.

## Main definitions

* `DrawRequest.keys`, `WalkReport.keys`, `Walk.Result.keys`: the keys that are shown
* `Walk.IsKey`: the key of a node under the active action

## Main results

* `Walk.isKey_of_run`: all keys of a walk are keys of nodes under the active action
* `Walk.display_identifies`: the texts of keys identify the entries of a walk
-/

namespace ParseActions

/-- The keys that a panel shows. -/
def ActionPanel.keys (panel : ActionPanel) : List NodeKey :=
  panel.key :: panel.outcome.origin?.toList

/-- The keys that a request shows. -/
def DrawRequest.keys (r : DrawRequest) : List NodeKey :=
  r.key.toList ++ r.panel.elim [] ActionPanel.keys

/-- The keys that a report shows. -/
def WalkReport.keys (report : WalkReport) : List NodeKey :=
  report.todo ++ report.passThrough ++ report.errors.map SurfacedError.origin ++
    report.escaped.toList.map SurfacedError.origin

namespace Walk

/-- The keys that the requests and the report of a walk show. -/
def Result.keys (r : Result) : List NodeKey :=
  r.requests.flatMap DrawRequest.keys ++ r.report.keys

/-- The key of a node of the syntax tree under the active action. -/
def IsKey (w : Walk) (key : NodeKey) : Prop :=
  ∃ action id node, w.action = some action ∧ w.trace.cstNode? id = some node ∧
    .of node action.name = key

variable {w : Walk}

/-- The keys of one walk are under one action, so those that are written alike are the same. -/
theorem display_injOn_isKey : {key | w.IsKey key}.InjOn NodeKey.display := by
  rintro key ⟨action, _, node, haction, -, rfl⟩ key' ⟨action', _, node', haction', -, rfl⟩ h
  obtain rfl := Option.some.inj (haction.symm.trans haction')
  exact NodeKey.display_injOn action.name rfl rfl h

/-! ## What a walk shows -/

/-- Evaluations of the active action leave keys of nodes, and end with errors of such. -/
theorem keepsKeys_evaluation (hv : w.trace.Valid) {action : Action} (haction : w.action = some action)
    (id : CstId) : (w.evaluation action).KeepsKeys w.IsKey id :=
  Evaluation.allKeys_evaluate (c := w.evaluation action) hv
    (fun id node hnode => ⟨action, id, node, haction, hnode, rfl⟩) id

theorem isKey_of_key? {node : TraceNode} : ∀ key ∈ w.key? node, w.IsKey key := by
  intro key hkey
  simp only [key?, bind, pure, Option.mem_def, Option.bind_eq_some_iff, Option.some.injEq] at hkey
  obtain ⟨action, haction, id, -, cst, hnode, rfl⟩ := hkey
  exact ⟨action, id, cst, haction, hnode, rfl⟩

/-- The errors that are shown arose where a panel shows them. -/
theorem mem_surface {errors : List SurfacedError} {panel : ActionPanel} {e : SurfacedError}
    (h : e ∈ surface errors panel) : e ∈ errors ∨ e.origin ∈ panel.keys := by
  rw [surface] at h
  split at h
  · split at h
    · next horigin =>
      rcases List.mem_append.mp h with h | h
      · exact .inl h
      · obtain rfl := List.mem_singleton.mp h
        exact .inr (List.mem_cons.mpr (.inl horigin.1))
    · exact .inl h
  · exact .inl h

/-- The keys that a walk holds and has shown so far have a property. -/
structure State.ShownKeys (p : NodeKey → Prop) (s : State) : Prop where
  memo : s.memo.AllKeys p
  requests : ∀ r ∈ s.requests, ∀ key ∈ r.keys, p key
  errors : ∀ e ∈ s.errors, p e.origin

/-- A panel shows keys of nodes. -/
theorem isKey_of_panel (hv : w.trace.Valid) {id : TraceId} {node : TraceNode} {s : State}
    (hmemo : (w.panel id node s).2.memo.AllKeys w.IsKey) :
    ∀ panel ∈ (w.panel id node s).1, ∀ key ∈ panel.keys, w.IsKey key := by
  have hpaneled := w.paneled id node s
  generalize (w.panel id node s).1 = panel at hpaneled ⊢
  generalize (w.panel id node s).2 = s' at hpaneled hmemo
  cases hpaneled with
  | bare => exact fun _ hpanel => nomatch hpanel
  | @drawn action rule cst cstNode haction _ hnode =>
    intro panel hpanel key hkey
    obtain rfl := Option.some.inj hpanel
    rcases List.mem_cons.mp hkey with rfl | hkey
    · exact ⟨action, cst, cstNode, haction, hnode, rfl⟩
    · exact hmemo.origin_of_get? (get?_rulePanel hv hnode id rule s) key (Option.mem_toList.mp hkey)

/-- **Drawing a step** shows keys of nodes. -/
theorem State.ShownKeys.draw (hv : w.trace.Valid) {s : State} (h : s.ShownKeys w.IsKey) (visit : Visit)
    (node : TraceNode) : (w.draw visit node s).ShownKeys w.IsKey := by
  have hmemo : (w.panel visit.node node s).2.memo.AllKeys w.IsKey :=
    panel_invariant (fun action haction id m hm => (keepsKeys_evaluation hv haction id m hm).1)
      visit.node node h.memo
  have hpanel := isKey_of_panel hv hmemo
  refine ⟨hmemo, fun r hr key hkey => ?_, fun e he => ?_⟩
  · rw [requests_draw] at hr
    rcases List.mem_append.mp hr with hr | hr
    · exact h.requests r hr key hkey
    · obtain rfl := List.mem_singleton.mp hr
      rcases List.mem_append.mp hkey with hkey | hkey
      · exact isKey_of_key? key (Option.mem_toList.mp hkey)
      · cases hshown : (w.panel visit.node node s).1 with
        | none =>
          rw [hshown] at hkey
          cases hkey
        | some panel =>
          rw [hshown] at hkey
          exact hpanel panel hshown key hkey
  · rw [errors_draw] at he
    cases hshown : (w.panel visit.node node s).1 with
    | none =>
      rw [hshown] at he
      exact h.errors e he
    | some panel =>
      rw [hshown] at he
      exact (mem_surface he).elim (h.errors e) (hpanel panel hshown e.origin)

theorem shownKeys_of_final (hv : w.trace.Valid) (focus : TraceId) (lastEdited : Option NodeKey) :
    (w.final focus lastEdited).ShownKeys w.IsKey := by
  refine visit_state_invariant (fun visit node s hs => hs.draw hv visit node) (fun visit s hs => ?_)
    focus ⟨?_, fun _ hr => (nomatch hr), fun _ he => (nomatch he)⟩
  · exact ⟨hs.memo, by rw [requests_leave]; exact hs.requests, hs.errors⟩
  · exact evaluateFocus_invariant
      (fun action haction id m hm => (keepsKeys_evaluation hv haction id m hm).1) .empty focus

/-- The error that escapes arose at a node. -/
theorem isKey_of_escaped (hv : w.trace.Valid) (focus : TraceId) (lastEdited : Option NodeKey) :
    ∀ e ∈ (w.run focus lastEdited).report.escaped, w.IsKey e.origin := by
  intro e he
  change e ∈ ((w.evaluateFocus focus).1.bind Outcome.error?).map RaisedError.surfaced at he
  rw [evaluateFocus] at he
  split at he
  · next action id haction _ =>
    obtain ⟨raised, hraised, rfl⟩ := Option.mem_map.mp he
    exact (keepsKeys_evaluation hv haction id .empty .empty).2 raised.origin
      (Option.mem_map_of_mem RaisedError.origin hraised)
  · cases he

/-- **All keys of a walk**, those that it shows and those under which it recorded outcomes, are keys of
nodes under the active action. -/
theorem isKey_of_run (hv : w.trace.Valid) (focus : TraceId) (lastEdited : Option NodeKey)
    {key : NodeKey} (h : key ∈ (w.run focus lastEdited).keys ∨
      key ∈ Keyed.keys (w.run focus lastEdited).memo.entries) : w.IsKey key := by
  have hfinal := shownKeys_of_final hv focus lastEdited
  rcases h with hshown | hrecorded
  · rw [Result.keys, List.mem_append, WalkReport.keys] at hshown
    rcases hshown with hrequest | hreport
    · obtain ⟨r, hr, hkey⟩ := List.mem_flatMap.mp hrequest
      exact hfinal.requests r hr key hkey
    · simp only [List.mem_append, List.mem_map, Option.mem_toList] at hreport
      rcases hreport with ((htodo | hpassThrough) | ⟨e, he, rfl⟩) | ⟨e, he, rfl⟩
      · exact hfinal.memo.todo key htodo
      · exact hfinal.memo.passThrough key hpassThrough
      · exact hfinal.errors e he
      · exact isKey_of_escaped hv focus lastEdited e he
  · obtain ⟨entry, hentry, rfl⟩ := List.mem_map.mp hrecorded
    exact hfinal.memo.entries entry hentry

/-- **The texts of keys identify the entries of a walk.** Under one action, keys that are written alike
are the same, whatever the rules are called. All keys that a walk shows or records are under one action,
so a text that it shows stands for one key; and where outcomes are looked up by text, under the text of a
key that is shown there is the outcome recorded for this key, and no other. -/
theorem display_identifies :
    (∀ action : String, {key : NodeKey | key.action = action}.InjOn NodeKey.display) ∧
    ∀ w : Walk, w.trace.validate = .ok () → ∀ focus lastEdited,
      let r := w.run focus lastEdited
      {key | key ∈ r.keys ∨ key ∈ Keyed.keys r.memo.entries}.InjOn NodeKey.display ∧
      ∀ key ∈ r.keys, r.memo.entries.filter (fun entry => entry.1.display = key.display) =
        ((r.memo.get? key).map (key, ·)).toList := by
  refine ⟨NodeKey.display_injOn, fun w ht focus lastEdited => ?_⟩
  intro r
  have hv := Trace.valid_of_validate ht
  have hinj : {key | key ∈ r.keys ∨ key ∈ Keyed.keys r.memo.entries}.InjOn NodeKey.display :=
    display_injOn_isKey.mono fun key hkey => isKey_of_run hv focus lastEdited hkey
  have hsorted : Keyed.Sorted r.memo.entries :=
    run_invariant (P := fun m => Keyed.Sorted m.entries)
      (fun action _ => Evaluation.sorted_evaluate (c := w.evaluation action) hv) .nil focus lastEdited
  refine ⟨hinj, fun key hkey => ?_⟩
  -- the entries with this text are those with this key
  have hsame : ∀ entry ∈ r.memo.entries,
      decide (entry.1.display = key.display) = decide (entry.1 = key) := fun entry hentry =>
    decide_eq_decide.mpr (hinj.eq_iff (.inr (List.mem_map_of_mem hentry)) (.inl hkey))
  rw [List.filter_congr hsame, Keyed.filter_eq_find? hsorted.nodup_keys key, Memo.get?]

theorem display_identifies_sample :
    NodeKey.display ⟨"a_from_1_to_2_at", 1, 2, "show"⟩ ≠ NodeKey.display ⟨"a", 1, 2, "show"⟩ ∧
      sample.trace.validate = .ok () ∧ ∃ outcome,
        (sample.run ⟨1⟩ none).memo.entries.filter
            (fun entry => entry.1.display = "letter_from_0_to_1_at_show") =
          [(⟨"letter", 0, 1, "show"⟩, outcome)] := by
  have hdistinct : NodeKey.mk "a_from_1_to_2_at" 1 2 "show" ≠ ⟨"a", 1, 2, "show"⟩ := by decide
  refine ⟨fun h => hdistinct (display_identifies.1 "show" rfl rfl h), Trace.validate_sample, ?_⟩
  have hnode : sample.trace.cstNode? ⟨1⟩ = some ⟨.nonterminal "letter", ⟨0, 1⟩, [⟨2⟩]⟩ := rfl
  have hfocus : (sample.trace.node? ⟨1⟩).bind TraceNode.cst = some ⟨1⟩ := rfl
  obtain ⟨outcome, hget, -⟩ :=
    ended_focus (Trace.valid_of_validate Trace.validate_sample) rfl hfocus hnode none
  replace hget : (sample.run ⟨1⟩ none).memo.get? ⟨"letter", 0, 1, "show"⟩ = some outcome := hget
  have hstep : sample.trace.node? ⟨1⟩ = some sample.trace.nodes[1] := rfl
  -- the step at which the walk begins is drawn, and nothing is below it
  have hshown : ⟨"letter", 0, 1, "show"⟩ ∈ (sample.run ⟨1⟩ none).keys := by
    rw [Result.keys, requests_run, final, Trace.walk_eq_visit, Trace.visit, if_pos (by rfl),
      visitNode_of_leaf (enter_of_shown hstep rfl _) (.inr rfl), requests_draw]
    exact List.mem_append_left _ (List.mem_flatMap.mpr
      ⟨_, List.mem_append_right _ (List.mem_singleton_self _), List.mem_cons_self⟩)
  have hfilter := (display_identifies.2 sample Trace.validate_sample ⟨1⟩ none).2 _ hshown
  have htext : NodeKey.display ⟨"letter", 0, 1, "show"⟩ = "letter_from_0_to_1_at_show" := by decide
  rw [hget, htext] at hfilter
  exact ⟨outcome, hfilter⟩

end Walk

end ParseActions
