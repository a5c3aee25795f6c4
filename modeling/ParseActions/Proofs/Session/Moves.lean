import ParseActions.Proofs.Session.Course
import ParseActions.Proofs.Session.Navigation

/-!
# Moves of a navigation

A navigation starts at the root of a trace and is changed by moves: frames are opened and closed,
previews begin and end, and all is reset. Whatever the moves were, the root is the lowest frame alone and
no frame is for the step of its neighbour. A step may have several frames with others between them; a
move closes the topmost one, and with it those above. What was opened last is closed by the same step.

## Main definitions

* `Navigation.Move`, `Navigation.perform`: the moves
* `Navigation.after`: the navigation after a sequence of moves
* `Session.Moved`: what an act may do to the navigation of a session

## Main results

* `Navigation.stacked_after`: what all moves keep
* `Navigation.zoom_after`: what opening and closing do after any moves
* `Session.exists_moves_of_after`: the navigation of a session comes from moves
-/

namespace ParseActions

namespace Navigation

/-- A move. -/
inductive Move where
  | zoomIn (id : TraceId)
  | zoomOut (id : TraceId)
  | enterPreview (id : TraceId)
  | leavePreview
  | reset

/-- The navigation after a move. -/
def perform (n : Navigation) : Move → Navigation
  | .zoomIn id => (n.zoomIn id).2
  | .zoomOut id => (n.zoomOut id).2
  | .enterPreview id => n.enterPreview id
  | .leavePreview => n.leavePreview
  | .reset => n.reset

/-- The navigation after moves. -/
def after (n : Navigation) (moves : List Move) : Navigation :=
  moves.foldl perform n

variable {n : Navigation} {id : TraceId}

/-! ## What moves keep -/

@[simp] theorem root_perform (n : Navigation) (move : Move) : (n.perform move).root = n.root := by
  cases move with
  | zoomIn id =>
    rcases n.zoomIn_cases id with ⟨-, h⟩ | ⟨-, -, h⟩ <;> rw [perform, h]
  | zoomOut id =>
    rcases n.zoomOut_cases id with ⟨-, h⟩ | ⟨_, _, -, -, h⟩ <;> rw [perform, h]
  | enterPreview | leavePreview | reset => rfl

/-- **Each move** keeps a stack of frames one. -/
theorem Stacked.perform (h : n.Stacked) (move : Move) : (n.perform move).Stacked := by
  cases move with
  | zoomIn id => exact h.zoomIn id
  | zoomOut id => exact h.of_prefix (root_perform n (.zoomOut id)) (n.frames_zoomOut_prefix id)
  | enterPreview id => exact h.of_prefix rfl List.prefix_rfl
  | leavePreview => exact h.of_prefix rfl List.prefix_rfl
  | reset => exact .start n.root

/-- **After any moves** the root is the lowest frame, and all frames are a stack. -/
theorem stacked_after (root : TraceId) (moves : List Move) :
    ((start root).after moves).root = root ∧ ((start root).after moves).Stacked := by
  refine List.foldlRecOn (motive := fun n => n.root = root ∧ n.Stacked) moves perform
    ⟨rfl, .start root⟩ fun n hn move _ => ⟨?_, hn.2.perform move⟩
  rw [root_perform, hn.1]

/-! ## Opening and closing -/

/-- A frame is opened for a step that is not the root nor the one of the topmost frame. -/
theorem fst_zoomIn_iff : (n.zoomIn id).1 = true ↔ id ≠ n.root ∧ n.frames.getLast? ≠ some id := by
  rw [getLast?_frames, Ne, Ne, Option.some.injEq]
  rcases n.zoomIn_cases id with ⟨hother, h⟩ | ⟨htop, hroot, h⟩
  · rw [h]
    exact iff_of_false Bool.false_ne_true fun hne => hother.elim (hne.2 ∘ Eq.symm) hne.1
  · rw [h]
    exact iff_of_true rfl ⟨hroot, Ne.symm htop⟩

/-- What is left where a frame was opened. -/
theorem zoomIn_of_fst (h : (n.zoomIn id).1 = true) :
    n.zoomIn id = (true, { n with zoomed := id :: n.zoomed }) := by
  rcases n.zoomIn_cases id with ⟨-, hsame⟩ | ⟨-, -, hopened⟩
  · rw [hsame] at h
    cases h
  · exact hopened

theorem snd_zoomIn_of_false (h : (n.zoomIn id).1 = false) : (n.zoomIn id).2 = n := by
  rcases n.zoomIn_cases id with ⟨-, hsame⟩ | ⟨-, -, hopened⟩
  · rw [hsame]
  · rw [hopened] at h
    cases h

/-- The frame that is opened comes on top of the others. -/
theorem frames_zoomIn (h : (n.zoomIn id).1 = true) :
    (n.zoomIn id).2.frames = n.frames ++ [id] ∧ (n.zoomIn id).2.preview = n.preview := by
  rw [zoomIn_of_fst h]
  exact ⟨n.frames_concat id, rfl⟩

/-- **What was opened** is closed by the same step, and nothing else is. -/
theorem zoomOut_zoomIn (h : (n.zoomIn id).1 = true) : (n.zoomIn id).2.zoomOut id = (true, n) := by
  rw [zoomIn_of_fst h, zoomOut, below?, if_pos rfl]

/-- Frames are closed for a step that one above the root is for. -/
theorem fst_zoomOut_iff : (n.zoomOut id).1 = true ↔ id ∈ n.frames.tail := by
  rw [frames, List.tail_cons, List.mem_reverse]
  rcases n.zoomOut_cases id with ⟨hmem, h⟩ | ⟨later, rest, -, hzoomed, h⟩
  · rw [h]
    exact iff_of_false Bool.false_ne_true hmem
  · rw [h, hzoomed]
    simp

/-- **The frames that are closed** are the topmost one for the step and all above it. -/
theorem frames_zoomOut (h : (n.zoomOut id).1 = true) :
    (∃ closed, id ∉ closed ∧ n.frames = (n.zoomOut id).2.frames ++ id :: closed) ∧
      (n.zoomOut id).2.preview = n.preview := by
  rcases n.zoomOut_cases id with ⟨-, hsame⟩ | ⟨later, rest, hlater, hzoomed, hclosed⟩
  · rw [hsame] at h
    cases h
  · rw [hclosed]
    exact ⟨⟨later.reverse, mt List.mem_reverse.mp hlater, by simp [frames, hzoomed]⟩, rfl⟩

theorem snd_zoomOut_of_false (h : (n.zoomOut id).1 = false) : (n.zoomOut id).2 = n := by
  rcases n.zoomOut_cases id with ⟨-, hsame⟩ | ⟨_, _, -, -, hclosed⟩
  · rw [hsame]
  · rw [hclosed] at h
    cases h

/-- The preview is shown, or else what the topmost frame is for. -/
theorem some_focus (n : Navigation) : some n.focus = n.preview.or n.frames.getLast? := by
  rw [getLast?_frames, focus]
  cases n.preview <;> rfl

/-- **After any moves** the root is the lowest frame alone, and no frame is for the step of its neighbour.
A frame opens for every step but the root and that of the topmost frame, on top of the others; closing
this step then gives the same navigation back. A step is closed exactly if a frame above the root is for
it: the topmost such frame goes, and those above it. Whatever is refused changes nothing, and the preview
goes before the topmost frame. -/
theorem zoom_after (root : TraceId) (moves : List Move) (id : TraceId) :
    let n := (start root).after moves
    (n.frames.head? = some root ∧ root ∉ n.frames.tail ∧ n.frames.IsChain (· ≠ ·)) ∧
    ((n.zoomIn id).1 = true ↔ id ≠ root ∧ n.frames.getLast? ≠ some id) ∧
    ((n.zoomIn id).1 = true → (n.zoomIn id).2.frames = n.frames ++ [id] ∧
      (n.zoomIn id).2.preview = n.preview ∧ (n.zoomIn id).2.zoomOut id = (true, n)) ∧
    ((n.zoomOut id).1 = true ↔ id ∈ n.frames.tail) ∧
    ((n.zoomOut id).1 = true →
      (∃ closed, id ∉ closed ∧ n.frames = (n.zoomOut id).2.frames ++ id :: closed) ∧
      (n.zoomOut id).2.preview = n.preview) ∧
    ((n.zoomIn id).1 = false → (n.zoomIn id).2 = n) ∧
    ((n.zoomOut id).1 = false → (n.zoomOut id).2 = n) ∧
    some n.focus = n.preview.or n.frames.getLast? := by
  intro n
  obtain ⟨hroot, hstacked⟩ := stacked_after root moves
  refine ⟨⟨congrArg some hroot, hroot ▸ hstacked.above, hstacked.adjacent⟩, ?_, fun h => ?_,
    fst_zoomOut_iff, frames_zoomOut, snd_zoomIn_of_false, snd_zoomOut_of_false, n.some_focus⟩
  · rw [fst_zoomIn_iff, hroot]
  · obtain ⟨hframes, hpreview⟩ := frames_zoomIn h
    exact ⟨hframes, hpreview, zoomOut_zoomIn h⟩

theorem zoom_after_twice :
    let n := (start ⟨0⟩).after [.zoomIn ⟨1⟩, .zoomIn ⟨2⟩, .zoomIn ⟨1⟩, .zoomIn ⟨3⟩, .enterPreview ⟨2⟩]
    n.frames = [⟨0⟩, ⟨1⟩, ⟨2⟩, ⟨1⟩, ⟨3⟩] ∧ (n.zoomIn ⟨1⟩).2.zoomOut ⟨1⟩ = (true, n) ∧
      (∃ closed, ⟨1⟩ ∉ closed ∧ n.frames = (n.zoomOut ⟨1⟩).2.frames ++ ⟨1⟩ :: closed) ∧
      (n.zoomIn ⟨0⟩).2 = n ∧ (n.zoomOut ⟨0⟩).2 = n := by
  intro n
  obtain ⟨-, -, hopened, -, hclosed, -⟩ := zoom_after ⟨0⟩
    [.zoomIn ⟨1⟩, .zoomIn ⟨2⟩, .zoomIn ⟨1⟩, .zoomIn ⟨3⟩, .enterPreview ⟨2⟩] ⟨1⟩
  obtain ⟨-, -, -, -, -, hin, hout, -⟩ := zoom_after ⟨0⟩
    [.zoomIn ⟨1⟩, .zoomIn ⟨2⟩, .zoomIn ⟨1⟩, .zoomIn ⟨3⟩, .enterPreview ⟨2⟩] ⟨0⟩
  exact ⟨by decide, (hopened (by decide)).2.2, (hclosed (by decide)).1, hin (by decide),
    hout (by decide)⟩

end Navigation

/-! ## Sessions -/

namespace Session

open Navigation (Move)

/-- What an act may do to the navigation of a session: it is kept, starts at the root of a new trace, or
is changed by a move. -/
inductive Moved (s s' : Session) : Prop where
  | kept (h : s'.navigation = s.navigation)
  | started (root : TraceId) (h : s'.navigation = some (.start root))
  | moved {n : Navigation} (move : Move) (h : s.navigation = some n)
    (hmove : s'.navigation = some (n.perform move))

theorem moved_move (s : Session) {step : Navigation → Bool × Navigation} (move : Move)
    (hstep : ∀ n, (step n).2 = n.perform move) : s.Moved (s.move step).2 := by
  rw [Session.move]
  split
  · next n' hsome =>
    obtain ⟨n, hn, hflag⟩ := Option.map_eq_some_iff.mp hsome
    refine .moved move hn ?_
    rw [← hstep n, hflag]
    rfl
  · exact .kept rfl

theorem moved_navigate (s : Session) (step : Navigation → Navigation) (ms : Nat) (move : Move)
    (hstep : ∀ n, step n = n.perform move) : s.Moved (s.navigate step ms) := by
  rw [navigate]
  split
  · exact .kept rfl
  · next n hn => exact .moved move hn (congrArg some (hstep n))

theorem moved_zoomIn (s : Session) (id : TraceId) : s.Moved (s.zoomIn id).2 := by
  rw [zoomIn]
  split
  · exact s.moved_move (.zoomIn id) fun _ => rfl
  · exact .kept rfl

theorem moved_saveAction (s : Session) (id : TraceId) (text : String)
    (overrides : List (Option String)) : s.Moved (s.saveAction id text overrides).2 := by
  rw [saveAction]
  split
  · exact .kept rfl
  · rw [saveAt]
    split
    · exact .kept rfl
    · split <;> exact .kept rfl

theorem moved_refresh (s : Session) : s.Moved s.refresh.2 := by
  rw [refresh]
  split <;> exact .kept rfl

/-- **Each act** keeps the navigation, starts it, or makes a move. -/
theorem moved_perform (s : Session) (act : Act) : s.Moved (act.perform s) := by
  cases act with
  | configure _ | request _ | advance _ | deselectAction | stage _ _ => exact .kept rfl
  | loadTrace t => exact .started t.root rfl
  | loadText text =>
    rw [Act.perform, loadText]
    split
    · exact .kept rfl
    · next t _ => exact .started t.root rfl
  | addAction name kind =>
    rw [Act.perform, addAction]
    split <;> exact .kept rfl
  | selectAction name =>
    rw [Act.perform, selectAction]
    split
    · exact .kept rfl
    · next active _ _ => cases active <;> exact .kept rfl
  | saveAction id text overrides => exact s.moved_saveAction id text overrides
  | zoomIn id => exact s.moved_zoomIn id
  | zoomOut id => exact s.moved_move (.zoomOut id) fun _ => rfl
  | toggleZoom id =>
    rw [Act.perform, toggleZoom]
    split
    · exact s.moved_move (.zoomOut id) fun _ => rfl
    · exact s.moved_zoomIn id
  | enterPreview id =>
    rw [Act.perform, enterPreview]
    split
    · exact s.moved_navigate _ _ (.enterPreview id) fun _ => rfl
    · exact .kept rfl
  | leavePreview => exact s.moved_navigate _ _ .leavePreview fun _ => rfl
  | exitZoom => exact s.moved_navigate _ _ .reset fun _ => rfl
  | refresh => exact s.moved_refresh
  | tick now =>
    rw [Act.perform, tick]
    split
    · exact .kept rfl
    · next scheduler _ =>
      cases moved_refresh { s.advance now with scheduler := scheduler } with
      | kept h => exact .kept h
      | started root h => exact .started root h
      | moved move h hmove => exact .moved move h hmove

/-- **The navigation of a session** comes from moves that start at the root of a trace, whatever was done
with the session. -/
theorem exists_moves_of_after (config : Config) (acts : List Act) {n : Navigation}
    (hn : ((start config).after acts).navigation = some n) :
    ∃ root moves, n = (Navigation.start root).after moves := by
  revert n
  apply after_invariant (P := fun s => ∀ {n : Navigation}, s.navigation = some n →
    ∃ root moves, n = (Navigation.start root).after moves)
  · nofun
  · intro s act _ hs n hn
    cases s.moved_perform act with
    | kept h => exact hs (h ▸ hn)
    | started root h => exact ⟨root, [], Option.some.inj (hn.symm.trans h)⟩
    | moved move h hmove =>
      obtain ⟨root, moves, rfl⟩ := hs h
      refine ⟨root, moves ++ [move], ?_⟩
      rw [Navigation.after, List.foldl_concat]
      exact Option.some.inj (hn.symm.trans hmove)

end Session

end ParseActions
