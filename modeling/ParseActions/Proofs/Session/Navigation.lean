import Mathlib.Data.List.Chain
import ParseActions.Session.Navigation

/-!
# Frames of a navigation

The frames begin with the root of the trace, which no other frame targets. No move opens a frame
that the topmost one is already for, and closing frames leaves the lower ones as they are.

## Main definitions

* `Navigation.Stacked`: the root is the lowest frame alone, and no frame is for the step of its neighbour
* `Navigation.Within`: the frames and the preview are for steps of a trace

## Main results

* `Navigation.zoomIn_cases`, `Navigation.zoomOut_cases`: what the two moves do
* `Navigation.Within.zoomIn`, `Navigation.Within.zoomOut`: opening a frame, and closing frames
-/

namespace ParseActions.Navigation

variable {n n' : Navigation} {id : TraceId} {t : Trace}

/-! ## The list of frames -/

theorem getLast?_frames (n : Navigation) : n.frames.getLast? = some n.top := by
  rw [frames, List.getLast?_cons, List.getLast?_reverse, top]
  cases n.zoomed <;> rfl

theorem top_mem_frames (n : Navigation) : n.top ∈ n.frames :=
  List.mem_of_getLast? n.getLast?_frames

/-- What is opened comes last. -/
theorem frames_concat (n : Navigation) (id : TraceId) :
    frames { n with zoomed := id :: n.zoomed } = n.frames ++ [id] := by
  simp [frames]

/-- A step that was not zoomed into has no frame to close. -/
theorem below?_eq_none_iff {zoomed : List TraceId} : below? id zoomed = none ↔ id ∉ zoomed := by
  induction zoomed with
  | nil => simp [below?]
  | cons target zoomed ih =>
    by_cases h : target = id
    · simp [below?, h]
    · simp [below?, h, ih, Ne.symm h]

/-- What is left of the steps that were zoomed into when the last frame for one of them is closed. -/
theorem eq_append_of_below? {zoomed rest : List TraceId} (h : below? id zoomed = some rest) :
    ∃ later, id ∉ later ∧ zoomed = later ++ id :: rest := by
  induction zoomed with
  | nil => cases h
  | cons target zoomed ih =>
    rw [below?] at h
    split at h
    · next htarget => exact ⟨[], List.not_mem_nil, by rw [htarget, Option.some.inj h, List.nil_append]⟩
    · next hother =>
      obtain ⟨later, hlater, rfl⟩ := ih h
      exact ⟨target :: later, List.not_mem_cons_of_ne_of_not_mem (Ne.symm hother) hlater, rfl⟩

/-- **Opening a frame**: the topmost frame and the root are for other steps, or nothing is done. -/
theorem zoomIn_cases (n : Navigation) (id : TraceId) :
    (id = n.top ∨ id = n.root) ∧ n.zoomIn id = (false, n) ∨
      id ≠ n.top ∧ id ≠ n.root ∧ n.zoomIn id = (true, { n with zoomed := id :: n.zoomed }) := by
  by_cases h : id = n.top ∨ id = n.root
  · exact .inl ⟨h, if_pos h⟩
  · exact .inr ⟨(not_or.mp h).1, (not_or.mp h).2, if_neg h⟩

/-- **Closing frames**: the last one that was opened for the step and all later ones, or nothing is
done. -/
theorem zoomOut_cases (n : Navigation) (id : TraceId) :
    id ∉ n.zoomed ∧ n.zoomOut id = (false, n) ∨
      ∃ later rest, id ∉ later ∧ n.zoomed = later ++ id :: rest ∧
        n.zoomOut id = (true, { n with zoomed := rest }) := by
  cases h : below? id n.zoomed with
  | none => exact .inl ⟨below?_eq_none_iff.mp h, by rw [zoomOut, h]⟩
  | some rest =>
    obtain ⟨later, hlater, hzoomed⟩ := eq_append_of_below? h
    exact .inr ⟨later, rest, hlater, hzoomed, by rw [zoomOut, h]⟩

/-- The frames that are left are the lower ones. -/
theorem frames_zoomOut_prefix (n : Navigation) (id : TraceId) :
    (n.zoomOut id).2.frames <+: n.frames := by
  rcases n.zoomOut_cases id with ⟨-, h⟩ | ⟨later, rest, -, hzoomed, h⟩
  · simp only [h, List.prefix_rfl]
  · rw [h, frames, frames, hzoomed]
    exact ⟨id :: later.reverse, by simp⟩

/-! ## Stacks of frames -/

/-- Only the lowest frame is for the root, and no two frames in a row are for the same step. -/
structure Stacked (n : Navigation) : Prop where
  above : n.root ∉ n.frames.tail
  adjacent : n.frames.IsChain (· ≠ ·)

namespace Stacked

theorem start (root : TraceId) : (Navigation.start root).Stacked :=
  ⟨List.not_mem_nil, List.isChain_singleton _⟩

/-- The lower frames of a stack are one. -/
theorem of_prefix (h : n.Stacked) (hroot : n'.root = n.root) (hframes : n'.frames <+: n.frames) :
    n'.Stacked where
  above hmem := by
    obtain ⟨closed, hclosed⟩ := hframes
    apply h.above
    rw [← hclosed, ← hroot]
    exact List.mem_append_left closed hmem
  adjacent := h.adjacent.prefix hframes

theorem zoomIn (h : n.Stacked) (id : TraceId) : (n.zoomIn id).2.Stacked := by
  rcases n.zoomIn_cases id with ⟨-, hsame⟩ | ⟨htop, hroot, hopened⟩
  · rwa [hsame]
  · rw [hopened]
    constructor
    · intro hmem
      rw [frames_concat] at hmem
      rcases List.mem_append.mp hmem with hmem | hmem
      · exact h.above hmem
      · exact hroot (List.mem_singleton.mp hmem).symm
    · rw [frames_concat]
      refine List.isChain_append.mpr ⟨h.adjacent, List.isChain_singleton _, ?_⟩
      -- the only new neighbours are the frame that was the topmost one and the new frame
      intro last hlast next hnext
      rw [getLast?_frames, Option.mem_def, Option.some.injEq] at hlast
      rw [List.head?_cons, Option.mem_def, Option.some.injEq] at hnext
      subst hlast hnext
      exact Ne.symm htop

end Stacked

/-! ## Navigation within a trace -/

/-- The navigation is one of a trace: the lowest frame is for its root, and all frames and the
preview are for its steps. Only the lowest frame is for the root, and no two frames in a row are for
the same step. -/
structure Within (n : Navigation) (t : Trace) : Prop where
  root : n.frames.head? = some t.root
  frames : ∀ id ∈ n.frames, ∃ node, t.node? id = some node
  preview : ∀ id, n.preview = some id → ∃ node, t.node? id = some node
  above : t.root ∉ n.frames.tail
  adjacent : n.frames.IsChain (· ≠ ·)

namespace Within

/-- The root of a trace that is there can be shown. -/
theorem start {node : TraceNode} (hroot : t.node? t.root = some node) :
    (Navigation.start t.root).Within t where
  root := rfl
  frames id hid := by
    obtain rfl := List.mem_singleton.mp hid
    exact ⟨node, hroot⟩
  preview id hid := by cases hid
  above := List.not_mem_nil
  adjacent := List.isChain_singleton _

theorem stacked (h : n.Within t) : n.Stacked :=
  ⟨Option.some.inj h.root ▸ h.above, h.adjacent⟩

/-- Fewer frames are within the trace when the root is still there, and so is the preview. -/
theorem of_prefix (h : n.Within t) (hframes : n'.frames <+: n.frames)
    (hpreview : ∀ id, n'.preview = some id → ∃ node, t.node? id = some node) : n'.Within t := by
  -- the lower frames are never all closed, so that their first one is the first one of all
  have hroot : n'.root = n.root := by
    obtain ⟨closed, hclosed⟩ := hframes
    exact (List.cons.inj hclosed).1
  have hsame : n.root = t.root := Option.some.inj h.root
  have hstacked := h.stacked.of_prefix hroot hframes
  exact ⟨congrArg some (hroot.trans hsame), fun id hid => h.frames id (hframes.subset hid), hpreview,
    hroot.trans hsame ▸ hstacked.above, hstacked.adjacent⟩

/-- **Opening a frame** for a step of the trace. -/
theorem zoomIn (h : n.Within t) {node : TraceNode} (hnode : t.node? id = some node) :
    (n.zoomIn id).2.Within t := by
  have hstacked := h.stacked.zoomIn id
  rcases n.zoomIn_cases id with ⟨-, hsame⟩ | ⟨-, -, hopened⟩
  · rwa [hsame]
  · rw [hopened] at hstacked ⊢
    have hroot : n.root = t.root := Option.some.inj h.root
    refine ⟨h.root, fun other hmem => ?_, h.preview, hroot ▸ hstacked.above, hstacked.adjacent⟩
    rw [frames_concat] at hmem
    rcases List.mem_append.mp hmem with hmem | hmem
    · exact h.frames other hmem
    · obtain rfl := List.mem_singleton.mp hmem
      exact ⟨node, hnode⟩

/-- **Closing frames.** -/
theorem zoomOut (h : n.Within t) (id : TraceId) : (n.zoomOut id).2.Within t := by
  apply h.of_prefix (n.frames_zoomOut_prefix id)
  rw [Navigation.zoomOut]
  split <;> exact h.preview

theorem enterPreview (h : n.Within t) {node : TraceNode} (hnode : t.node? id = some node) :
    (n.enterPreview id).Within t := by
  refine h.of_prefix List.prefix_rfl ?_
  intro other hother
  obtain rfl : id = other := Option.some.inj hother
  exact ⟨node, hnode⟩

theorem leavePreview (h : n.Within t) : n.leavePreview.Within t :=
  h.of_prefix List.prefix_rfl (by simp [Navigation.leavePreview])

theorem reset (h : n.Within t) : n.reset.Within t :=
  h.of_prefix ⟨n.zoomed.reverse, rfl⟩ (by simp [Navigation.reset, Navigation.start])

/-- What is shown is a step of the trace. -/
theorem focus (h : n.Within t) : ∃ node, t.node? n.focus = some node := by
  rw [Navigation.focus]
  cases hpreview : n.preview with
  | none => exact h.frames _ n.top_mem_frames
  | some id => exact h.preview id hpreview

end Within

end ParseActions.Navigation
