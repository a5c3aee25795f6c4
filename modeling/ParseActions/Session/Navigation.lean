import ParseActions.Trace.Basic

/-!
# Navigation

What part of a trace is shown: frames that were zoomed into, one after the other, above the root of
the trace. A preview shows another step for a while and leaves the frames as they are.

## Main definitions

* `Navigation`: the root, the frames above it, and the preview
* `Navigation.zoomIn`, `Navigation.zoomOut`: opening a frame, and closing frames
* `Navigation.focus`: the step that is shown
-/

namespace ParseActions

/-- The frames and the preview. -/
structure Navigation where
  root : TraceId
  /-- The steps that were zoomed into, the last one first. -/
  zoomed : List TraceId
  preview : Option TraceId
  deriving DecidableEq

namespace Navigation

/-- The whole trace is shown. -/
def start (root : TraceId) : Navigation :=
  ⟨root, [], none⟩

/-- The targets of all frames, from the root on. -/
def frames (n : Navigation) : List TraceId :=
  n.root :: n.zoomed.reverse

/-- The target of the topmost frame. -/
def top (n : Navigation) : TraceId :=
  n.zoomed.headD n.root

/-- Whether there is a frame above the root. -/
def isZoomed (n : Navigation) : Bool :=
  !n.zoomed.isEmpty

/-- The number of frames. -/
def depth (n : Navigation) : Nat :=
  n.zoomed.length + 1

/-- The step that is shown. -/
def focus (n : Navigation) : TraceId :=
  n.preview.getD n.top

/-- The step that was zoomed into last. -/
def zoomTarget? (n : Navigation) : Option TraceId :=
  n.zoomed.head?

/-- Opens a frame, unless its target is that of the topmost frame or the root. The flag tells
whether there is a new frame. -/
def zoomIn (n : Navigation) (id : TraceId) : Bool × Navigation :=
  if id = n.top ∨ id = n.root then (false, n)
  else (true, { n with zoomed := id :: n.zoomed })

/-- The frames below the topmost one with a target, if there is one. -/
def below? (id : TraceId) : List TraceId → Option (List TraceId)
  | [] => none
  | target :: rest => if target = id then some rest else below? id rest

/-- Closes the topmost frame with a target and all frames above it. The root is not closed. The flag
tells whether a frame was closed. -/
def zoomOut (n : Navigation) (id : TraceId) : Bool × Navigation :=
  match below? id n.zoomed with
  | none => (false, n)
  | some rest => (true, { n with zoomed := rest })

/-- Shows a step until the preview ends. -/
def enterPreview (n : Navigation) (id : TraceId) : Navigation :=
  { n with preview := some id }

/-- Ends the preview. -/
def leavePreview (n : Navigation) : Navigation :=
  { n with preview := none }

/-- Shows the whole trace again. -/
def reset (n : Navigation) : Navigation :=
  start n.root

end Navigation

end ParseActions
