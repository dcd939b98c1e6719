import SceneScript.Color
import SceneScript.Handles
import SceneScript.Sorting

/-!
# Splines

A spline animates one input: it holds a keyframe for each of a number of frames, frames being the
same if they are numerically equal. Keyframes are kept as they were written and sorted when they are
read; handles are resolved then, too, so that a keyframe between two others moves their handles.

Main statements:

- `sorted_perm`: reading in order loses nothing.
-/

namespace SceneScript

/-- An animation of one input. -/
structure Spline where
  name : String
  /-- The curve of keyframes that are added without one. -/
  defaultCurve : Curve := .linear
  color : Option Color := none
  /-- The keyframes as stored. -/
  stored : List Keyframe := []

namespace Spline

/-! ## Writing -/

/-- Puts a keyframe in place of the first one at its frame, or at the end. -/
def put (k : Keyframe) : List Keyframe → List Keyframe
  | [] => [k]
  | k' :: rest => if k'.frame == k.frame then k :: rest else k' :: put k rest

/-- Edits the first keyframe at a frame. -/
def editAt (frame : Number) (f : Keyframe → Keyframe) : List Keyframe → List Keyframe
  | [] => []
  | k :: rest => if k.frame == frame then f k :: rest else k :: editAt frame f rest

/-- The stored keyframe at a frame. -/
def get? (s : Spline) (frame : Number) : Option Keyframe := s.stored.find? (·.frame == frame)

/-- Adds a keyframe, in place of the one at its frame. Without a curve it gets the default one. -/
def add (s : Spline) (k : Keyframe) : Spline :=
  { s with stored := put { k with curve := some (k.curve.getD s.defaultCurve) } s.stored }

/-- Adds plain keyframes with one curve, by default that of the spline. -/
def addAll (s : Spline) (points : List (Number × KeyframeValue)) (curve : Option Curve) : Spline :=
  points.foldl (fun s' p =>
    s'.add { frame := p.1, value := p.2, curve := some (curve.getD s.defaultCurve) }) s

/-- Edits the keyframe at a frame in place. -/
def modify (s : Spline) (frame : Number) (f : Keyframe → Keyframe) : Spline :=
  { s with stored := editAt frame f s.stored }

/-- Sets the value at a frame and leaves all else there as it is. -/
def set (s : Spline) (frame : Number) (value : KeyframeValue) : Spline :=
  if (s.get? frame).isSome then s.modify frame fun k => { k with value }
  else s.add { frame, value }

/-- Gives every keyframe, and those to come, the same curve. -/
def applyCurve (s : Spline) (curve : Curve) : Spline :=
  { s with defaultCurve := curve, stored := s.stored.map fun k => { k with curve := some curve } }

/-- Removes the keyframe at a frame. -/
def remove (s : Spline) (frame : Number) : Spline :=
  { s with stored := s.stored.eraseP (·.frame == frame) }

/-- Removes the keyframe at a frame and answers with it. -/
def take (s : Spline) (frame : Number) : Option Keyframe × Spline :=
  (s.get? frame, s.remove frame)

/-! ## Reading -/

/-- The number of keyframes. -/
def length (s : Spline) : Nat := s.stored.length

/-- The stored keyframes in the order of time. -/
def sorted (s : Spline) : List Keyframe :=
  sortBy (fun a b => (a.frame.totalCompare b.frame).isLE) s.stored

/-- The frames in the order of time. -/
def frames (s : Spline) : List Number := s.sorted.map (·.frame)

/-- What the handles of a keyframe of this spline depend on. -/
def knot (s : Spline) (k : Keyframe) : Knot :=
  ⟨k.frame, k.value, k.curve.getD s.defaultCurve⟩

/-- A keyframe with its handles between its neighbours: its own or else those of its curve. Without
a neighbour there is no handle on that side. -/
def resolve (s : Spline) (before : Option Keyframe) (k : Keyframe) (behind : Option Keyframe) :
    Keyframe :=
  { k with
    left := before.bind fun b => k.left.or ((s.knot k).leftHandle (s.knot b))
    right := behind.bind fun b => k.right.or ((s.knot k).rightHandle (s.knot b)) }

/-- The keyframes in the order of time, with their handles. -/
def keyframes (s : Spline) : List Keyframe := mapNeighbours s.resolve none s.sorted

/-- The table of the keyframes, by frame. -/
def keyframeTable (s : Spline) : Table :=
  { entries := .ofList (s.keyframes.map fun k => (.frame k.frame, .table k.table)),
    ordered := true, forceIndent := true }

/-- The table of a spline: its color and its keyframes. -/
def table (s : Spline) : Table :=
  .record "BezierSpline" [("SplineColor", .ofOption (fun c => .table c.splineTable) s.color),
    ("KeyFrames", .table s.keyframeTable)]

/-! ## Laws -/

theorem sorted_perm (s : Spline) : s.sorted.Perm s.stored := sortBy_perm _ _

@[simp] theorem length_keyframes (s : Spline) : s.keyframes.length = s.length := by
  simp [keyframes, length, s.sorted_perm.length_eq]

end Spline

end SceneScript
