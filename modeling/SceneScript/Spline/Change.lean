import SceneScript.Spline.Basic
import SceneScript.XYPath

/-!
# Changes of splines and paths

A spline is written through its operations only, and so are the two splines of a path. A change is
one such operation with its arguments; `edit` stands for whatever is done to a keyframe in its
place.

Main statements:

- `Spline.name_change`, `XYPath.names_change`: no change renames a spline, a path or its splines.
-/

namespace SceneScript

namespace Spline

/-- An operation that writes a spline, with its arguments. -/
inductive Change
  | add (k : Keyframe)
  | addAll (points : List (Number × KeyframeValue)) (curve : Option Curve)
  | set (frame : Number) (value : KeyframeValue)
  | edit (frame : Number) (f : Keyframe → Keyframe)
  | applyCurve (curve : Curve)
  | remove (frame : Number)
  | setColor (color : Color)

/-- The spline after a change. -/
def change (s : Spline) : Change → Spline
  | .add k => s.add k
  | .addAll points curve => s.addAll points curve
  | .set frame value => s.set frame value
  | .edit frame f => s.modify frame f
  | .applyCurve curve => s.applyCurve curve
  | .remove frame => (s.take frame).2
  | .setColor color => { s with color := some color }

/-- The spline after several changes. -/
def changeAll (s : Spline) (changes : List Change) : Spline := changes.foldl change s

theorem name_addAll (s : Spline) (points : List (Number × KeyframeValue)) (curve : Option Curve) :
    (s.addAll points curve).name = s.name := by
  -- the curve is read off the spline as it was, whatever has been added since
  have hfold : ∀ (c : Curve) (s' : Spline), (points.foldl (fun s' p =>
      s'.add { frame := p.1, value := p.2, curve := some c }) s').name = s'.name := by
    intro c
    induction points with
    | nil => intro s'; rfl
    | cons p rest ih => intro s'; exact ih _
  exact hfold (curve.getD s.defaultCurve) s

theorem name_set (s : Spline) (frame : Number) (value : KeyframeValue) :
    (s.set frame value).name = s.name := by
  unfold set
  split <;> rfl

@[simp] theorem name_change (s : Spline) (change : Change) : (s.change change).name = s.name := by
  cases change with
  | addAll points curve => exact s.name_addAll points curve
  | set frame value => exact s.name_set frame value
  | _ => rfl

theorem changeAll_append (s : Spline) (changes changes' : List Change) :
    s.changeAll (changes ++ changes') = (s.changeAll changes).changeAll changes' :=
  List.foldl_append

@[simp] theorem name_changeAll (s : Spline) (changes : List Change) :
    (s.changeAll changes).name = s.name := by
  induction changes generalizing s with
  | nil => rfl
  | cons change rest ih => exact (ih (s.change change)).trans (s.name_change change)

end Spline

namespace XYPath

/-- An operation that writes a path or one of its splines, with its arguments. -/
inductive Change
  | set (frame : Number) (point : Number × Number)
  | setX (frame x : Number)
  | setY (frame y : Number)
  | setAll (points : List (Number × Number × Number))
  | x (change : Spline.Change)
  | y (change : Spline.Change)
  | showKeyPoints (on : Bool)

/-- The path after a change. -/
def change (p : XYPath) : Change → XYPath
  | .set frame point => p.set frame point
  | .setX frame x => p.setX frame x
  | .setY frame y => p.setY frame y
  | .setAll points => p.setAll points
  | .x change => { p with x := p.x.change change }
  | .y change => { p with y := p.y.change change }
  | .showKeyPoints on => { p with showKeyPoints := on }

/-- The names of a path and its two splines. -/
def names (p : XYPath) : String × String × String := (p.name, p.x.name, p.y.name)

theorem names_setX (p : XYPath) (frame x : Number) : (p.setX frame x).names = p.names := by
  simp only [names, setX, Spline.name_set]

theorem names_setY (p : XYPath) (frame y : Number) : (p.setY frame y).names = p.names := by
  simp only [names, setY, Spline.name_set]

theorem names_set (p : XYPath) (frame : Number) (point : Number × Number) :
    (p.set frame point).names = p.names := by
  rw [set, names_setY, names_setX]

theorem names_setAll (p : XYPath) (points : List (Number × Number × Number)) :
    (p.setAll points).names = p.names := by
  unfold setAll
  induction points generalizing p with
  | nil => rfl
  | cons e rest ih => exact (ih (p.set e.1 e.2)).trans (p.names_set e.1 e.2)

@[simp] theorem names_change (p : XYPath) (change : Change) :
    (p.change change).names = p.names := by
  cases change with
  | set frame point => exact p.names_set frame point
  | setX frame x => exact p.names_setX frame x
  | setY frame y => exact p.names_setY frame y
  | setAll points => exact p.names_setAll points
  | x change => simp only [XYPath.change, names, Spline.name_change]
  | y change => simp only [XYPath.change, names, Spline.name_change]
  | showKeyPoints on => rfl

end XYPath

end SceneScript
