import SceneScript.Color
import SceneScript.Curve

/-!
# Options of a composition

The spacing of nodes in the editor, the colors of splines, and the curve of new animations.
-/

namespace SceneScript

structure Options where
  /-- The distance between two nodes, across and down. -/
  grid : Number × Number := (110, 33)
  splineColor : Color := .magenta
  /-- The colors of the two splines of a path. -/
  pathColors : Color × Color := (.pureRed, .pureGreen)
  defaultCurve : Curve := .linear

namespace Options

instance : Inhabited Options := ⟨{}⟩

/-- Where a node at the given grid position is drawn. -/
def nodePosition (o : Options) (position : Number × Number) : Number × Number :=
  (position.1 * o.grid.1, position.2 * o.grid.2)

end Options

end SceneScript
