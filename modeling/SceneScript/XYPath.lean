import SceneScript.Spline.Basic
import SceneScript.Tool

/-!
# Animated positions

A path animates a point by two splines, one for each coordinate, which stand beside it in the scene
under its name with an `X` and a `Y` behind.
-/

namespace SceneScript

/-- A pair of splines that animates a point. -/
structure XYPath where
  name : String
  x : Spline
  y : Spline
  showKeyPoints : Bool := false

namespace XYPath

instance : Named XYPath := ⟨XYPath.name⟩

/-- An empty path with the given curves and the colors of the options. -/
def make (name : String) (xCurve yCurve : Curve) (options : Options) : XYPath where
  name
  x := { name := name ++ "X", defaultCurve := xCurve, color := some options.pathColors.1 }
  y := { name := name ++ "Y", defaultCurve := yCurve, color := some options.pathColors.2 }

def setX (p : XYPath) (frame x : Number) : XYPath := { p with x := p.x.set frame (.number x) }

def setY (p : XYPath) (frame y : Number) : XYPath := { p with y := p.y.set frame (.number y) }

/-- Sets the point at a frame. -/
def set (p : XYPath) (frame : Number) (point : Number × Number) : XYPath :=
  (p.setX frame point.1).setY frame point.2

def setAll (p : XYPath) (points : List (Number × Number × Number)) : XYPath :=
  points.foldl (fun p e => p.set e.1 e.2) p

def table (p : XYPath) : Table :=
  .record "XYPath" [("Inputs", .table (.record "" [
      ("X", .table (Input.connected "X" p.x.name "Value").table),
      ("Y", .table (Input.connected "Y" p.y.name "Value").table)])),
    ("ShowKeyPoints", .bool p.showKeyPoints)]

end XYPath

end SceneScript
