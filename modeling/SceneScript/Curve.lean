import SceneScript.Journal
import SceneScript.Number.Order

/-!
# Curves

A curve says how far the handles of a keyframe reach towards its neighbours. Each of its two hands
is a fraction of the time and a fraction of the change in value between the neighbours; a side
without a hand has no handle. The catalog of shapes builds curves from a strength between zero and
one.
-/

namespace SceneScript

/-- How far a handle reaches, as fractions of the way to the neighbour in time and in value. -/
abbrev Hand := Number × Number

/-- The shape of the animation around a keyframe. -/
structure Curve where
  left : Option Hand := none
  right : Option Hand := none
deriving DecidableEq

namespace Curve

instance : BEq Curve := ⟨fun a b => a.left == b.left && a.right == b.right⟩

/-- Straight lines to both sides. -/
def linear : Curve := {}

instance : Inhabited Curve := ⟨linear⟩

def isLinear (c : Curve) : Bool := c.left.isNone && c.right.isNone

/-- A curve whose tangents follow from the neighbouring slopes; there is no rule for it yet. -/
def smooth : Except Error Curve := .error (.notImplemented .smoothCurve)

/-- The strength of a shape for which none is given: a third. -/
def defaultStrength : Binary64 := .ofQuotient 1 3

/-- Whether a strength lies between zero and one. -/
def strengthInside (strength : Binary64) : Bool :=
  (strength.compare? (.ofInt 0)).any Ordering.isGE &&
    (strength.compare? (.ofInt 1)).any Ordering.isLE

/-- The strength that is used for the one that is given. Any change is recorded. -/
def clampStrength (strength : Binary64) : Logged Binary64 :=
  if strength.isNaN then ⟨defaultStrength, [.strengthMissing defaultStrength]⟩
  else if strengthInside strength then ⟨strength, []⟩
  else ⟨strength.clampUnit, [.strengthHeld strength strength.clampUnit]⟩

/-- A hand that reaches out in time only. -/
def ease (strength : Binary64) : Logged Hand := do
  return (.float (← clampStrength strength), 0)

/-- A hand that reaches out in value only. -/
def decelerate (strength : Binary64) : Logged Hand := do
  return (0, .float (← clampStrength strength))

end Curve

/-- The catalog of curves that have a strength. -/
inductive Shape
  | easeIn
  | easeOut
  | easeInAndOut
  | decelerateIn
  | decelerateOut
  | decelerateInAndOut
deriving DecidableEq

namespace Shape

/-- The shape that holds its value around a keyframe. -/
def flat : Shape := .easeInAndOut

/-- The curve of a shape. Each hand takes the strength on its own. -/
def curve (shape : Shape) (strength : Binary64) : Logged Curve :=
  match shape with
  | .easeIn => do return { left := some (← Curve.ease strength) }
  | .easeOut => do return { right := some (← Curve.ease strength) }
  | .easeInAndOut => do
    let left ← Curve.ease strength
    let right ← Curve.ease strength
    return { left := some left, right := some right }
  | .decelerateIn => do return { left := some (← Curve.decelerate strength) }
  | .decelerateOut => do return { right := some (← Curve.decelerate strength) }
  | .decelerateInAndOut => do
    let left ← Curve.decelerate strength
    let right ← Curve.decelerate strength
    return { left := some left, right := some right }

end Shape

namespace Curve

/-- A hand as text. -/
def handText : Option Hand → String
  | some (x, y) => "(" ++ x.text ++ ", " ++ y.text ++ ")"
  | none => "None"

def text (c : Curve) : String :=
  "Curve(LH=" ++ handText c.left ++ ", RH=" ++ handText c.right ++ ")"

end Curve

end SceneScript
