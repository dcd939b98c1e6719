import SceneScript.Value.Basic

/-!
# Colors

A color has three channels and an alpha, between zero and one. Tools take channels multiplied by
alpha; splines are drawn in whole steps from 0 to 255, tiles in plain channels.
-/

namespace SceneScript

/-- A color with its alpha. -/
structure Color where
  red : Binary64
  green : Binary64
  blue : Binary64
  alpha : Binary64
deriving DecidableEq

namespace Color

/-- A color whose channels are multiplied by its alpha. -/
def premultiplied (red green blue alpha : Binary64) : Color :=
  ⟨red * alpha, green * alpha, blue * alpha, alpha⟩

/-- An opaque color. -/
def rgb (red green blue : Binary64) : Color := premultiplied red green blue (.ofInt 1)

def black : Color := rgb (.ofInt 0) (.ofInt 0) (.ofInt 0)

def pureRed : Color := rgb (.ofInt 1) (.ofInt 0) (.ofInt 0)

def pureGreen : Color := rgb (.ofInt 0) (.ofInt 1) (.ofInt 0)

def magenta : Color := rgb (.ofInt 1) (.ofInt 0) (.ofInt 1)

instance : Inhabited Color := ⟨black⟩

/-- A channel in whole steps from 0 to 255, halves going up; a channel that is no number is 0. -/
def step (channel : Binary64) : Int64 := .ofInt (channel.clampUnit * .ofInt 255).roundHalfAway

/-- The color of a spline in the editor. -/
def splineTable (c : Color) : Table :=
  { TableOf.record "" [("Red", .int (step c.red)), ("Green", .int (step c.green)),
      ("Blue", .int (step c.blue))] with forceUnindent := true }

/-- The color of a tile in the editor. -/
def tileTable (c : Color) : Table :=
  { TableOf.record "" [("R", .float c.red), ("G", .float c.green), ("B", .float c.blue)] with
    forceUnindent := true }

end Color

end SceneScript
