import SceneScript.Curve

/-!
# Keyframes

A keyframe is a value at a frame, with a curve and with handles of its own where it has them; a
handle that is missing follows from the curve and the neighbours (`SceneScript.Handles`).
-/

namespace SceneScript

/-- What a keyframe sets its input to. -/
inductive KeyframeValue
  | number (value : Number)
  | text (content : String)
deriving DecidableEq

namespace KeyframeValue

def number? : KeyframeValue → Option Number
  | .number n => some n
  | .text _ => none

def toValue : KeyframeValue → Value
  | .number n => .number n
  | .text s => .text s

end KeyframeValue

/-- A point in time and value that a keyframe's tangent passes through. -/
abbrev Handle := Number × Number

/-- How the animation goes on around a keyframe, as far as that is set. -/
structure KeyframeFlags where
  loop : Option Bool := none
  pingPong : Option Bool := none
  loopRelative : Option Bool := none
  stepIn : Option Bool := none
  stepOut : Option Bool := none
deriving DecidableEq

namespace KeyframeFlags

/-- The flags with the names that the scene gives them. -/
def fields (f : KeyframeFlags) : List (String × Option Bool) :=
  [("Loop", f.loop), ("PingPong", f.pingPong), ("LoopRel", f.loopRelative), ("StepIn", f.stepIn),
    ("StepOut", f.stepOut)]

/-- Whether no flag is set, on or off. -/
def isEmpty (f : KeyframeFlags) : Bool := f.fields.all (·.2.isNone)

/-- The flags that are set; there is no table without any. -/
def table? (f : KeyframeFlags) : Option Table :=
  if f.isEmpty then none
  else some { TableOf.record "" (f.fields.map fun (name, on) => (name, .ofOption .bool on)) with
    forceUnindent := true }

end KeyframeFlags

/-- A keyframe of a spline. -/
structure Keyframe where
  frame : Number
  value : KeyframeValue
  left : Option Handle := none
  right : Option Handle := none
  curve : Option Curve := none
  flags : KeyframeFlags := {}
deriving DecidableEq

namespace Keyframe

/-- A keyframe is one line: its value, its handles and its flags. -/
def table (k : Keyframe) : Table :=
  { entries := ⟨[(.index 0, k.value.toValue), (.name "LH", .ofOption .point k.left),
      (.name "RH", .ofOption .point k.right), (.name "Flags", .ofOption .table k.flags.table?)]⟩,
    forceUnindent := true }

end Keyframe

end SceneScript
