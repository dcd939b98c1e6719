import SceneScript.Composition.Basic

/-!
# Building a composition

Nodes are added and connected; inputs of tools are animated by splines and paths or driven by
published values. Every edit checks the names it is given before it changes anything, and names what
it makes after the input that it drives.
-/

namespace SceneScript

namespace Composition

/-! ## Nodes -/

/-- Adds a node, in place of the one of the same name. -/
def addOperator (operator : Operator) : Edit Composition Unit := do
  .log (.added operator.name)
  .modify fun c => { c with
    operators := c.operators.put operator, lastAdded := some operator.name }

def addTool (t : Tool) : Edit Composition Unit := addOperator (.tool t)

def addMacro (m : Macro) : Edit Composition Unit := addOperator (.group m)

/-- Makes a node the active one. -/
def setActive (name : String) : Edit Composition Unit := do
  let c ← .get
  if c.operators.contains name then .modify fun c => { c with active := some name }
  else .fail (.unknownTool name)

/-! ## Connections -/

/-- The output of a node or modifier that others connect to. -/
def outputOf (name : String) : Edit Composition String := do
  let c ← .get
  match c.operators.find? name with
  | some operator => return operator.output
  | none =>
    if c.modifiers.contains name then return "Value" else .fail (.unknownTool name)

/-- Connects an input of a tool, which has to be there, to an output of any name. -/
def drive (tool input sourceOp source : String) : Edit Composition Unit := do
  let c ← .get
  let t ← .orFail (c.tool? tool) (.unknownTool tool)
  .modify fun c => c.putTool (t.connect input sourceOp source)

/-- Connects an output of a node or modifier to an input of a tool. -/
def connect (sourceOp tool output input : String) : Edit Composition Unit := do
  let c ← .get
  if c.contains sourceOp then drive tool input sourceOp output else .fail (.unknownTool sourceOp)

/-- Connects a merge to what it takes in, if anything. -/
def mergeInput (input : String) (source : Option String) (merge : Tool) :
    Edit Composition Tool :=
  match source with
  | none => return merge
  | some name => return merge.connect input name (← outputOf name)

/-- Adds a tool that merges a foreground over a background. -/
def addMerge (name : String) (background foreground : Option String)
    (position : Number × Number) : Edit Composition Unit := do
  let merge : Tool := { id := "Merge", name, position := some position }
  let merge ← mergeInput "Background" background merge
  let merge ← mergeInput "Foreground" foreground merge
  addTool merge

/-! ## Animation -/

/-- The spline that an animation starts with. -/
def newSpline (c : Composition) (name : String) (curve : Option Curve) : Spline :=
  { name, defaultCurve := curve.getD c.options.defaultCurve, color := some c.options.splineColor }

/-- Animates an input of a tool by a new spline and answers with the name under which the spline is
found. -/
def animate (tool input : String) (curve : Option Curve) : Edit Composition String := do
  let name := tool ++ input
  drive tool input name "Value"
  .log (.animated tool input .spline name)
  .modify fun c => c.putModifier (.spline (c.newSpline name curve))
  let c ← .get
  let s ← .orFail (c.spline? name) (.unknownTool name)
  return s.name

/-- Animates an input of a tool that may not be in the composition yet. -/
def animateTool (t : Tool) (input : String) (curve : Option Curve) :
    Edit Composition String := do
  let c ← .get
  unless c.operators.contains t.name do
    .log (.addedToAnimate t.name)
    addTool t
  animate t.name input curve

/-- The ways to animate a position. -/
inductive PathMethod
  | xyPath
  | path
deriving DecidableEq

instance : Inhabited PathMethod := ⟨.xyPath⟩

/-- The path that an animation of a position starts with. The curve of the second coordinate is by
default that of the first. -/
def newPath (c : Composition) (name : String) (xCurve yCurve : Option Curve) : XYPath :=
  .make name (xCurve.getD c.options.defaultCurve) ((yCurve.or xCurve).getD c.options.defaultCurve)
    c.options

/-- Animates a position by a new path and answers with the name under which the path is found. -/
def animatePath (tool input : String) (method : PathMethod) (xCurve yCurve : Option Curve) :
    Edit Composition String := do
  match method with
  | .path => .fail (.notImplemented .pathModifier)
  | .xyPath =>
    let name := tool ++ input ++ "XYPath"
    drive tool input name "Value"
    .log (.animated tool input .path name)
    .modify fun c => c.putModifier (.path (c.newPath name xCurve yCurve))
    let c ← .get
    let p ← .orFail (c.path? name) (.unknownTool name)
    return p.name

/-- Animates a position by a path of two splines. -/
def animatePosition (tool input : String) (xCurve yCurve : Option Curve) :
    Edit Composition String :=
  animatePath tool input .xyPath xCurve yCurve

/-- Edits a spline in place. -/
def modifySpline (name : String) (f : Spline → Spline) : Edit Composition Unit :=
  .modify fun c => match c.spline? name with
    | some s => c.putModifier (.spline (f s))
    | none => c

/-- Edits a path in place. -/
def modifyPath (name : String) (f : XYPath → XYPath) : Edit Composition Unit :=
  .modify fun c => match c.path? name with
    | some p => c.putModifier (.path (f p))
    | none => c

/-! ## Published values -/

/-- The tool that publishes a value of this kind. -/
def publisher? : Value → Option String
  | .number _ => some "PublishNumber"
  | .text _ => some "PublishText"
  | .tuple _ => some "PublishPoint"
  | .fuId _ => some "PublishFuID"
  | _ => none

/-- Publishes a value and lets it drive an input of a tool. -/
def publish (tool input : String) (value : Value) : Edit Composition Unit := do
  let id ← .orFail (publisher? value) (.unsupported (.published value))
  let name := "Publish" ++ tool ++ input
  drive tool input name "Value"
  .modify fun c => c.putModifier (.tool ((Tool.modifier id name).setInput "Value" value))

/-- Lets a published value, or any other modifier, drive a further input. -/
def connectPublished (published tool input : String) : Edit Composition Unit := do
  let c ← .get
  if c.modifiers.contains published then connect published tool "Value" input
  else .fail (.unknownTool published)

end Composition

end SceneScript
