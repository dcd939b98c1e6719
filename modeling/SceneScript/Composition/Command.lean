import SceneScript.Composition.Edit
import SceneScript.Spline.Change

/-!
# Commands

A command is one edit of a composition with its arguments. A session performs one command after the
other and goes on after a failure with whatever state the failure has left. The splines and paths
that an edit has made are changed by commands, too.
-/

namespace SceneScript

/-- An edit of a composition with its arguments. -/
inductive Command
  | addTool (t : Tool)
  | addMacro (m : Macro)
  | addMerge (name : String) (background foreground : Option String) (position : Number × Number)
  | setActive (name : String)
  | connect (sourceOp tool output input : String)
  | connectPublished (published tool input : String)
  | animate (tool input : String) (curve : Option Curve)
  | animateTool (t : Tool) (input : String) (curve : Option Curve)
  | animatePosition (tool input : String) (xCurve yCurve : Option Curve)
  | animatePath (tool input : String) (method : Composition.PathMethod)
    (xCurve yCurve : Option Curve)
  | publish (tool input : String) (value : Value)
  | changeSpline (name : String) (change : Spline.Change)
  | changePath (name : String) (change : XYPath.Change)

namespace Command

/-- What a command does; nobody waits for an answer. -/
def edit : Command → Edit Composition Unit
  | .addTool t => Composition.addTool t
  | .addMacro m => Composition.addMacro m
  | .addMerge name background foreground position =>
    Composition.addMerge name background foreground position
  | .setActive name => Composition.setActive name
  | .connect sourceOp tool output input => Composition.connect sourceOp tool output input
  | .connectPublished published tool input => Composition.connectPublished published tool input
  | .animate tool input curve => do let _ ← Composition.animate tool input curve
  | .animateTool t input curve => do let _ ← Composition.animateTool t input curve
  | .animatePosition tool input xCurve yCurve => do
    let _ ← Composition.animatePosition tool input xCurve yCurve
  | .animatePath tool input method xCurve yCurve => do
    let _ ← Composition.animatePath tool input method xCurve yCurve
  | .publish tool input value => Composition.publish tool input value
  | .changeSpline name change => Composition.modifySpline name (·.change change)
  | .changePath name change => Composition.modifyPath name (·.change change)

/-- The nodes that a command brings along. -/
def brought : Command → List Operator
  | .addTool t => [.tool t]
  | .addMacro m => [.group m]
  | .animateTool t _ _ => [.tool t]
  | _ => []

end Command

namespace Composition

/-- The composition after a command, failed or not. -/
def perform (c : Composition) (command : Command) : Composition := (command.edit.run c).state

/-- The composition after a session. -/
def performAll (c : Composition) (session : List Command) : Composition := session.foldl perform c

end Composition

end SceneScript
