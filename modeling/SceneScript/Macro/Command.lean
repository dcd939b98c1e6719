import SceneScript.Macro

/-!
# Commands of macros

A command is one edit of a macro with its arguments. A session performs one command after the other
and goes on after a failure with whatever state the failure has left. The inputs that a command has
exposed get a default and properties by commands, too.
-/

namespace SceneScript

namespace Macro

/-- An edit of a macro with its arguments. -/
inductive Command
  | addTool (t : Tool)
  | exposeInput (tool input : String)
  | exposeColor (tool : String) (group : Int64) (before behind : String) (properties : Table)
  | exposeOutput (tool : String)
  | setDefault (name : String) (value : Value)
  | setProperty (name property : String) (value : Value)

namespace Command

/-- What a command does; nobody waits for an answer. -/
def edit : Command → Edit Macro Unit
  | .addTool t => .modify (·.addTool t)
  | .exposeInput tool input => do let _ ← Macro.exposeInput tool input
  | .exposeColor tool group before behind properties =>
    Macro.exposeColor tool group before behind properties
  | .exposeOutput tool => Macro.exposeOutput tool
  | .setDefault name value => configure name (·.setDefault value)
  | .setProperty name property value => configure name (·.setProperty property value)

end Command

/-- The macro after a command, failed or not. -/
def perform (m : Macro) (command : Command) : Macro := (command.edit.run m).state

/-- The macro after a session. -/
def performAll (m : Macro) (session : List Command) : Macro := session.foldl perform m

/-- The commands of a session that succeed, in their order. -/
def succeeded (m : Macro) : List Command → List Command
  | [] => []
  | command :: rest =>
    if (command.edit.run m).result.isOk then command :: (m.perform command).succeeded rest
    else (m.perform command).succeeded rest

end Macro

end SceneScript
