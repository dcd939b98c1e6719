import SceneScript.Edit
import SceneScript.Tool

/-!
# Macros

A macro groups tools into one node. Inputs of its tools are exposed as inputs of the macro, under
the tool's name and the input's, with a default and further properties; outputs are exposed in turn.

Main statements:

- `outputName_zero`: the first output is plain, later ones are numbered from two.
-/

namespace SceneScript

/-- An input of a macro that stands for an input of one of its tools. -/
structure InstanceInput where
  name : String
  sourceOp : String
  source : String
  default : Option Value := none
  properties : Table := ∅

namespace InstanceInput

instance : Named InstanceInput := ⟨InstanceInput.name⟩

def setDefault (i : InstanceInput) (value : Value) : InstanceInput := { i with default := some value }

def setProperty (i : InstanceInput) (name : String) (value : Value) : InstanceInput :=
  { i with properties := i.properties.insert (.name name) value }

/-- The wiring and the default, and all properties written over them. -/
def table (i : InstanceInput) : Table :=
  (TableOf.record "InstanceInput" [("SourceOp", .text i.sourceOp), ("Source", .text i.source),
    ("Default", i.default.getD .null)]).insertMany i.properties.entries.toList

end InstanceInput

/-- An output of a macro that stands for an output of one of its tools. -/
structure InstanceOutput where
  name : String
  sourceOp : String
  source : String

namespace InstanceOutput

def table (o : InstanceOutput) : Table :=
  .record "InstanceOutput" [("SourceOp", .text o.sourceOp), ("Source", .text o.source)]

end InstanceOutput

/-- A group of tools that acts as one node. -/
structure Macro where
  name : String
  tools : Registry Tool := ∅
  position : Number × Number := (0, 0)
  inputs : Registry InstanceInput := ∅
  /-- The outputs that were exposed. -/
  declared : List InstanceOutput := []
  tileColor : Option Color := none

namespace Macro

instance : Named Macro := ⟨Macro.name⟩

def addTool (m : Macro) (t : Tool) : Macro := { m with tools := m.tools.put t }

/-! ## Exposing inputs and outputs -/

/-- Exposes an input of a tool and answers with its name in the macro. An input exposed before
starts anew. -/
def exposeInput (tool input : String) : Edit Macro String := do
  let m ← .get
  if m.tools.contains tool then
    let name := tool ++ input
    .modify fun m => { m with inputs := m.inputs.put { name, sourceOp := tool, source := input } }
    return name
  else .fail (.unknownTool tool)

/-- Edits an exposed input in place. -/
def configure (name : String) (f : InstanceInput → InstanceInput) : Edit Macro Unit :=
  .modify fun m => { m with inputs := m.inputs.modify name f }

/-- The channels of a color input. -/
def channels : List String := ["Red", "Green", "Blue", "Alpha"]

/-- Exposes the channels of a color as one control: the first carries its name, all carry its group
and the given properties. -/
def exposeColor (tool : String) (group : Int64) (before behind : String) (properties : Table) :
    Edit Macro Unit :=
  channels.zipIdx.forM fun (channel, i) => do
    let name ← exposeInput tool (before ++ channel ++ behind)
    configure name fun input =>
      let named := if i = 0 then input.setProperty "Name" (.text "Color") else input
      let grouped := named.setProperty "ControlGroup" (.int group)
      { grouped with properties := grouped.properties.insertMany properties.entries.toList }

/-- The name of the output that is exposed after `count` others. -/
def outputName (count : Nat) : String :=
  if count = 0 then "Output" else "Output" ++ Number.natText (count + 1)

/-- Exposes the output of a tool under the next name. -/
def exposeOutput (tool : String) : Edit Macro Unit := do
  let m ← .get
  let t ← .orFail (m.tools.find? tool) (.unknownTool tool)
  .modify fun m => { m with
    declared := m.declared ++ [⟨outputName m.declared.length, tool, t.output⟩] }

/-- The outputs of a macro; while none is exposed, the output of the tool that was added last. -/
def outputs (m : Macro) : List InstanceOutput :=
  if m.declared.isEmpty then
    (m.tools.items.getLast?.map fun t => ⟨"Output", t.name, t.output⟩).toList
  else m.declared

/-- The output that others connect to. -/
def output (m : Macro) : String := (m.outputs.head?.map (·.name)).getD "Output"

/-! ## The scene -/

def viewInfo (m : Macro) (options : Options) : Table :=
  .record "GroupInfo" [("Pos", .point (options.nodePosition m.position))]

/-- The outputs by name. -/
def outputTable (m : Macro) : Table :=
  .ofEntries (m.outputs.map fun o => (.name o.name, .table o.table))

def table (m : Macro) (options : Options) : Table :=
  .record "MacroOperator" [
    ("Inputs", if m.inputs.isEmpty then .null
      else .table (.record orderedTag (m.inputs.items.map fun i => (i.name, .table i.table)))),
    ("Outputs", .table m.outputTable),
    ("Tools", .table (.record orderedTag
      (m.tools.items.map fun t => (t.name, .table (t.table options))))),
    ("ViewInfo", .table (m.viewInfo options)),
    ("Colors", .ofOption (fun c => .table (.record "" [("TileColor", .table c.tileTable)]))
      m.tileColor)]

@[simp] theorem outputName_zero : outputName 0 = "Output" := rfl

end Macro

end SceneScript
