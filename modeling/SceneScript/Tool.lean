import SceneScript.Input
import SceneScript.Options

/-!
# Tools

A tool is a node of the graph: an identifier of the application, a name, a place in the editor, and
inputs, one for each name.

Main statements:

- `input?_connect_self`, `input?_connect_of_ne`: connecting an input replaces it and no other.
-/

namespace SceneScript

/-- A node of the graph. -/
structure Tool where
  id : String
  name : String
  /-- The place in the grid of the editor; modifiers have none. -/
  position : Option (Number × Number) := some (0, 0)
  inputs : Registry Input := ∅
  userControls : Registry UserControl := ∅
  /-- The output that others connect to. -/
  output : String := "Output"

/-- The tag of tables that keep the order of their entries. -/
def orderedTag : String := "ordered()"

namespace Tool

instance : Named Tool := ⟨Tool.name⟩

/-- A tool that drives inputs of others and has no place of its own. -/
def modifier (id name : String) : Tool := { id, name, position := none }

def input? (t : Tool) (name : String) : Option Input := t.inputs.find? name

/-- Adds an input, in place of the one of the same name. -/
def addInput (t : Tool) (i : Input) : Tool := { t with inputs := t.inputs.put i }

def addInputs (t : Tool) (is : List Input) : Tool := is.foldl addInput t

/-- Sets the value of an input and leaves the rest of it as it is; adds the input if need be. -/
def setInput (t : Tool) (name : String) (value : Value) : Tool :=
  match t.input? name with
  | some i => t.addInput { i with value }
  | none => t.addInput (.ofValue name value)

/-- Connects an input to an output of a node; nothing else of the input remains. -/
def connect (t : Tool) (input sourceOp source : String) : Tool :=
  t.addInput (.connected input sourceOp source)

def addMask (t : Tool) (mask : String) : Tool := t.addInput (.mask mask)

def addUserControl (t : Tool) (c : UserControl) : Tool :=
  { t with userControls := t.userControls.put c }

/-- A solid background. -/
def background (name : String) (c : Color) : Tool :=
  ({ id := "Background", name : Tool }).addInputs [.ofValue "TopLeftRed" (.float c.red),
    .ofValue "TopLeftGreen" (.float c.green), .ofValue "TopLeftBlue" (.float c.blue),
    .ofValue "TopLeftAlpha" (.float c.alpha)]

/-- A styled text. -/
def text (name content : String) : Tool :=
  ({ id := "TextPlus", name : Tool }).addInput (.ofValue "StyledText" (.text content))

/-- The name of the `i`-th point of a polyline. -/
def pointName (prefixName : String) (i : Nat) : String := prefixName ++ Number.natText i

/-- Adds a polyline whose points are inputs of their own, so that each can be animated. -/
def addPublishedPolyline (t : Tool) (points : List (Number × Number)) (name : String) : Tool :=
  let ids := points.zipIdx.map fun (_, i) =>
    Value.table (.record "" [("PublishID", .text (pointName name i))])
  let polyline : Table := { TableOf.record "Polyline" [("Points", .sequence ids)] with
    forceIndent := true }
  (t.addInput (.ofValue "Polyline" (.table polyline))).addInputs
    (points.zipIdx.map fun (p, i) => .ofValue (pointName name i) (.point p))

/-- Moves a tool that has a place. -/
def offsetPosition (t : Tool) (offset : Number × Number) : Tool :=
  { t with position := t.position.map fun p => (p.1 + offset.1, p.2 + offset.2) }

def viewInfo (options : Options) (position : Number × Number) : Table :=
  .record "OperatorInfo" [("Pos", .point (options.nodePosition position))]

/-- The inputs of a tool as a table. -/
def inputTable (t : Tool) : Table :=
  .record "" (t.inputs.items.map fun i => (i.name, .table i.table))

def table (t : Tool) (options : Options) : Table :=
  .record t.id [("Inputs", .table t.inputTable),
    ("ViewInfo", .ofOption (fun p => .table (viewInfo options p)) t.position),
    ("UserControls", if t.userControls.isEmpty then .null
      else .table (.record orderedTag
        (t.userControls.items.map fun c => (c.name, .table c.table))))]

/-! ## Laws -/

@[simp] theorem input?_addInput_self (t : Tool) (i : Input) :
    (t.addInput i).input? i.name = some i :=
  t.inputs.find?_put_self i

theorem input?_addInput_of_ne (t : Tool) {i : Input} {name : String} (h : name ≠ i.name) :
    (t.addInput i).input? name = t.input? name :=
  t.inputs.find?_put_of_ne h

@[simp] theorem input?_connect_self (t : Tool) (input sourceOp source : String) :
    (t.connect input sourceOp source).input? input = some (.connected input sourceOp source) :=
  t.input?_addInput_self (.connected input sourceOp source)

theorem input?_connect_of_ne (t : Tool) {input name : String} (sourceOp source : String)
    (h : name ≠ input) : (t.connect input sourceOp source).input? name = t.input? name :=
  t.input?_addInput_of_ne (i := .connected input sourceOp source) h

end Tool

end SceneScript
