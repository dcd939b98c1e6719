import SceneScript.Registry
import SceneScript.Value.Basic

/-!
# Inputs and their controls

An input of a tool has a value, an expression, or a connection to an output of another node; unset
parts are not written. A user control describes how an input of one's own is shown in the editor.
-/

namespace SceneScript

/-- An input of a tool. -/
structure Input where
  name : String
  value : Value := .null
  expression : Option String := none
  /-- The node that the input is connected to. -/
  sourceOp : Option String := none
  /-- The output of that node. -/
  source : Option String := none

namespace Input

instance : Named Input := ⟨Input.name⟩

/-- An input with a value. -/
def ofValue (name : String) (value : Value) : Input := { name, value }

/-- An input with an expression. -/
def ofExpression (name expression : String) : Input := { name, expression := some expression }

/-- An input that is connected to an output of a node. -/
def connected (name sourceOp source : String) : Input :=
  { name, sourceOp := some sourceOp, source := some source }

/-- The mask of an effect. -/
def mask (sourceOp : String) : Input := connected "EffectMask" sourceOp "Mask"

def isConnected (i : Input) : Bool := i.sourceOp.isSome

def table (i : Input) : Table :=
  .record "Input" [("Value", i.value), ("Expression", .ofOption .text i.expression),
    ("SourceOp", .ofOption .text i.sourceOp), ("Source", .ofOption .text i.source)]

end Input

/-- The ends of a range of numbers. Each may be set without the other. -/
structure Bounds where
  min : Option Number := none
  max : Option Number := none

/-- Both ends at once, or neither. -/
instance : Coe (Option (Number × Number)) Bounds :=
  ⟨fun ends => ⟨ends.map Prod.fst, ends.map Prod.snd⟩⟩

/-- The control of an input that a user adds to a tool. -/
structure UserControl where
  /-- The name that is shown. -/
  prettyName : String
  inputControl : String := "SliderControl"
  dataType : String := "Number"
  previewControl : Option String := none
  integer : Bool := false
  page : Option String := none
  default : Value := .null
  /-- The range that the control spans. -/
  scale : Bounds := {}
  /-- The range that the input accepts. -/
  allowed : Bounds := {}

namespace UserControl

/-- The name of the input: the name shown without its spaces. -/
def name (c : UserControl) : String := String.ofList (c.prettyName.toList.filter (· != ' '))

instance : Named UserControl := ⟨UserControl.name⟩

def table (c : UserControl) : Table :=
  .record "" [("LINKS_Name", .text c.prettyName), ("LINKID_DataType", .text c.dataType),
    ("INPID_InputControl", .text c.inputControl),
    ("INPID_PreviewControl", .ofOption .text c.previewControl), ("INP_Integer", .bool c.integer),
    ("ICS_ControlPage", .ofOption .text c.page),
    ("INP_MinScale", .ofOption .number c.scale.min),
    ("INP_MaxScale", .ofOption .number c.scale.max),
    ("INP_MinAllowed", .ofOption .number c.allowed.min),
    ("INP_MaxAllowed", .ofOption .number c.allowed.max), ("INP_Default", c.default)]

end UserControl

end SceneScript
