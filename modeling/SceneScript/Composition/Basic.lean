import SceneScript.Macro
import SceneScript.XYPath

/-!
# Compositions

A composition holds the nodes of a graph, which are tools and macros, and the modifiers that drive
inputs of its tools: splines, paths and published values. Nodes and modifiers have names of their
own kind; a node and a modifier may share one.
-/

namespace SceneScript

/-- A node of a composition. -/
inductive Operator
  | tool (tool : Tool)
  | group (group : Macro)

namespace Operator

def name : Operator → String
  | .tool t => t.name
  | .group m => m.name

instance : Named Operator := ⟨Operator.name⟩

def tool? : Operator → Option Tool
  | .tool t => some t
  | .group _ => none

def group? : Operator → Option Macro
  | .tool _ => none
  | .group m => some m

/-- The output that others connect to. -/
def output : Operator → String
  | .tool t => t.output
  | .group m => m.output

def table (options : Options) : Operator → Table
  | .tool t => t.table options
  | .group m => m.table options

end Operator

/-- Something that drives inputs. -/
inductive Modifier
  | tool (tool : Tool)
  | spline (spline : Spline)
  | path (path : XYPath)

namespace Modifier

def name : Modifier → String
  | .tool t => t.name
  | .spline s => s.name
  | .path p => p.name

instance : Named Modifier := ⟨Modifier.name⟩

def spline? : Modifier → Option Spline
  | .spline s => some s
  | _ => none

def path? : Modifier → Option XYPath
  | .path p => some p
  | _ => none

/-- The tables of a modifier with their names: a path comes with its two splines. -/
def tables (options : Options) : Modifier → List (String × Table)
  | .tool t => [(t.name, t.table options)]
  | .spline s => [(s.name, s.table)]
  | .path p => [(p.name, p.table), (p.x.name, p.x.table), (p.y.name, p.y.table)]

end Modifier

/-- A graph of nodes with the modifiers that drive their inputs. -/
structure Composition where
  options : Options := {}
  operators : Registry Operator := ∅
  modifiers : Registry Modifier := ∅
  /-- The node that was made active. -/
  active : Option String := none
  /-- The node that was added last. -/
  lastAdded : Option String := none

namespace Composition

instance : Inhabited Composition := ⟨{}⟩

/-- Whether a node or a modifier has the name. -/
def contains (c : Composition) (name : String) : Bool :=
  c.operators.contains name || c.modifiers.contains name

def tool? (c : Composition) (name : String) : Option Tool :=
  (c.operators.find? name).bind Operator.tool?

def group? (c : Composition) (name : String) : Option Macro :=
  (c.operators.find? name).bind Operator.group?

def modifier? (c : Composition) (name : String) : Option Modifier := c.modifiers.find? name

def spline? (c : Composition) (name : String) : Option Spline :=
  (c.modifier? name).bind Modifier.spline?

def path? (c : Composition) (name : String) : Option XYPath :=
  (c.modifier? name).bind Modifier.path?

/-- The number of nodes and modifiers. -/
def size (c : Composition) : Nat := c.operators.size + c.modifiers.size

def isEmpty (c : Composition) : Bool := c.size == 0

/-- The node that is active: the one made so, or else the one added last. -/
def activeTool (c : Composition) : Option String := c.active.or c.lastAdded

/-- Puts a tool in place of the one of its name. -/
def putTool (c : Composition) (t : Tool) : Composition :=
  { c with operators := c.operators.put (.tool t) }

def putGroup (c : Composition) (m : Macro) : Composition :=
  { c with operators := c.operators.put (.group m) }

/-- Puts a modifier in place of the one of its name. -/
def putModifier (c : Composition) (m : Modifier) : Composition :=
  { c with modifiers := c.modifiers.put m }

end Composition

end SceneScript
