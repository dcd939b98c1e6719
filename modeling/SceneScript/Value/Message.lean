import SceneScript.Value.Basic
import SceneScript.Text.Quoted

/-!
# Values in messages

Error messages show an offending value in full: its kind with its content in brackets, texts quoted,
numbers with their kind, tables with all entries and switches.
-/

namespace SceneScript

namespace Number

/-- A number as messages show it. -/
def message : Number → String
  | .integer i => "Integer(" ++ (Number.integer i).text ++ ")"
  | .float x => "Float(" ++ Style.message.text x ++ ")"

end Number

namespace Key

/-- A key as messages show it. -/
def message : Key → String
  | .name s => "Name(" ++ Text.quote s ++ ")"
  | .frame n => "Frame(" ++ n.message ++ ")"
  | .index i => "Index(" ++ (Key.index i).text ++ ")"

end Key

namespace Value

/-- Items with a comma between them. -/
def commaSeparated (items : List String) : String := String.intercalate ", " items

/-- Whether a switch is on, as messages show it. -/
def switchMessage (on : Bool) : String := if on then "true" else "false"

end Value

mutual

/-- A value as messages show it. -/
def Value.message : Value → String
  | .null => "Null"
  | .bool b => "Bool(" ++ Value.switchMessage b ++ ")"
  | .number n => "Number(" ++ n.message ++ ")"
  | .text s => "Text(" ++ Text.quote s ++ ")"
  | .fuId s => "FuId(" ++ Text.quote s ++ ")"
  | .tuple items => "Tuple([" ++ Value.commaSeparated (Value.messages items) ++ "])"
  | .sequence items => "Sequence([" ++ Value.commaSeparated (Value.messages items) ++ "])"
  | .table t => "Table(" ++ t.message ++ ")"
termination_by structural v => v

def Value.messages : List Value → List String
  | [] => []
  | v :: rest => v.message :: Value.messages rest
termination_by structural l => l

/-- A table as messages show it, entries in stored order. -/
def TableOf.message : TableOf Value → String
  | ⟨name, ⟨entries⟩, forceIndent, forceUnindent, ordered⟩ =>
    "Table \x7b name: " ++ Text.quote name ++
      ", entries: \x7b" ++ Value.commaSeparated (Value.entryMessages entries) ++
      "\x7d, force_indent: " ++ Value.switchMessage forceIndent ++
      ", force_unindent: " ++ Value.switchMessage forceUnindent ++
      ", ordered: " ++ Value.switchMessage ordered ++ " \x7d"
termination_by structural t => t

def Value.entryMessages : List (Key × Value) → List String
  | [] => []
  | (k, v) :: rest => (k.message ++ ": " ++ v.message) :: Value.entryMessages rest
termination_by structural l => l

end

namespace TableOf

/-- The value under a name that has to be there. -/
def lookup (t : TableOf Value) (name : String) : Except String Value :=
  match t.find? (.name name) with
  | some v => .ok v
  | none => .error ("no entry named " ++ Text.quote name ++ " in table " ++ Text.quote t.name)

end TableOf

end SceneScript
