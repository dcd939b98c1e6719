import SceneScript.Table.Basic

/-!
# Scene values

The values a scene can hold: nothing, truth values, numbers, texts, identifiers of the application,
tuples of scalars, tables, and sequences. An entry that holds nothing is kept in its table, but it
is neither counted nor written.
-/

namespace SceneScript

/-- A value of a scene. -/
inductive Value
  | null
  | bool (value : Bool)
  | number (value : Number)
  | text (content : String)
  | tuple (items : List Value)
  /-- A name that the application itself defines, such as a filter or an apply mode. -/
  | fuId (name : String)
  | table (content : TableOf Value)
  | sequence (items : List Value)

/-- A table of scene values. -/
abbrev Table := TableOf Value

instance : Inhabited Value := ⟨.null⟩

namespace Value

def isNull : Value → Bool
  | .null => true
  | _ => false

def isTable : Value → Bool
  | .table _ => true
  | _ => false

def isTuple : Value → Bool
  | .tuple _ => true
  | _ => false

/-- Whether the value is one that a tuple may hold. -/
def isScalar : Value → Bool
  | .bool _ | .number _ | .text _ | .fuId _ => true
  | _ => false

def bool? : Value → Option Bool
  | .bool b => some b
  | _ => none

def number? : Value → Option Number
  | .number n => some n
  | _ => none

def text? : Value → Option String
  | .text s => some s
  | _ => none

def table? : Value → Option Table
  | .table t => some t
  | _ => none

def sequence? : Value → Option (List Value)
  | .sequence items => some items
  | _ => none

/-- An integer value. -/
def int (i : Int64) : Value := .number (.integer i)

/-- A double value. -/
def float (x : Binary64) : Value := .number (.float x)

/-- A pair of numbers, such as a point or a handle. -/
def point (p : Number × Number) : Value := .tuple [.number p.1, .number p.2]

/-- What may be missing: nothing in its place, or the value that `f` makes of it. -/
def ofOption {α : Type} (f : α → Value) (a : Option α) : Value := a.elim .null f

/-- How many items of a list hold something. -/
def countNonNull (items : List Value) : Nat := items.countP (!·.isNull)

@[simp] theorem ofOption_none {α : Type} (f : α → Value) : ofOption f none = .null := rfl

@[simp] theorem ofOption_some {α : Type} (f : α → Value) (a : α) : ofOption f (some a) = f a := rfl

end Value

namespace TableOf

/-- The number of entries that hold something. -/
def length (t : TableOf Value) : Nat := Value.countNonNull t.entries.values

/-- The entries that hold something, in the order in which they are written. -/
def written (t : TableOf Value) : List (Key × Value) := t.arranged.filter (!·.2.isNull)

/-- A table with the given tag and one entry for each of the fields, whose names differ. -/
def record (name : String) (fields : List (String × Value)) : Table :=
  { name, entries := ⟨fields.map fun f => (.name f.1, f.2)⟩ }

/-- Edits the table under a key in place; other values stay. -/
def modifyTable (t : TableOf Value) (k : Key) (f : Table → Table) : Table :=
  t.modify k fun v => match v with
    | .table nested => .table (f nested)
    | other => other

/-- The table under a key. -/
def table? (t : TableOf Value) (k : Key) : Option Table := (t.find? k).bind Value.table?

/-- Hands the table under a key out for editing. -/
def editTable (t : TableOf Value) (k : Key) (f : Table → Table) : Option Table × Table :=
  (t.table? k, t.modifyTable k f)

/-- Adds an entry that holds nothing unless the name is there already. -/
def ensure (t : TableOf Value) (name : String) : Table :=
  if t.contains (.name name) then t else t.insert (.name name) .null

/-- Hands the value under a name out for editing, once there is one. -/
def place (t : TableOf Value) (name : String) (f : Value → Value) : Option Value × Table :=
  (t.ensure name).edit (.name name) f

theorem mem_written {t : TableOf Value} {e : Key × Value} :
    e ∈ t.written ↔ e ∈ t.entries.toList ∧ e.2.isNull = false := by
  simp [written]

end TableOf

end SceneScript
