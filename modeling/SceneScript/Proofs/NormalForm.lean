import SceneScript.Proofs.ValueTree

/-!
# Normal forms of trees

Two trees have the same normal form if they differ in nothing that a text could tell: the layout
switches and the ordering switch are gone, entries stand in the order in which they are written,
entries and items that hold nothing are left out, and an entry at a position does not say at which.
Of the values only one pair is taken together, the empty tuple and the empty table without a tag.
Numbers are kept as they are stored, integers apart from doubles and `0` apart from `-0`.

Main statements:

- `Value.form_sequence`, `TableOf.form_eq`: the form of a tree from the forms of its parts.
-/

namespace SceneScript

/-- What the text of an entry says of its key. -/
inductive Label
  | position
  | frame (frame : Number)
  | name (name : String)
deriving DecidableEq

/-- The normal form of a value. -/
inductive Form
  | null
  | bool (value : Bool)
  | number (value : Number)
  | text (content : String)
  | fuId (name : String)
  | tuple (items : List Form)
  | sequence (items : List Form)
  | table (name : String) (entries : List (Label × Form))

namespace Form

def isNull : Form → Bool
  | .null => true
  | _ => false

/-- A tuple without members reads like a table without tag and entries. -/
def ofTuple : List Form → Form
  | [] => .table "" []
  | items => .tuple items

end Form

def Key.label : Key → Label
  | .index _ => .position
  | .frame n => .frame n
  | .name s => .name s

mutual

/-- The normal form of a value. -/
def Value.form : Value → Form
  | .null => .null
  | .bool b => .bool b
  | .number n => .number n
  | .text s => .text s
  | .fuId s => .fuId s
  | .tuple items => .ofTuple (Value.forms items)
  | .sequence items => .sequence ((Value.forms items).filter (!·.isNull))
  | .table t => t.form
termination_by structural v => v

def Value.forms : List Value → List Form
  | [] => []
  | v :: rest => v.form :: Value.forms rest
termination_by structural l => l

/-- The normal form of a table: its tag, and its entries as they are written. -/
def TableOf.form : TableOf Value → Form
  | ⟨name, ⟨entries⟩, _, _, ordered⟩ =>
    let forms := TableOf.arrange ordered Prod.fst (Value.entryForms entries)
    .table name ((forms.filter (!·.2.isNull)).map fun e => (e.1.label, e.2))
termination_by structural t => t

def Value.entryForms : List (Key × Value) → List (Key × Form)
  | [] => []
  | (k, v) :: rest => (k, v.form) :: Value.entryForms rest
termination_by structural l => l

end

namespace Value

theorem forms_eq (items : List Value) : forms items = items.map form := by
  induction items with
  | nil => rfl
  | cons v rest ih => rw [List.map_cons, ← ih]; rfl

theorem entryForms_eq (entries : List (Key × Value)) :
    entryForms entries = entries.map (fun e => (e.1, e.2.form)) := by
  induction entries with
  | nil => rfl
  | cons e rest ih => rw [List.map_cons, ← ih]; rfl

@[simp] theorem form_tuple (items : List Value) :
    (Value.tuple items).form = .ofTuple (items.map form) := by
  rw [← forms_eq]
  rfl

@[simp] theorem isNull_form (v : Value) : v.form.isNull = v.isNull := by
  cases v with
  | tuple items => cases items <;> rfl
  | table t =>
    obtain ⟨name, ⟨entries⟩, forceIndent, forceUnindent, ordered⟩ := t
    rfl
  | _ => rfl

theorem form_sequence (items : List Value) :
    (Value.sequence items).form = .sequence ((items.filter (!·.isNull)).map form) := by
  show Form.sequence ((forms items).filter (!·.isNull)) = _
  rw [forms_eq, filter_items_map isNull_form]

end Value

/-- The form of a table has one entry for each that is written. -/
theorem TableOf.form_eq (t : TableOf Value) :
    t.form = .table t.name (t.written.map fun e => (e.1.label, e.2.form)) := by
  obtain ⟨name, ⟨entries⟩, forceIndent, forceUnindent, ordered⟩ := t
  show Form.table name (((arrange ordered Prod.fst (Value.entryForms entries)).filter _).map _) = _
  rw [Value.entryForms_eq, arrange_map, filter_entries_map Value.isNull_form, List.map_map]
  rfl

end SceneScript
