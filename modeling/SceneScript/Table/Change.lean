import SceneScript.Value.Basic

/-!
# Changes of tables

The entries of a table are written through its operations only. A change is one such operation with
its arguments; `edit`, `editTable` and `place` hand out what stands in the table, and their function
stands for whatever is done to it there.

Main statements:

- `settings_changeAll`: no change touches the tag or a switch.
-/

namespace SceneScript

namespace TableOf

/-- An operation that writes the entries of a table, with its arguments. -/
inductive Change
  | insert (k : Key) (v : Value)
  | insertMany (entries : List (Key × Value))
  | edit (k : Key) (f : Value → Value)
  | editTable (k : Key) (f : Table → Table)
  /-- Edits the entry under a name, which holds nothing at first if it was not there. -/
  | place (name : String) (f : Value → Value)
  | erase (k : Key)

/-- Carries out a change. Its answer is the value that it replaces, removes, or hands out for editing. -/
def operate (t : Table) : Change → Option Value × Table
  | .insert k v => t.exchange k v
  | .insertMany entries => (none, t.insertMany entries)
  | .edit k f => t.edit k f
  | .editTable k f =>
    let (content, left) := t.editTable k f
    (content.map .table, left)
  | .place name f => t.place name f
  | .erase k => t.take k

/-- The table after a change. -/
def change (t : Table) (c : Change) : Table := (t.operate c).2

/-- What a change answers. -/
def exposed? (t : Table) (c : Change) : Option Value := (t.operate c).1

/-- The table after several changes. -/
def changeAll (t : Table) (changes : List Change) : Table := changes.foldl change t

theorem settings_ensure (t : Table) (name : String) : (t.ensure name).settings = t.settings := by
  unfold ensure
  split <;> rfl

theorem settings_change (t : Table) (c : Change) : (t.change c).settings = t.settings := by
  cases c with
  | place name f => exact t.settings_ensure name
  | _ => rfl

theorem settings_changeAll (t : Table) (changes : List Change) :
    (t.changeAll changes).settings = t.settings := by
  induction changes generalizing t with
  | nil => rfl
  | cons c rest ih => exact (ih (t.change c)).trans (t.settings_change c)

end TableOf

end SceneScript
