import SceneScript.Entries
import SceneScript.Key
import SceneScript.Sorting

/-!
# Tables

A table is what every object of a scene is written as: a tag, entries in the order of insertion, and
three switches. Two switches ask for a block or for one line, the third for entries in the order of
their keys. `TableOf α` leaves open what the entries hold; scenes use it with scene values.

Main statements:

- `find?_insert_self`: a write is seen under its key;
- `settings_insert`, `settings_modify`, `settings_erase`: entries change without the tag and
  switches;
- `arrange_perm`: no entry is lost or doubled in writing;
- `arrange_map`: the order looks at the keys only.
-/

namespace SceneScript

/-- A tagged table with entries of type `α`. -/
structure TableOf (α : Type) where
  /-- The tag in front of the braces; a table without a tag has the empty one. -/
  name : String := ""
  entries : Entries Key α := ∅
  /-- Ask for a block. -/
  forceIndent : Bool := false
  /-- Ask for one line; this outweighs asking for a block. -/
  forceUnindent : Bool := false
  /-- Write entries in the order of their keys. -/
  ordered : Bool := false

namespace TableOf

variable {α : Type}

instance : EmptyCollection (TableOf α) := ⟨{}⟩

instance : Inhabited (TableOf α) := ⟨∅⟩

/-- Everything of a table but its entries. -/
def settings (t : TableOf α) : String × Bool × Bool × Bool :=
  (t.name, t.forceIndent, t.forceUnindent, t.ordered)

def find? (t : TableOf α) (k : Key) : Option α := t.entries.find? k

def contains (t : TableOf α) (k : Key) : Bool := t.entries.contains k

/-- The number of entries. -/
def size (t : TableOf α) : Nat := t.entries.size

/-- Writes an entry: in place if its key is there, else at the end. -/
def insert (t : TableOf α) (k : Key) (v : α) : TableOf α :=
  { t with entries := t.entries.insert k v }

/-- Writes several entries, one after the other. -/
def insertMany (t : TableOf α) (entries : List (Key × α)) : TableOf α :=
  { t with entries := t.entries.insertMany entries }

/-- Edits the value under a key in place. -/
def modify (t : TableOf α) (k : Key) (f : α → α) : TableOf α :=
  { t with entries := t.entries.modify k f }

/-- Removes an entry, keeping the order of the others. -/
def erase (t : TableOf α) (k : Key) : TableOf α :=
  { t with entries := t.entries.erase k }

/-! Some operations answer with the value that was there, beside the table that they leave. -/

/-- Writes an entry and answers with the value that it replaces. -/
def exchange (t : TableOf α) (k : Key) (v : α) : Option α × TableOf α := (t.find? k, t.insert k v)

/-- Hands the value under a key out for editing. -/
def edit (t : TableOf α) (k : Key) (f : α → α) : Option α × TableOf α := (t.find? k, t.modify k f)

/-- Removes an entry and answers with its value. -/
def take (t : TableOf α) (k : Key) : Option α × TableOf α := (t.find? k, t.erase k)

/-- The table of the given entries, written one after the other. -/
def ofEntries (entries : List (Key × α)) : TableOf α := { entries := .ofList entries }

/-- Entries in the order in which they are written: as stored, or sorted by `key` in an ordered
table. Sorting keeps the order of equal keys. -/
def arrange {β : Type} (ordered : Bool) (key : β → Key) (entries : List β) : List β :=
  if ordered then sortBy (fun a b => ((key a).compare (key b)).isLE) entries else entries

/-- The entries in the order in which they are written. -/
def arranged (t : TableOf α) : List (Key × α) := arrange t.ordered Prod.fst t.entries.toList

/-! ## Laws -/

theorem find?_insert_self (t : TableOf α) {k : Key} (hk : (k == k) = true) (v : α) :
    (t.insert k v).find? k = some v :=
  t.entries.find?_insert_self hk v

@[simp] theorem settings_insert (t : TableOf α) (k : Key) (v : α) :
    (t.insert k v).settings = t.settings := rfl

@[simp] theorem settings_modify (t : TableOf α) (k : Key) (f : α → α) :
    (t.modify k f).settings = t.settings := rfl

@[simp] theorem settings_erase (t : TableOf α) (k : Key) :
    (t.erase k).settings = t.settings := rfl

theorem arrange_perm {β : Type} (ordered : Bool) (key : β → Key) (entries : List β) :
    (arrange ordered key entries).Perm entries := by
  unfold arrange
  split
  · exact sortBy_perm _ _
  · exact .refl _

theorem arrange_map {β γ : Type} (ordered : Bool) (key : γ → Key) (f : β → γ) (entries : List β) :
    arrange ordered key (entries.map f) = (arrange ordered (fun e => key (f e)) entries).map f := by
  unfold arrange
  split
  · exact sortBy_map _ f entries
  · rfl

@[simp] theorem mem_arranged {t : TableOf α} {e : Key × α} :
    e ∈ t.arranged ↔ e ∈ t.entries.toList :=
  (arrange_perm t.ordered Prod.fst t.entries.toList).mem_iff

end TableOf

end SceneScript
