import SceneScript.Value.Basic

/-!
# Induction over values

A value holds other values in three ways: as members of a tuple, as items of a sequence, and as
entries of a table. `induction v` on a value assumes the statement for all of these.

Many statements are about trees whose texts avoid certain characters. A `Wording` says which texts
may be the tag of a table, the name of an entry, and the content of a text or an identifier; a tree
is worded accordingly if all of its texts are, nothing being exempt.

Main statements:

- `Value.induction`: induction over values, at every depth;
- `filter_items_map`, `filter_entries_map`: what holds nothing may be dropped before a walk or after
  it;
- `TableOf.worded_iff`, `Value.worded_tuple`, `Value.worded_sequence`: a tree is worded if its own
  texts and its parts are.
-/

namespace SceneScript

theorem Value.sizeOf_lt_of_mem_items {items : List Value} {v : Value} (h : v ∈ items) :
    sizeOf v < sizeOf (Value.sequence items) := by
  have := List.sizeOf_lt_of_mem h
  simp only [Value.sequence.sizeOf_spec]
  omega

theorem Value.sizeOf_lt_of_mem_entries {t : Table} {e : Key × Value} (h : e ∈ t.entries.toList) :
    sizeOf e.2 < sizeOf (Value.table t) := by
  obtain ⟨k, v⟩ := e
  obtain ⟨name, ⟨entries⟩, forceIndent, forceUnindent, ordered⟩ := t
  have := List.sizeOf_lt_of_mem h
  simp only [Value.table.sizeOf_spec, TableOf.mk.sizeOf_spec, Entries.mk.sizeOf_spec,
    Prod.mk.sizeOf_spec] at this ⊢
  omega

/-- Induction over values: the statement may be assumed for members, items and entries. -/
@[elab_as_elim, induction_eliminator]
theorem Value.induction {motive : Value → Prop}
    (null : motive .null) (bool : ∀ b, motive (.bool b)) (number : ∀ n, motive (.number n))
    (text : ∀ s, motive (.text s)) (fuId : ∀ s, motive (.fuId s))
    (tuple : ∀ items, (∀ v ∈ items, motive v) → motive (.tuple items))
    (sequence : ∀ items, (∀ v ∈ items, motive v) → motive (.sequence items))
    (table : ∀ t : Table, (∀ e ∈ t.entries.toList, motive e.2) → motive (.table t)) :
    ∀ v, motive v
  | .null => null
  | .bool b => bool b
  | .number n => number n
  | .text s => text s
  | .fuId s => fuId s
  | .tuple items => tuple items fun v _ =>
    Value.induction null bool number text fuId tuple sequence table v
  | .sequence items => sequence items fun v _ =>
    Value.induction null bool number text fuId tuple sequence table v
  | .table t => table t fun e _ =>
    Value.induction null bool number text fuId tuple sequence table e.2
termination_by v => sizeOf v
decreasing_by
  · have := List.sizeOf_lt_of_mem ‹v ∈ items›
    simp only [Value.tuple.sizeOf_spec]
    omega
  · exact Value.sizeOf_lt_of_mem_items ‹v ∈ items›
  · exact Value.sizeOf_lt_of_mem_entries ‹e ∈ t.entries.toList›

section Walks

variable {β : Type} {isNull : β → Bool} {f : Value → β} (hf : ∀ v, isNull (f v) = v.isNull)
include hf

/-- A walk that leaves null items null may be taken before they are dropped or afterwards. -/
theorem filter_items_map (items : List Value) :
    (items.map f).filter (!isNull ·) = (items.filter (!·.isNull)).map f := by
  rw [List.filter_map]
  congr 2
  funext v
  exact congrArg not (hf v)

/-- So may a walk that leaves null entries null. -/
theorem filter_entries_map (entries : List (Key × Value)) :
    (entries.map (fun e => (e.1, f e.2))).filter (!isNull ·.2) =
      (entries.filter (!·.2.isNull)).map (fun e => (e.1, f e.2)) := by
  rw [List.filter_map]
  congr 2
  funext e
  exact congrArg not (hf e.2)

end Walks

/-! ## Wording -/

/-- Which texts may stand where. -/
structure Wording where
  /-- The tags of tables. -/
  tag : String → Bool
  /-- The names of entries. -/
  key : String → Bool
  /-- The contents of texts and identifiers. -/
  content : String → Bool

/-- The wording that allows the same texts everywhere. -/
def Wording.everywhere (allowed : String → Bool) : Wording := ⟨allowed, allowed, allowed⟩

/-- Whether a key is worded as asked; frames and positions have no wording. -/
def Key.worded (w : Wording) : Key → Bool
  | .name s => w.key s
  | _ => true

mutual

/-- Whether all texts in a value are worded as asked. -/
def Value.worded (w : Wording) : Value → Bool
  | .text s => w.content s
  | .fuId s => w.content s
  | .tuple items => Value.allWorded w items
  | .sequence items => Value.allWorded w items
  | .table t => t.worded w
  | _ => true
termination_by structural v => v

def Value.allWorded (w : Wording) : List Value → Bool
  | [] => true
  | v :: rest => v.worded w && Value.allWorded w rest
termination_by structural l => l

/-- Whether the tag of a table, its keys, and all texts in it are worded as asked. -/
def TableOf.worded (w : Wording) : TableOf Value → Bool
  | ⟨name, ⟨entries⟩, _, _, _⟩ => w.tag name && Value.entriesWorded w entries
termination_by structural t => t

def Value.entriesWorded (w : Wording) : List (Key × Value) → Bool
  | [] => true
  | (k, v) :: rest => k.worded w && v.worded w && Value.entriesWorded w rest
termination_by structural l => l

end

theorem Value.allWorded_iff {w : Wording} {items : List Value} :
    Value.allWorded w items = true ↔ ∀ v ∈ items, v.worded w = true := by
  induction items with
  | nil => simp [Value.allWorded]
  | cons v rest ih => simp [Value.allWorded, ih]

theorem Value.entriesWorded_iff {w : Wording} {entries : List (Key × Value)} :
    Value.entriesWorded w entries = true ↔
      ∀ e ∈ entries, e.1.worded w = true ∧ e.2.worded w = true := by
  induction entries with
  | nil => simp [Value.entriesWorded]
  | cons e rest ih => simp [Value.entriesWorded, ih]

@[simp] theorem Value.worded_tuple {w : Wording} {items : List Value} :
    (Value.tuple items).worded w = true ↔ ∀ v ∈ items, v.worded w = true :=
  Value.allWorded_iff

@[simp] theorem Value.worded_sequence {w : Wording} {items : List Value} :
    (Value.sequence items).worded w = true ↔ ∀ v ∈ items, v.worded w = true :=
  Value.allWorded_iff

theorem TableOf.worded_iff {w : Wording} {t : TableOf Value} :
    t.worded w = true ↔
      w.tag t.name = true ∧ ∀ e ∈ t.entries.toList, e.1.worded w = true ∧ e.2.worded w = true := by
  obtain ⟨name, ⟨entries⟩, forceIndent, forceUnindent, ordered⟩ := t
  rw [TableOf.worded, Bool.and_eq_true, Value.entriesWorded_iff]

end SceneScript
