import Mathlib.Data.List.Basic
import SceneScript.Proofs.KeyOrder
import SceneScript.Proofs.ValueTree
import SceneScript.Render

/-!
# Nulls leave no trace

`prune` takes everything that holds nothing out of a tree: entries of tables and items of sequences,
at every depth. Tuples keep their members, since a member that holds nothing is a fault there.

A pruned table is written piece by piece like the table itself. Three places have to agree for this:
the count that decides between block and line, the writer of entries, and the writer of items; and
entries of an ordered table are put into order first and skipped afterwards, so that keys of null
entries take part in the sorting.

Main statements:

- `Value.pieces_prune`: a pruned value has the same pieces, at every level;
- `render_prune`: it has the same text or the same fault, and the same layout.
-/

namespace SceneScript

mutual

/-- A value without the entries and items inside it that hold nothing. -/
def Value.prune : Value → Value
  | .table t => .table t.prune
  | .sequence items => .sequence (Value.pruneItems items)
  | v => v
termination_by structural v => v

def Value.pruneItems : List Value → List Value
  | [] => []
  | v :: rest => if v.isNull then Value.pruneItems rest else v.prune :: Value.pruneItems rest
termination_by structural l => l

/-- A table without the entries and items, at any depth, that hold nothing. -/
def TableOf.prune : TableOf Value → TableOf Value
  | ⟨name, ⟨entries⟩, forceIndent, forceUnindent, ordered⟩ =>
    ⟨name, ⟨Value.pruneEntries entries⟩, forceIndent, forceUnindent, ordered⟩
termination_by structural t => t

def Value.pruneEntries : List (Key × Value) → List (Key × Value)
  | [] => []
  | (k, v) :: rest =>
    if v.isNull then Value.pruneEntries rest else (k, v.prune) :: Value.pruneEntries rest
termination_by structural l => l

end

namespace Value

theorem pruneItems_eq (items : List Value) :
    pruneItems items = (items.filter (!·.isNull)).map prune := by
  induction items with
  | nil => rfl
  | cons v rest ih => cases h : v.isNull <;> simp [pruneItems, h, ih]

theorem pruneEntries_eq (entries : List (Key × Value)) :
    pruneEntries entries =
      (entries.filter (!·.2.isNull)).map (fun e => (e.1, e.2.prune)) := by
  induction entries with
  | nil => rfl
  | cons e rest ih =>
    obtain ⟨k, v⟩ := e
    cases h : v.isNull <;> simp [pruneEntries, h, ih]

@[simp] theorem isNull_prune (v : Value) : v.prune.isNull = v.isNull := by
  cases v <;> rfl

theorem countNonNull_pruneItems (items : List Value) :
    countNonNull (pruneItems items) = countNonNull items := by
  rw [pruneItems_eq, countNonNull, countNonNull, List.countP_map, List.countP_filter]
  refine List.countP_congr ?_
  intro v _
  simp

end Value

namespace TableOf

/-- Pruning changes the entries of a table and nothing else of it. -/
theorem prune_eq (t : TableOf Value) :
    t.prune = { t with entries := ⟨Value.pruneEntries t.entries.toList⟩ } := by
  obtain ⟨name, ⟨entries⟩, forceIndent, forceUnindent, ordered⟩ := t
  rfl

theorem entries_prune (t : TableOf Value) :
    t.prune.entries.toList =
      (t.entries.toList.filter (!·.2.isNull)).map (fun e => (e.1, e.2.prune)) := by
  rw [prune_eq, Value.pruneEntries_eq]

/-- Null entries take part in the sorting without moving the others. -/
theorem written_prune (t : TableOf Value) :
    t.prune.written = t.written.map (fun e => (e.1, e.2.prune)) := by
  have hordered : t.prune.ordered = t.ordered := by rw [prune_eq]
  have htwice : t.written.filter (!·.2.isNull) = t.written := by
    rw [written, List.filter_filter]
    simp only [Bool.and_self]
  have hkept := filter_entries_map Value.isNull_prune t.written
  rw [htwice] at hkept
  -- the filter of pruning meets that of writing behind the sorting
  rw [written, arranged, hordered, entries_prune, arrange_map, ← filter_arrange]
  exact hkept

theorem length_prune (t : TableOf Value) : t.prune.length = t.length := by
  rw [length, length, Entries.values, Entries.values, entries_prune, List.map_map]
  rw [Value.countNonNull, Value.countNonNull, List.countP_map, List.countP_map, List.countP_filter]
  refine List.countP_congr ?_
  intro e _
  simp

end TableOf

/-! ## Layout -/

theorem Value.not_isNull_of_indents {v : Value} (h : v.indents = true) : v.isNull = false := by
  cases v <;> first | rfl | cases h

/-- A pruned table is laid out like the table, if its values count for the layout as before. -/
theorem TableOf.mustIndent_prune_of_forall {t : TableOf Value}
    (h : ∀ e ∈ t.entries.toList, e.2.prune.indents = e.2.indents) :
    t.prune.mustIndent = t.mustIndent := by
  have hany : t.prune.entries.toList.any (fun e => e.2.indents) =
      t.entries.toList.any (fun e => e.2.indents) := by
    rw [entries_prune, List.any_map, Bool.eq_iff_iff, List.any_eq_true, List.any_eq_true]
    -- what asks for a block is no null entry, so it is still there
    constructor
    · rintro ⟨e, he, hi⟩
      have he := (List.mem_filter.1 he).1
      exact ⟨e, he, (h e he).symm.trans hi⟩
    · rintro ⟨e, he, hi⟩
      have hn : (!e.2.isNull) = true := by rw [Value.not_isNull_of_indents hi]; rfl
      exact ⟨e, List.mem_filter.2 ⟨he, hn⟩, (h e he).trans hi⟩
  rw [mustIndent_eq, mustIndent_eq, hany, length_prune, prune_eq]

theorem Value.indents_prune (v : Value) : v.prune.indents = v.indents := by
  induction v with
  | sequence items _ =>
    show decide (2 ≤ countNonNull (pruneItems items)) = decide (2 ≤ countNonNull items)
    rw [countNonNull_pruneItems]
  | table t ih => exact TableOf.mustIndent_prune_of_forall ih
  | _ => rfl

/-- Null entries and null items do not decide between block and line. -/
theorem TableOf.mustIndent_prune (t : TableOf Value) : t.prune.mustIndent = t.mustIndent :=
  mustIndent_prune_of_forall fun e _ => Value.indents_prune e.2

/-! ## Pieces -/

/-- A pruned table is written like the table, if its values are. -/
theorem TableOf.pieces_prune_of_forall {t : TableOf Value} {level : Nat}
    (h : ∀ e ∈ t.entries.toList, e.2.prune.pieces level = e.2.pieces level) :
    t.prune.pieces level = t.pieces level := by
  have hname : t.prune.name = t.name := by rw [prune_eq]
  rw [pieces_eq, pieces_eq, mustIndent_prune, hname, written_prune, List.flatMap_map]
  congr 2
  refine List.flatMap_congr ?_
  intro e he
  rw [h e (mem_written.1 he).1]

/-- A pruned value has the pieces of the value itself. -/
theorem Value.pieces_prune (v : Value) (level : Nat) : v.prune.pieces level = v.pieces level := by
  induction v generalizing level with
  | sequence items ih =>
    have hkept : (pruneItems items).filter (!·.isNull) =
        (items.filter (!·.isNull)).map prune := by
      have hprune := filter_items_map isNull_prune (items.filter (!·.isNull))
      rw [List.filter_filter] at hprune
      simp only [Bool.and_self] at hprune
      rw [pruneItems_eq]
      exact hprune
    have hitems : itemPieces (level + 1) (pruneItems items) = itemPieces (level + 1) items := by
      rw [itemPieces_eq, itemPieces_eq, hkept, List.flatMap_map]
      refine List.flatMap_congr ?_
      intro v hv
      rw [ih v (List.mem_filter.1 hv).1]
    show .text "[" :: .newline :: itemPieces (level + 1) (pruneItems items) ++ _ = _
    rw [hitems]
    rfl
  | table t ih => exact TableOf.pieces_prune_of_forall fun e he => ih e he (level + 1)
  | _ => rfl

/-- **Nulls leave no trace**: taking them out of a tree, at every depth, changes neither its text or
its fault nor its layout. -/
theorem render_prune (t : Table) :
    t.prune.render = t.render ∧ t.prune.mustIndent = t.mustIndent := by
  constructor
  · have hpieces : t.prune.pieces 1 = t.pieces 1 :=
      TableOf.pieces_prune_of_forall fun e _ => Value.pieces_prune e.2 1
    rw [TableOf.render, TableOf.render, hpieces]
  · exact TableOf.mustIndent_prune t

end SceneScript
