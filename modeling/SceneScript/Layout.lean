import SceneScript.Value.Basic

/-!
# Blocks and lines

Every table decides for itself whether it is written as a block or on one line. It is one line if it
is forced to be; otherwise it is a block if that is forced, if it has two entries to write, if a
table directly inside is a block, or if a sequence directly inside has two items to write.
-/

namespace SceneScript

mutual

/-- Whether a table is written as a block. -/
def TableOf.mustIndent : TableOf Value → Bool
  | ⟨name, ⟨entries⟩, forceIndent, forceUnindent, ordered⟩ =>
    !forceUnindent &&
      (forceIndent ||
        decide (2 ≤ (⟨name, ⟨entries⟩, forceIndent, forceUnindent, ordered⟩ : Table).length) ||
        Value.anyIndents entries)
termination_by structural t => t

/-- Whether a value makes the table around it a block. -/
def Value.indents : Value → Bool
  | .table t => t.mustIndent
  | .sequence items => decide (2 ≤ Value.countNonNull items)
  | _ => false
termination_by structural v => v

def Value.anyIndents : List (Key × Value) → Bool
  | [] => false
  | (_, v) :: rest => v.indents || Value.anyIndents rest
termination_by structural l => l

end

theorem Value.anyIndents_eq (entries : List (Key × Value)) :
    Value.anyIndents entries = entries.any (fun e => e.2.indents) := by
  induction entries with
  | nil => rfl
  | cons e rest ih => simp [Value.anyIndents, ih]

namespace TableOf

/-- The rule of the layout, read off the table's parts. -/
theorem mustIndent_eq (t : TableOf Value) :
    t.mustIndent = (!t.forceUnindent &&
      (t.forceIndent || decide (2 ≤ t.length) || t.entries.toList.any (fun e => e.2.indents))) := by
  obtain ⟨name, ⟨entries⟩, forceIndent, forceUnindent, ordered⟩ := t
  rw [← Value.anyIndents_eq]
  rfl

@[simp] theorem mustIndent_of_forceUnindent {t : TableOf Value} (h : t.forceUnindent = true) :
    t.mustIndent = false := by
  simp [mustIndent_eq, h]

end TableOf

end SceneScript
