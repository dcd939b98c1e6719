import SceneScript.Value.Basic

/-!
# Equality of values

Numbers are equal numerically and tables regardless of the order of their entries: same tag, same
switches, same number of entries, and each entry of the one equal to the other's under the same key.
Tuples and sequences are compared in order.
-/

namespace SceneScript

mutual

/-- Equality of values. -/
def Value.equal : Value → Value → Bool
  | .null, .null => true
  | .bool a, .bool b => a == b
  | .number a, .number b => a == b
  | .text a, .text b => a == b
  | .fuId a, .fuId b => a == b
  | .tuple as, .tuple bs => Value.equalAll as bs
  | .sequence as, .sequence bs => Value.equalAll as bs
  | .table a, .table b => a.equal b
  | _, _ => false
termination_by structural v => v

/-- Equality of lists, item by item. -/
def Value.equalAll : List Value → List Value → Bool
  | [], [] => true
  | a :: as, b :: bs => a.equal b && Value.equalAll as bs
  | _, _ => false
termination_by structural l => l

/-- Equality of tables, whatever the order of their entries. -/
def TableOf.equal : TableOf Value → TableOf Value → Bool
  | ⟨name, ⟨entries⟩, forceIndent, forceUnindent, ordered⟩, other =>
    name == other.name && entries.length == other.size && Value.allWithin entries other.entries &&
      forceIndent == other.forceIndent && forceUnindent == other.forceUnindent &&
      ordered == other.ordered
termination_by structural t => t

/-- Whether every entry of a list has an equal value under its key in a map. -/
def Value.allWithin : List (Key × Value) → Entries Key Value → Bool
  | [], _ => true
  | (k, v) :: rest, m =>
    (match m.find? k with
      | some w => v.equal w
      | none => false) && Value.allWithin rest m
termination_by structural l => l

end

instance : BEq Value := ⟨Value.equal⟩

instance : BEq (TableOf Value) := ⟨TableOf.equal⟩

end SceneScript
