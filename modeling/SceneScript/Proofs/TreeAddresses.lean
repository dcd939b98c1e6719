import Mathlib.Data.List.Basic
import SceneScript.Proofs.ValueTree

/-!
# Addresses in a tree

What is written inside a table are the values of its entries, and inside a sequence its items, in
the order of writing and without those that hold nothing. An address leads from the outside to the
inside: for each table or sequence on the way it has the number of the value to go to. So an address
is as long as there are tables and sequences around the place.

The lexicographic order of addresses is that of a walk through the tree. A value comes before all
that is inside it, and this before all that follows the value. The tables of a tree are listed in
that order.

Main statements:

- `Value.written_induction`: induction over values, from what is written inside to the value;
- `Value.mem_occurrences`: the tables that are listed are those at the addresses of the tree;
- `Value.pairwise_occurrences`: they are listed in the order of their addresses.
-/

namespace SceneScript

/-- The numbers of a numbered list ascend. -/
theorem pairwise_zipIdx {α : Type} (l : List α) : l.zipIdx.Pairwise (·.2 < ·.2) := by
  rw [← List.pairwise_map (f := Prod.snd) (R := (· < ·)), List.zipIdx_map_snd]
  exact List.pairwise_lt_range' 1

namespace Value

/-- The values that are written inside a value, in order: the entries of a table and the items of a
sequence that hold something. -/
def written : Value → List Value
  | .table t => t.written.map Prod.snd
  | .sequence items => items.filter (!·.isNull)
  | _ => []

theorem sizeOf_lt_of_mem_written {v w : Value} (h : w ∈ v.written) : sizeOf w < sizeOf v := by
  cases v with
  | table t =>
    obtain ⟨e, he, rfl⟩ := List.mem_map.1 h
    exact sizeOf_lt_of_mem_entries (TableOf.mem_written.1 he).1
  | sequence items => exact sizeOf_lt_of_mem_items (List.mem_filter.1 h).1
  | _ => cases h

/-- Induction over values, from what is written inside a value to the value. -/
theorem written_induction {motive : Value → Prop}
    (step : ∀ v, (∀ w ∈ v.written, motive w) → motive v) (v : Value) : motive v :=
  step v fun w _ => written_induction step w
termination_by sizeOf v
decreasing_by exact sizeOf_lt_of_mem_written ‹_›

/-- The value at an address. -/
def at? : Value → List Nat → Option Value
  | v, [] => some v
  | v, i :: p => v.written[i]?.bind (·.at? p)

end Value

/-! ## Occurrences of tables -/

/-- A table of a tree, at its address. -/
structure Occurrence where
  address : List Nat
  table : Table

namespace Occurrence

/-- An occurrence in the value with the given number, seen from around that value. -/
def under (i : Nat) (o : Occurrence) : Occurrence := ⟨i :: o.address, o.table⟩

@[simp] theorem address_under (i : Nat) (o : Occurrence) : (o.under i).address = i :: o.address :=
  rfl

end Occurrence

namespace Value

/-- The value itself, if it is a table. -/
def self : Value → List Occurrence
  | .table t => [⟨[], t⟩]
  | _ => []

/-- The tables of a tree, each before those inside it. -/
def occurrences (v : Value) : List Occurrence :=
  v.self ++ v.written.attach.zipIdx.flatMap (fun e => e.1.1.occurrences.map (.under e.2))
termination_by sizeOf v
decreasing_by exact sizeOf_lt_of_mem_written e.1.2

theorem occurrences_eq (v : Value) :
    v.occurrences =
      v.self ++ v.written.zipIdx.flatMap (fun e => e.1.occurrences.map (.under e.2)) := by
  have hwritten : v.written.zipIdx = v.written.attach.zipIdx.map (Prod.map Subtype.val id) := by
    rw [← List.zipIdx_map, List.attach_map_subtype_val]
  rw [occurrences, hwritten, List.flatMap_map]
  rfl

theorem mem_self {v : Value} {o : Occurrence} :
    o ∈ v.self ↔ o.address = [] ∧ v = .table o.table := by
  obtain ⟨address, t⟩ := o
  cases v <;> simp [self, eq_comm]

/-- The tables that are listed are those at the addresses of the tree. -/
theorem mem_occurrences {v : Value} {o : Occurrence} :
    o ∈ v.occurrences ↔ v.at? o.address = some (.table o.table) := by
  induction v using written_induction generalizing o with
  | step v ih =>
    rw [occurrences_eq, List.mem_append, mem_self, List.mem_flatMap]
    obtain ⟨address, t⟩ := o
    cases address with
    | nil => simp [at?, Occurrence.under]
    | cons i p =>
      simp only [reduceCtorEq, false_and, false_or, at?, Option.bind_eq_some_iff]
      constructor
      · rintro ⟨⟨w, i⟩, he, ho⟩
        obtain ⟨o, hinside, hunder⟩ := List.mem_map.1 ho
        cases hunder
        have hw : v.written[i]? = some w := List.mem_zipIdx_iff_getElem?.1 he
        exact ⟨w, hw, (ih w (List.mem_of_getElem? hw)).1 hinside⟩
      · rintro ⟨w, hw, hat⟩
        have hinside : ⟨p, t⟩ ∈ w.occurrences := (ih w (List.mem_of_getElem? hw)).2 hat
        exact ⟨(w, i), List.mem_zipIdx_iff_getElem?.2 hw, List.mem_map_of_mem hinside⟩

/-- They are listed in the order of addresses. -/
theorem pairwise_occurrences (v : Value) : v.occurrences.Pairwise (·.address < ·.address) := by
  induction v using written_induction with
  | step v ih =>
    rw [occurrences_eq, List.pairwise_append, List.pairwise_flatMap]
    refine ⟨?_, ⟨fun e he => ?_, ?_⟩, ?_⟩
    · cases v <;> simp [self]
    · -- inside one of the values
      have hw := List.mem_of_getElem? (List.mem_zipIdx_iff_getElem?.1 he)
      refine List.pairwise_map.2 ((ih e.1 hw).imp fun h => ?_)
      exact List.cons_lt_cons_iff.2 (.inr ⟨rfl, h⟩)
    · -- from one of the values to a later one
      refine (pairwise_zipIdx v.written).imp fun hlt => ?_
      simp only [List.forall_mem_map]
      exact fun o _ q _ => List.cons_lt_cons_iff.2 (.inl hlt)
    · -- from the whole to what is inside
      intro o ho q hq
      obtain ⟨e, -, hq⟩ := List.mem_flatMap.1 hq
      obtain ⟨q, -, rfl⟩ := List.mem_map.1 hq
      rw [(mem_self.1 ho).1]
      exact List.nil_lt_cons _ _

end Value

end SceneScript
