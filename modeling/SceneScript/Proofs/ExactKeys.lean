import SceneScript.Proofs.ExactOrder
import SceneScript.Value.Basic

/-!
# What keys stand for

A key stands for a name, for the exact value of a frame, or for a position, and two keys are equal
exactly if they stand for the same. A frame that is `nan` stands for nothing. Such a key has a place
in the order of keys, behind all other frames and beside every other `nan`, but it does not equal
itself: what is written under it is never found, and no later write replaces it.

Main statements:

- `Key.beq_iff_exactKey?`: equality of keys is that of what they stand for;
- `Key.beq_self`, `Key.compare_eq_eq_iff`: equality and order agree on all keys but those of `nan`;
- `TableOf.find?_insert_same`: exactly under those a write is lost;
- `Key.equality_and_order`: the laws of both, with what becomes of `nan`.
-/

namespace SceneScript

/-- What a key may stand for. -/
inductive ExactKey
  | name (name : String)
  | frame (value : ExtendedRat)
  | index (position : Nat)
deriving DecidableEq

theorem Number.totalCompare_eq_eq_iff {a b : Number} :
    a.totalCompare b = .eq ↔ (a == b) = true ∨ a.isNaN = true ∧ b.isNaN = true := by
  rw [totalCompare_eq, beq_iff, ← place?_eq_none_iff, ← place?_eq_none_iff]
  cases a.place? with
  | none => cases b.place? <;> simp
  | some p =>
    cases b.place? with
    | none => simp
    | some q => simp [Place.compare_eq_iff, eq_comm (a := q)]

namespace Key

/-- Whether a key is a frame that is `nan`. -/
def isNaN : Key → Bool
  | .frame n => n.isNaN
  | _ => false

/-- What a key stands for. -/
def exactKey? : Key → Option ExactKey
  | .name s => some (.name s)
  | .frame n => n.exactValue?.map .frame
  | .index i => some (.index i)

theorem exactKey?_eq_none_iff {k : Key} : k.exactKey? = none ↔ k.isNaN = true := by
  cases k with
  | frame n => exact Option.map_eq_none_iff.trans Number.exactValue?_eq_none_iff
  | name s => exact ⟨nofun, nofun⟩
  | index i => exact ⟨nofun, nofun⟩

theorem exists_exactKey? {k : Key} (h : k.isNaN = false) : ∃ e, k.exactKey? = some e := by
  refine Option.ne_none_iff_exists'.1 fun hnone => ?_
  rw [exactKey?_eq_none_iff.1 hnone] at h
  cases h

/-- Keys are equal exactly if they stand for the same. -/
theorem beq_iff_exactKey? {a b : Key} :
    (a == b) = true ↔ ∃ e, a.exactKey? = some e ∧ b.exactKey? = some e := by
  cases a <;> cases b
  case name.name a b => simp [exactKey?, eq_comm (a := a)]
  case index.index a b => simp [exactKey?, eq_comm (a := a)]
  case frame.frame a b =>
    rw [beq_frame, Number.beq_iff_exactValue?]
    constructor
    · rintro ⟨v, ha, hb⟩
      exact ⟨.frame v, by rw [exactKey?, ha]; rfl, by rw [exactKey?, hb]; rfl⟩
    · rintro ⟨e, ha, hb⟩
      obtain ⟨v, hv, rfl⟩ := Option.map_eq_some_iff.1 ha
      obtain ⟨w, hw, hvw⟩ := Option.map_eq_some_iff.1 hb
      exact ⟨v, hv, by rw [hw, ExactKey.frame.inj hvw]⟩
  -- keys of two kinds are never equal and never stand for the same
  all_goals
    refine ⟨nofun, ?_⟩
    rintro ⟨e, ha, hb⟩
    simp only [exactKey?, Option.map_eq_some_iff, Option.some.injEq] at ha hb
    grind

/-- Which keys equal one that is known to stand for something. -/
theorem beq_eq_decide {a b : Key} {e : ExactKey} (ha : a.exactKey? = some e) :
    (a == b) = decide (b.exactKey? = some e) := by
  rw [Bool.eq_iff_iff, decide_eq_true_iff, beq_iff_exactKey?, ha]
  constructor
  · rintro ⟨e', he, hb⟩
    rw [hb, he]
  · intro hb
    exact ⟨e, rfl, hb⟩

theorem beq_self (a : Key) : (a == a) = !a.isNaN := by
  cases a with
  | frame n => exact n.beq_self
  | name s => exact beq_self_eq_true s
  | index i => exact beq_self_eq_true i

/-- Only keys of `nan` share a place in the order without being equal. -/
theorem compare_eq_eq_iff {a b : Key} :
    a.compare b = .eq ↔ (a == b) = true ∨ a.isNaN = true ∧ b.isNaN = true := by
  cases a <;> cases b
  case frame.frame a b => exact Number.totalCompare_eq_eq_iff
  case name.name a b => simp [Key.compare, isNaN]
  case index.index a b => simp [Key.compare, isNaN]
  all_goals exact ⟨nofun, nofun⟩

/-- Nothing equals a key of `nan`. -/
theorem beq_of_isNaN {a : Key} (h : a.isNaN = true) (b : Key) : (a == b) = false := by
  refine Bool.eq_false_iff.2 fun hab => ?_
  have hself : (a == a) = true := PartialEquivBEq.trans hab (PartialEquivBEq.symm hab)
  rw [beq_self, h] at hself
  cases hself

end Key

namespace TableOf

variable {α : Type}

/-- Nothing is found under a key of `nan`. -/
theorem find?_of_isNaN (t : TableOf α) {k : Key} (h : k.isNaN = true) : t.find? k = none := by
  refine List.lookup_eq_none_iff.2 fun e _ => ?_
  rw [bne, Key.beq_of_isNaN h, Bool.not_false]

/-- What was just written is found, except under a key of `nan`. -/
theorem find?_insert_same (t : TableOf α) (k : Key) (v : α) :
    (t.insert k v).find? k = if k.isNaN then none else some v := by
  cases h : k.isNaN with
  | true => exact (t.insert k v).find?_of_isNaN h
  | false => exact t.find?_insert_self (by rw [Key.beq_self, h]; rfl) v

end TableOf

namespace Key

/-- **Equality and order of keys.** Keys are equal exactly if they stand for the same, which is a
symmetric and transitive relation; the order is total, transitive and reversed by swapping. All but
the keys of `nan` equal themselves, are found when they were just written, and share a place in the
order only with equal ones; the keys of `nan` all share one place and are never found. -/
theorem equality_and_order (a b c : Key) (t : Table) (v : Value) :
    ((a == b) = true ↔ ∃ e, a.exactKey? = some e ∧ b.exactKey? = some e) ∧
    (a == a) = !a.isNaN ∧
    (a == b) = (b == a) ∧
    ((a == b) = true → (b == c) = true → (a == c) = true) ∧
    ((a.compare b).isLE ∨ (b.compare a).isLE) ∧
    ((a.compare b).isLE → (b.compare c).isLE → (a.compare c).isLE) ∧
    a.compare b = (b.compare a).swap ∧
    (a.compare b = .eq ↔ (a == b) = true ∨ a.isNaN = true ∧ b.isNaN = true) ∧
    (t.insert a v).find? a = if a.isNaN then none else some v := by
  refine ⟨beq_iff_exactKey?, a.beq_self, BEq.comm, BEq.trans, isLE_total a b, isLE_trans,
    compare_swap a b, compare_eq_eq_iff, t.find?_insert_same a v⟩

/-- The frame `nan` differs from itself, even where the order has them equal, and what is written
under it is lost. -/
theorem not_beq_self_nan :
    let k : Key := .frame (.float .nan)
    (k == k) = false ∧ k.compare k = .eq ∧ ((∅ : Table).insert k (.bool true)).find? k = none := by
  refine ⟨rfl, rfl, rfl⟩

end Key

end SceneScript
