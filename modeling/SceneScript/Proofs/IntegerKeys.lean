import Mathlib.Data.List.Forall2
import SceneScript.Datum
import SceneScript.Proofs.InsertionOrder
import SceneScript.Proofs.RoundingBounds

/-!
# Maps with integer keys

A map from integers of any width becomes a table of frames. Up to the largest signed 64-bit integer
the frame is the integer itself, and beyond it is the nearest double. These doubles start where the
integers end, so the two kinds never meet, but they are 2048 apart, so two keys beyond the limit may
become the same double. Then the second entry takes the place of the first. It is the only way in
which entries are lost.

Main statements:

- `MachineInt.toNumber_beq_iff`: which different integers are equal as numbers;
- `not_forall_keepsAll`: entries are lost though all keys are different;
- `toValue_integerMap`: nothing is lost exactly if no two keys beyond the limit round to the same
  double.
-/

namespace SceneScript

namespace Binary64

/-- Other than at zero there is one double at a place. -/
theorem eq_of_place? {x y : Binary64} {q : Int} (hq : 0 < q) (hx : x.place? = some (.quanta q))
    (hy : y.place? = some (.quanta q)) : x = y := by
  have hpositive : ∀ {z : Binary64}, z.place? = some (.quanta q) →
      ∃ size : Magnitude, z = .finite false size ∧ (size.quanta : Int) = q := by
    intro z hz
    obtain ⟨negative, size, rfl, rfl⟩ := exists_of_place? hz
    cases negative with
    | true =>
      rw [signedQuanta, if_pos rfl] at hq
      omega
    | false => exact ⟨size, rfl, rfl⟩
  obtain ⟨size, rfl, hsize⟩ := hpositive hx
  obtain ⟨size', rfl, hsize'⟩ := hpositive hy
  rw [Magnitude.ext_quanta (Int.natCast_inj.1 (hsize.trans hsize'.symm))]

/-- From `2 ^ 63` on the double nearest to an integer is not below `2 ^ 63`. -/
theorem place?_ofInt_of_large {i : Int} (hlow : 0x8000000000000000 ≤ i)
    (hhigh : i ≤ 0x10000000000000000) :
    ∃ q, (ofInt i).place? = some (.quanta q) ∧ 0x8000000000000000 * unit ≤ q := by
  have hunit : (0 : Int) ≤ unit := Int.le_of_lt unit_cast_pos
  have hlo : IsDouble (0x8000000000000000 * unit) := isDouble_of_place? Number.place?_integerLimit
  have hhi : IsDouble (0x10000000000000000 * unit) :=
    isDouble_mul_unit (m := 1) (k := 64) (by decide) (by decide) (Nat.le_refl _)
  obtain ⟨q, hq, hge, -⟩ := place?_ofInt_between hlo hhi
    (Int.mul_le_mul_of_nonneg_right hlow hunit) (Int.mul_le_mul_of_nonneg_right hhigh hunit)
  exact ⟨q, hq, hge⟩

end Binary64

theorem Number.eq_place_of_beq {a b : Number} {p q : Int} (h : (a == b) = true)
    (ha : a.place? = some (.quanta p)) (hb : b.place? = some (.quanta q)) : p = q := by
  obtain ⟨place, hplace, hplace'⟩ := beq_iff.1 h
  cases ha.symm.trans hplace
  cases hb.symm.trans hplace'
  rfl

namespace MachineInt

open Binary64 (unit)

/-! ## The numbers of machine integers -/

/-- Whether an integer is beyond all signed ones of 64 bits. -/
def IsLarge (m : MachineInt) : Prop := 0x8000000000000000 ≤ m.toInt

instance (m : MachineInt) : Decidable m.IsLarge := inferInstanceAs (Decidable (_ ≤ _))

theorem toInt_bounds (m : MachineInt) :
    -0x8000000000000000 ≤ m.toInt ∧ m.toInt < 0x10000000000000000 := by
  have unsigned : ∀ {n : Nat}, n < 0x10000000000000000 →
      -0x8000000000000000 ≤ (n : Int) ∧ (n : Int) < 0x10000000000000000 := by omega
  cases m with
  | int8 v => exact ⟨Int.le_trans (by decide) v.le_toInt, Int.lt_trans v.toInt_lt (by decide)⟩
  | int16 v => exact ⟨Int.le_trans (by decide) v.le_toInt, Int.lt_trans v.toInt_lt (by decide)⟩
  | int32 v => exact ⟨Int.le_trans (by decide) v.le_toInt, Int.lt_trans v.toInt_lt (by decide)⟩
  | int64 v => exact ⟨Int.le_trans (by decide) v.le_toInt, Int.lt_trans v.toInt_lt (by decide)⟩
  | uint8 v => exact unsigned (Nat.lt_of_lt_of_le v.toNat_lt (by decide))
  | uint16 v => exact unsigned (Nat.lt_of_lt_of_le v.toNat_lt (by decide))
  | uint32 v => exact unsigned (Nat.lt_of_lt_of_le v.toNat_lt (by decide))
  | uint64 v => exact unsigned (Nat.lt_of_lt_of_le v.toNat_lt (by decide))

theorem toNumber_of_large {m : MachineInt} (h : m.IsLarge) :
    m.toNumber = .float (.ofInt m.toInt) := by
  have hfits : ¬ Number.Fits m.toInt := fun hfits => absurd hfits.2 (Int.not_lt.2 h)
  rw [toNumber, Number.ofInt?_eq_none.2 hfits]
  rfl

/-- Within the limit the place of a number is that of the integer. -/
theorem place?_of_not_large {m : MachineInt} (h : ¬ m.IsLarge) :
    m.toNumber.place? = some (.quanta (m.toInt * unit)) := by
  have hfits : Number.Fits m.toInt := ⟨m.toInt_bounds.1, Int.not_le.1 h⟩
  rw [toNumber_of_fits hfits, Number.place?, Number.toInt_ofInt hfits]

/-- Beyond the limit it is not below the limit. -/
theorem place?_of_large {m : MachineInt} (h : m.IsLarge) :
    ∃ q, m.toNumber.place? = some (.quanta q) ∧ 0x8000000000000000 * unit ≤ q := by
  rw [toNumber_of_large h]
  exact Binary64.place?_ofInt_of_large h (Int.le_of_lt m.toInt_bounds.2)

theorem beq_self_toNumber (m : MachineInt) : (m.toNumber == m.toNumber) = true := by
  by_cases hm : m.IsLarge
  · obtain ⟨q, hq, -⟩ := place?_of_large hm
    exact Number.beq_iff.2 ⟨_, hq, hq⟩
  · exact Number.beq_iff.2 ⟨_, place?_of_not_large hm, place?_of_not_large hm⟩

/-- An integer within the limit is no double beyond it. -/
theorem not_large_of_beq {m m' : MachineInt} (hm : ¬ m.IsLarge)
    (hbeq : (m.toNumber == m'.toNumber) = true) : ¬ m'.IsLarge := by
  intro hm'
  obtain ⟨q, hq, hge⟩ := place?_of_large hm'
  rw [← Number.eq_place_of_beq hbeq (place?_of_not_large hm) hq] at hge
  exact hm (Int.le_of_mul_le_mul_right hge Binary64.unit_cast_pos)

/-- **Which different integers are equal as numbers**: those beyond the limit that round to the same
double. -/
theorem toNumber_beq_iff {m m' : MachineInt} (hne : m.toInt ≠ m'.toInt) :
    (m.toNumber == m'.toNumber) = true ↔
      m.IsLarge ∧ m'.IsLarge ∧ Binary64.ofInt m.toInt = Binary64.ofInt m'.toInt := by
  have hunit : (0 : Int) < unit := Binary64.unit_cast_pos
  constructor
  · intro hbeq
    by_cases hm : m.IsLarge
    · have hm' : m'.IsLarge := by
        by_contra hm'
        exact not_large_of_beq hm' (BEq.symm hbeq) hm
      obtain ⟨q, hq, hge⟩ := place?_of_large hm
      obtain ⟨q', hq', -⟩ := place?_of_large hm'
      obtain rfl := Number.eq_place_of_beq hbeq hq hq'
      rw [toNumber_of_large hm] at hq
      rw [toNumber_of_large hm'] at hq'
      have hpos : 0 < q := Int.lt_of_lt_of_le (Int.mul_pos (by decide) hunit) hge
      exact ⟨hm, hm', Binary64.eq_of_place? hpos hq hq'⟩
    · have hm' := not_large_of_beq hm hbeq
      have hplaces := Number.eq_place_of_beq hbeq (place?_of_not_large hm)
        (place?_of_not_large hm')
      exact absurd (Int.eq_of_mul_eq_mul_right (Int.ne_of_gt hunit) hplaces) hne
  · rintro ⟨hm, hm', heq⟩
    have hsame : m'.toNumber = m.toNumber := by
      rw [toNumber_of_large hm, toNumber_of_large hm', heq]
    rw [hsame]
    exact m.beq_self_toNumber

end MachineInt

/-! ## Tables of frames -/

/-- A map with integer keys. -/
def integerMap (entries : List (MachineInt × Datum)) : Datum :=
  .ofPairs (entries.map fun e => (.integer e.1, e.2))

/-- The entries of its table: each value under the number of its key. -/
def frameEntries (entries : List (MachineInt × Datum)) (values : List Value) :
    List (Key × Value) :=
  (entries.zip values).map fun p => (.frame p.1.1.toNumber, p.2)

/-- Whether a table has as many entries as a map, and each value under its key. -/
def TableOf.KeepsAll (t : Table) (entries : List (MachineInt × Datum)) (values : List Value) :
    Prop :=
  t.size = entries.length ∧
    List.Forall₂ (fun e v => t.find? (.frame e.1.toNumber) = some v) entries values

/-- Whether two entries have keys that do not become the same double. -/
def RoundApart (e e' : MachineInt × Datum) : Prop :=
  e.1.IsLarge → e'.1.IsLarge → Binary64.ofInt e.1.toInt ≠ Binary64.ofInt e'.1.toInt

instance (e e' : MachineInt × Datum) : Decidable (RoundApart e e') :=
  inferInstanceAs (Decidable (_ → _ → _))

/-- Different keys stay apart as numbers exactly if they do not become the same double. -/
theorem beq_eq_false_iff_roundApart {e e' : MachineInt × Datum} (hne : e.1.toInt ≠ e'.1.toInt) :
    (e'.1.toNumber == e.1.toNumber) = false ↔ RoundApart e e' := by
  rw [BEq.comm, ← Bool.not_eq_true, MachineInt.toNumber_beq_iff hne, RoundApart]
  tauto

section Maps

variable {entries : List (MachineInt × Datum)} {values : List Value}
  (hvalues : List.Forall₂ (fun e v => e.2.toValue = .ok v) entries values)
include hvalues

theorem addCalls_integers (t : Table) (pending : Option Key) :
    Datum.addCalls t pending (entries.flatMap fun e => [.key (.integer e.1), .value e.2]) =
      .ok (t.insertMany (frameEntries entries values)) := by
  induction hvalues generalizing t pending with
  | nil => rfl
  | @cons e v entries values hvalue _ ih =>
    have hstep : ∀ rest, Datum.addCalls t pending (.key (.integer e.1) :: .value e.2 :: rest) =
        e.2.toValue.bind fun v =>
          Datum.addCalls (t.insert (.frame e.1.toNumber) v) none rest := fun _ => rfl
    rw [hvalue] at hstep
    exact (hstep _).trans (ih _ _)

/-- A map with integer keys is the table of its values under the numbers of the keys. -/
theorem toValue_integerMap_eq :
    (integerMap entries).toValue = .ok (.table (.ofEntries (frameEntries entries values))) := by
  rw [integerMap, Datum.ofPairs, List.flatMap_map]
  exact congrArg (Except.map Value.table) (addCalls_integers hvalues ∅ none)

theorem keysApart_frameEntries_iff :
    Entries.KeysApart (frameEntries entries values) ↔
      entries.Pairwise fun e e' => (e'.1.toNumber == e.1.toNumber) = false := by
  have hfirst : (entries.zip values).map Prod.fst = entries :=
    List.map_fst_zip (Nat.le_of_eq hvalues.length_eq)
  rw [Entries.KeysApart, frameEntries, List.pairwise_map, ← hfirst, List.pairwise_map, hfirst]
  rfl

/-- Nothing is lost exactly if no two keys are equal as numbers. -/
theorem keepsAll_iff :
    (TableOf.ofEntries (frameEntries entries values)).KeepsAll entries values ↔
      entries.Pairwise fun e e' => (e'.1.toNumber == e.1.toNumber) = false := by
  have hlength : (frameEntries entries values).length = entries.length := by
    rw [frameEntries, List.length_map, List.length_zip, ← hvalues.length_eq, Nat.min_self]
  have hsize : (TableOf.ofEntries (frameEntries entries values)).size = entries.length ↔
      Entries.KeysApart (frameEntries entries values) := by
    rw [← hlength]
    exact Entries.size_ofList_eq_length_iff _
  rw [TableOf.KeepsAll, hsize, keysApart_frameEntries_iff hvalues, and_iff_left_iff_imp]
  intro hapart
  refine List.forall₂_iff_zip.2 ⟨hvalues.length_eq, fun {e v} hmem => ?_⟩
  exact Entries.find?_ofList_of_mem ((keysApart_frameEntries_iff hvalues).2 hapart)
    e.1.beq_self_toNumber (List.mem_map_of_mem hmem)

end Maps

/-- Two keys just beyond the limit. -/
def besideLimit : List (MachineInt × Datum) :=
  [(.uint64 9223372036854775808, .integer (.int64 1)),
    (.uint64 9223372036854775809, .integer (.int64 2))]

/-- It is not so that different keys keep all entries: the two become the same double. -/
theorem not_forall_keepsAll :
    ¬ ∀ (entries : List (MachineInt × Datum)) (values : List Value),
      entries.Pairwise (fun e e' => e.1.toInt ≠ e'.1.toInt) →
      List.Forall₂ (fun e v => e.2.toValue = .ok v) entries values →
      ∃ t : Table, (integerMap entries).toValue = .ok (.table t) ∧ t.KeepsAll entries values := by
  intro hkeeps
  have hvalues : List.Forall₂ (fun e v => e.2.toValue = .ok v) besideLimit [.int 1, .int 2] :=
    .cons rfl (.cons rfl .nil)
  obtain ⟨t, ht, hsize, -⟩ := hkeeps besideLimit [.int 1, .int 2] (by decide) hvalues
  rw [toValue_integerMap_eq hvalues] at ht
  cases ht
  exact absurd hsize (by decide +kernel)

/-- **What is kept of a map with integer keys.** If the keys are different and all values convert,
the map becomes an unnamed table, into which each value is written under the number of its key. The
table has as many entries as the map, and each value under its key, exactly if no two keys beyond
the limit round to the same double. -/
theorem toValue_integerMap {entries : List (MachineInt × Datum)} {values : List Value}
    (hkeys : entries.Pairwise fun e e' => e.1.toInt ≠ e'.1.toInt)
    (hvalues : List.Forall₂ (fun e v => e.2.toValue = .ok v) entries values) :
    ∃ t : Table, (integerMap entries).toValue = .ok (.table t) ∧
      t.settings = ("", false, false, false) ∧
      t.entries = .ofList (frameEntries entries values) ∧
      (t.KeepsAll entries values ↔ entries.Pairwise RoundApart) := by
  refine ⟨_, toValue_integerMap_eq hvalues, rfl, rfl, ?_⟩
  rw [keepsAll_iff hvalues]
  constructor
  · intro h
    exact (hkeys.and h).imp fun ⟨hne, hbeq⟩ => (beq_eq_false_iff_roundApart hne).1 hbeq
  · intro h
    exact (hkeys.and h).imp fun ⟨hne, hround⟩ => (beq_eq_false_iff_roundApart hne).2 hround

/-- Keys of several widths, three of them beyond the limit, a double apart each. -/
def acrossLimit : List (MachineInt × Datum) :=
  [(.int8 (-1), .text "before"), (.uint8 255, .unit), (.int64 9223372036854775807, .bool true),
    (.uint64 9223372036854775808, .bool false), (.uint64 9223372036854777856, .text "next"),
    (.uint64 18446744073709551615, .text "last")]

theorem toValue_integerMap_acrossLimit :
    let values := [.text "before", .null, .bool true, .bool false, .text "next", .text "last"]
    acrossLimit.Pairwise (fun e e' => e.1.toInt ≠ e'.1.toInt) ∧
      List.Forall₂ (fun e v => e.2.toValue = .ok v) acrossLimit values ∧
      ∃ t : Table, (integerMap acrossLimit).toValue = .ok (.table t) ∧
        t.KeepsAll acrossLimit values := by
  intro values
  have hkeys : acrossLimit.Pairwise (fun e e' => e.1.toInt ≠ e'.1.toInt) := by decide
  have hvalues : List.Forall₂ (fun e v => e.2.toValue = .ok v) acrossLimit values :=
    .cons rfl (.cons rfl (.cons rfl (.cons rfl (.cons rfl (.cons rfl .nil)))))
  obtain ⟨t, ht, -, -, hkeeps⟩ := toValue_integerMap hkeys hvalues
  exact ⟨hkeys, hvalues, t, ht, hkeeps.2 (by decide +kernel)⟩

end SceneScript
