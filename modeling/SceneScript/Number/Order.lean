import SceneScript.Binary64.Whole
import SceneScript.Number.Basic

/-!
# Comparing numbers

An integer and a double are compared without rounding the integer: `2 ^ 53 + 1` differs from the
double `2 ^ 53`. A double beyond all 64-bit integers needs no look at the integer; of any other one
the whole part is an integer itself, and if that is the same the fraction decides. For sorting there
is a total order, in which all `nan` are equal and come last.

Main statements:

- `compareInt64?_eq`, `compare?_eq`: numbers are compared by their exact places on the line;
- `compare?_eq_none_iff`: two numbers are incomparable exactly if one of them is `nan`;
- `beq_iff`: two numbers are equal exactly if they share a place;
- `totalCompare_of_compare?`: the total order extends numeric comparison.
-/

namespace SceneScript

open Binary64 (unit signedQuanta wholeUnits)

namespace Number

/-- The place of a number on the line; `nan` has none. -/
def place? : Number → Option Place
  | .integer i => some (.quanta (i.toInt * unit))
  | .float x => x.place?

/-- `2 ^ 63`, the first double above all 64-bit integers. -/
def integerLimit : Binary64 := .ofInt 0x8000000000000000

/-- Compares an integer with a double, neither of which is rounded. -/
def compareInt64? (i : Int64) (x : Binary64) : Option Ordering :=
  if x.isNaN then none
  else if (x.compare? integerLimit).any Ordering.isGE then some .lt
  else if x.compare? (-integerLimit) = some .lt then some .gt
  else
    match compare i x.truncate.toInt64 with
    | .eq => x.truncate.compare? x
    | o => some o

/-- Numeric comparison; `nan` compares with nothing. -/
def compare? : Number → Number → Option Ordering
  | .integer a, .integer b => some (compare a b)
  | .integer a, .float y => compareInt64? a y
  | .float x, .integer b => (compareInt64? b x).map Ordering.swap
  | .float x, .float y => x.compare? y

/-- Numeric equality: `24` equals `24.0`, and `nan` equals nothing. -/
instance : BEq Number := ⟨fun a b => a.compare? b = some .eq⟩

/-- The order used for sorting: numeric, with `nan` behind everything else. -/
def totalCompare (a b : Number) : Ordering :=
  match a.compare? b with
  | some o => o
  | none => compare a.isNaN b.isNaN

/-! ## Comparing places -/

theorem compare_toInt (i j : Int64) : compare i j = compare i.toInt j.toInt := by
  simp only [compare, compareOfLessAndEq, Int64.lt_iff_toInt_lt, Int64.toInt_inj]

theorem compare_mul_right {i j n : Int} (hn : 0 < n) : compare (i * n) (j * n) = compare i j := by
  rcases Int.lt_trichotomy i j with hlt | rfl | hgt
  · rw [Int.compare_eq_lt.2 hlt, Int.compare_eq_lt.2 (Int.mul_lt_mul_of_pos_right hlt hn)]
  · rw [Int.compare_eq_eq.2 rfl, Int.compare_eq_eq.2 rfl]
  · rw [Int.compare_eq_gt.2 hgt, Int.compare_eq_gt.2 (Int.mul_lt_mul_of_pos_right hgt hn)]

theorem place?_integerLimit : integerLimit.place? = some (.quanta (0x8000000000000000 * unit)) := by
  decide +kernel

theorem place?_neg_integerLimit :
    (-integerLimit).place? = some (.quanta (-0x8000000000000000 * unit)) := by
  decide +kernel

theorem compareInt64?_infinite (i : Int64) (negative : Bool) :
    compareInt64? i (.infinite negative) = some (if negative then .gt else .lt) := by
  cases negative with
  | false => rw [compareInt64?, Binary64.compare?_of_place? rfl place?_integerLimit]; rfl
  | true =>
    rw [compareInt64?, Binary64.compare?_of_place? rfl place?_integerLimit,
      Binary64.compare?_of_place? rfl place?_neg_integerLimit]
    rfl

/-- Between the ends of the range of integers the whole part decides, and if it is the same as the
integer the fraction does. -/
theorem compare_truncate {i : Int64} {negative : Bool} {size : Magnitude}
    (hlow : -0x8000000000000000 * (unit : Int) ≤ signedQuanta negative size)
    (hhigh : signedQuanta negative size < 0x8000000000000000 * (unit : Int)) :
    (match compare i (Binary64.finite negative size).truncate.toInt64 with
      | .eq => (Binary64.finite negative size).truncate.compare? (.finite negative size)
      | o => some o) =
      some (compare (i.toInt * (unit : Int)) (signedQuanta negative size)) := by
  obtain ⟨hfits, hfits'⟩ := Binary64.wholeUnits_bounds (by decide) hlow hhigh
  obtain ⟨hnear, hnear'⟩ := Binary64.near_wholeUnits negative size
  have hstep : ∀ {a b : Int}, a < b → a * unit + unit ≤ b * unit := by
    intro a b hab
    have hmul := Int.mul_le_mul_of_nonneg_right (Int.add_one_le_of_lt hab)
      (Int.le_of_lt Binary64.unit_cast_pos)
    rwa [Int.add_mul, Int.one_mul] at hmul
  rw [compare_toInt, Binary64.toInt_toInt64_truncate hfits hfits']
  rcases Int.lt_trichotomy i.toInt (wholeUnits negative size) with hlt | heq | hgt
  · have hfar := hstep hlt
    rw [Int.compare_eq_lt.2 hlt, Int.compare_eq_lt.2 (by omega)]
  · rw [heq, Int.compare_eq_eq.2 rfl]
    exact Binary64.compare?_of_place? (Binary64.place?_truncate negative size)
      (Binary64.place?_finite negative size)
  · have hfar := hstep hgt
    rw [Int.compare_eq_gt.2 hgt, Int.compare_eq_gt.2 (by omega)]

/-- An integer is compared with a double by their places, whatever the double is. -/
theorem compareInt64?_eq (i : Int64) (x : Binary64) :
    compareInt64? i x = x.place?.map (Place.quanta (i.toInt * unit)).compare := by
  cases x with
  | nan => rfl
  | infinite negative =>
    rw [compareInt64?_infinite]
    cases negative <;> rfl
  | finite negative size =>
    have hmin := Int.mul_le_mul_of_nonneg_right i.le_toInt (Int.le_of_lt Binary64.unit_cast_pos)
    have hmax := Int.mul_lt_mul_of_pos_right i.toInt_lt Binary64.unit_cast_pos
    show compareInt64? i _ = some (compare (i.toInt * (unit : Int)) (signedQuanta negative size))
    rw [compareInt64?, Binary64.compare?_of_place? rfl place?_integerLimit,
      Binary64.compare?_of_place? rfl place?_neg_integerLimit]
    simp only [Binary64.isNaN, Bool.false_eq_true, if_false, Option.any_some, Option.some.injEq,
      Place.compare, Int.isGE_compare, Int.compare_eq_lt]
    -- beyond the integers on either side the comparison is that with the end of their range
    split
    · rw [Int.compare_eq_lt.2 (by omega)]
    · split
      · rw [Int.compare_eq_gt.2 (by omega)]
      · exact compare_truncate (by omega) (by omega)

/-- **Comparison rounds nothing**: numbers are compared by their places. -/
theorem compare?_eq (a b : Number) :
    a.compare? b = do return (← a.place?).compare (← b.place?) := by
  match a, b with
  | .integer a, .integer b =>
    have hscale : compare (a.toInt * (unit : Int)) (b.toInt * unit) = compare a.toInt b.toInt :=
      compare_mul_right Binary64.unit_cast_pos
    show some (compare a b) = some (compare (a.toInt * (unit : Int)) (b.toInt * unit))
    rw [hscale, compare_toInt]
  | .integer a, .float y =>
    refine (compareInt64?_eq a y).trans ?_
    cases h : y.place? <;> simp [place?, h]
  | .float x, .integer b =>
    show (compareInt64? b x).map Ordering.swap = _
    rw [compareInt64?_eq]
    cases h : x.place? with
    | none => simp [place?, h]
    | some p => simp [place?, h, Place.compare_swap]
  | .float x, .float y => rfl

theorem place?_eq_none_iff {a : Number} : a.place? = none ↔ a.isNaN = true := by
  match a with
  | .integer _ => exact ⟨nofun, nofun⟩
  | .float .nan => exact ⟨fun _ => rfl, fun _ => rfl⟩
  | .float (.infinite _) => exact ⟨nofun, nofun⟩
  | .float (.finite _ _) => exact ⟨nofun, nofun⟩

theorem compare?_eq_none_iff {a b : Number} :
    a.compare? b = none ↔ a.isNaN = true ∨ b.isNaN = true := by
  rw [← place?_eq_none_iff, ← place?_eq_none_iff]
  cases ha : a.place? <;> cases hb : b.place? <;> simp [compare?_eq, ha, hb]

theorem beq_iff {a b : Number} : (a == b) = true ↔ ∃ p, a.place? = some p ∧ b.place? = some p := by
  change decide (a.compare? b = some .eq) = true ↔ _
  cases ha : a.place? <;> cases hb : b.place? <;> simp [compare?_eq, ha, hb, Place.compare_eq_iff]
  exact eq_comm

/-- Equality of numbers is symmetric and transitive; it is reflexive but for `nan`. -/
instance : PartialEquivBEq Number where
  symm h := by
    obtain ⟨p, ha, hb⟩ := beq_iff.1 h
    exact beq_iff.2 ⟨p, hb, ha⟩
  trans h h' := by
    obtain ⟨p, ha, hb⟩ := beq_iff.1 h
    obtain ⟨q, hb', hc⟩ := beq_iff.1 h'
    obtain rfl : p = q := Option.some.inj (hb.symm.trans hb')
    exact beq_iff.2 ⟨p, ha, hc⟩

theorem totalCompare_of_compare? {a b : Number} {o : Ordering} (h : a.compare? b = some o) :
    a.totalCompare b = o := by
  simp [totalCompare, h]

end Number

end SceneScript
