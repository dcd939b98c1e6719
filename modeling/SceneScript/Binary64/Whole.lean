import SceneScript.Binary64.Order

/-!
# Whole parts

The whole part of a number is what is left of it towards zero without its fraction. It is a double
again, since a significand that loses low digits still fits. A whole part becomes a 64-bit integer
as it is if it fits one, and the nearest end of their range otherwise.

Main statements:

- `place?_truncate`: the whole part of a finite number is exact;
- `toInt_toInt64_truncate`: a whole part that fits is kept.
-/

namespace SceneScript

open Binary64 (unit signedQuanta spacing_dvd_floor)

namespace Magnitude

/-- The magnitude without its fraction. -/
def whole (m : Magnitude) : Magnitude where
  quanta := m.quanta / unit * unit
  spacing_dvd := by
    obtain ⟨k, -, hk⟩ := Binary64.unit_eq_two_pow
    rw [hk]
    exact spacing_dvd_floor m.spacing_dvd k
  quanta_lt := Nat.lt_of_le_of_lt (Nat.div_mul_le_self _ _) m.quanta_lt

@[simp] theorem quanta_whole (m : Magnitude) : m.whole.quanta = m.quanta / unit * unit := rfl

end Magnitude

namespace Binary64

/-- The number without its fraction; `-0.5` becomes `-0`. -/
def truncate : Binary64 → Binary64
  | .finite negative size => .finite negative size.whole
  | x => x

/-- The whole part as a 64-bit integer, held between the smallest and the largest; `nan` gives
zero. -/
def toInt64 : Binary64 → Int64
  | .nan => 0
  | .infinite negative => if negative then .minValue else .maxValue
  | .finite negative size => .ofIntClamp ((signedQuanta negative size).tdiv unit)

/-! ## Laws -/

/-- The whole part of a signed number of quanta, in units. -/
def wholeUnits (negative : Bool) (size : Magnitude) : Int := (signedQuanta negative size).tdiv unit

theorem signedQuanta_whole (negative : Bool) (size : Magnitude) :
    signedQuanta negative size.whole = wholeUnits negative size * unit := by
  have hcast : ∀ q n : Nat, ((q / n * n : Nat) : Int) = (q : Int).tdiv n * n := by
    intro q n
    rw [Int.natCast_mul, Int.natCast_ediv, Int.tdiv_eq_ediv_of_nonneg (Int.natCast_nonneg q)]
  cases negative with
  | false => exact hcast size.quanta unit
  | true =>
    rw [wholeUnits, signedQuanta, signedQuanta, if_pos rfl, if_pos rfl, Magnitude.quanta_whole,
      hcast, Int.neg_tdiv, Int.neg_mul]

theorem wholeUnits_whole (negative : Bool) (size : Magnitude) :
    wholeUnits negative size.whole = wholeUnits negative size := by
  have hunit : (unit : Int) ≠ 0 := Int.natCast_ne_zero.2 (Nat.ne_of_gt unit_pos)
  rw [wholeUnits, signedQuanta_whole, Int.mul_tdiv_cancel _ hunit]

/-- The whole part of a finite number is exact. -/
theorem place?_truncate (negative : Bool) (size : Magnitude) :
    (truncate (.finite negative size)).place? =
      some (.quanta (wholeUnits negative size * unit)) := by
  rw [← signedQuanta_whole]
  rfl

/-- A whole part that fits 64 bits is kept. -/
theorem toInt_toInt64_truncate {negative : Bool} {size : Magnitude}
    (hlow : -0x8000000000000000 ≤ wholeUnits negative size)
    (hhigh : wholeUnits negative size < 0x8000000000000000) :
    (truncate (.finite negative size)).toInt64.toInt = wholeUnits negative size := by
  rw [← wholeUnits_whole negative size] at hlow hhigh ⊢
  exact Int64.toInt_ofIntClamp hlow (Int.le_of_lt_add_one hhigh)

theorem unit_cast_pos : (0 : Int) < unit := Int.natCast_pos.2 unit_pos

/-- A number lies less than one away from its whole part. -/
theorem near_wholeUnits (negative : Bool) (size : Magnitude) :
    wholeUnits negative size * unit - unit < signedQuanta negative size ∧
      signedQuanta negative size < wholeUnits negative size * unit + unit := by
  have hsplit := Int.tdiv_mul_add_tmod (signedQuanta negative size) unit
  have hlow := Int.lt_tmod_of_pos (signedQuanta negative size) unit_cast_pos
  have hhigh := Int.tmod_lt_of_pos (signedQuanta negative size) unit_cast_pos
  unfold wholeUnits
  omega

/-- The whole part is within the bounds of the number, if they are whole. -/
theorem wholeUnits_bounds {negative : Bool} {size : Magnitude} {n : Int} (hn : 0 < n)
    (hlow : -n * unit ≤ signedQuanta negative size)
    (hhigh : signedQuanta negative size < n * unit) :
    -n ≤ wholeUnits negative size ∧ wholeUnits negative size < n := by
  refine ⟨Int.le_tdiv_of_mul_le unit_cast_pos hlow, ?_⟩
  rcases Int.le_total 0 (signedQuanta negative size) with hpos | hneg
  · have hsplit := Int.tdiv_mul_add_tmod (signedQuanta negative size) unit
    have hrest := Int.tmod_nonneg unit hpos
    refine Int.lt_of_mul_lt_mul_right (a := unit) ?_ (Int.le_of_lt unit_cast_pos)
    unfold wholeUnits
    omega
  · have hzero : wholeUnits negative size ≤ (0 : Int).tdiv unit :=
      Int.tdiv_le_tdiv unit_cast_pos hneg
    rw [Int.zero_tdiv] at hzero
    exact Int.lt_of_le_of_lt hzero hn

end Binary64

end SceneScript
