/-!
# Rounding to a 53-bit significand

A finite double is a whole number of *quanta*, a quantum being the smallest positive double,
`2 ^ (-1074)`. Of the natural numbers, those that fit a 53-bit significand are exactly the multiples
of their own `spacing`, the gap between neighbouring doubles at that size. Rounding a positive
rational number of quanta is therefore one division by the spacing and one rounding of the quotient.

Main statements:

- `roundDiv_le`, `le_roundDiv`: the rounded quotient is the floor or its successor;
- `spacing_dvd_mul_two_pow`: a significand of 53 bits fits at every power of two;
- `spacing_dvd_nearestQuanta`: what `nearestQuanta` returns fits a 53-bit significand.
-/

namespace SceneScript.Binary64

/-- The whole number nearest to `n / d`; halfway cases go to the even neighbour. -/
def roundDiv (n d : Nat) : Nat :=
  if 2 * (n % d) < d ∨ (2 * (n % d) = d ∧ n / d % 2 = 0) then n / d else n / d + 1

theorem roundDiv_le (n d : Nat) : roundDiv n d ≤ n / d + 1 := by
  unfold roundDiv; split <;> omega

theorem le_roundDiv (n d : Nat) : n / d ≤ roundDiv n d := by
  unfold roundDiv; split <;> omega

/-- A whole quotient is not changed by rounding. -/
theorem roundDiv_mul (m : Nat) {d : Nat} (hd : 0 < d) : roundDiv (m * d) d = m := by
  simp [roundDiv, Nat.mul_div_cancel m hd, hd]

/-- The gap, in quanta, between a double of `q` quanta and the next larger one. -/
def spacing (q : Nat) : Nat := Nat.pow 2 (q.log2 - 52)

theorem spacing_pos (q : Nat) : 0 < spacing q := Nat.two_pow_pos _

/-- The gaps of larger numbers are multiples of those of smaller ones. -/
theorem spacing_dvd_spacing {q r : Nat} (h : q ≤ r) : spacing q ∣ spacing r := by
  have hlog : q.log2 ≤ r.log2 := by
    rcases Nat.eq_zero_or_pos q with rfl | hpos
    · exact Nat.zero_le _
    · exact (Nat.le_log2 (by omega)).2 (Nat.le_trans (Nat.log2_self_le (by omega)) h)
  exact Nat.pow_dvd_pow 2 (by omega)

/-- A number that fits a significand still fits without its low digits. -/
theorem spacing_dvd_floor {q : Nat} (hq : spacing q ∣ q) (k : Nat) :
    spacing (q / Nat.pow 2 k * Nat.pow 2 k) ∣ q / Nat.pow 2 k * Nat.pow 2 k := by
  rcases Nat.le_total k (q.log2 - 52) with hlarge | hsmall
  · -- the number is so large that it has no such digits
    have hpow : Nat.pow 2 k ∣ q := Nat.dvd_trans (Nat.pow_dvd_pow 2 hlarge) hq
    rw [Nat.div_mul_cancel hpow]
    exact hq
  · have hfloor : spacing (q / Nat.pow 2 k * Nat.pow 2 k) ∣ spacing q :=
      spacing_dvd_spacing (Nat.div_mul_le_self q _)
    have hpow : spacing q ∣ Nat.pow 2 k := Nat.pow_dvd_pow 2 hsmall
    exact Nat.dvd_trans hfloor (Nat.dvd_trans hpow (Nat.dvd_mul_left _ _))

/-- The quanta of the double nearest to `n / d` quanta, ties to even, as if there were no largest
double. -/
def nearestQuanta (n d : Nat) : Nat := roundDiv n (d * spacing (n / d)) * spacing (n / d)

private theorem quotient_lt (n d : Nat) : n / (d * spacing (n / d)) < Nat.pow 2 53 := by
  rw [← Nat.div_div_eq_div_mul]
  apply Nat.div_lt_of_lt_mul
  calc n / d < Nat.pow 2 ((n / d).log2 + 1) := Nat.lt_log2_self
    _ ≤ Nat.pow 2 ((n / d).log2 - 52 + 53) := Nat.pow_le_pow_right (by decide) (by omega)
    _ = spacing (n / d) * Nat.pow 2 53 := Nat.pow_add ..

/-- A significand of 53 bits fits at every power of two. -/
theorem spacing_dvd_mul_two_pow {m : Nat} (hm : m ≤ 0x20000000000000) (k : Nat) :
    spacing (m * Nat.pow 2 k) ∣ m * Nat.pow 2 k := by
  have hpow : 0 < Nat.pow 2 k := Nat.two_pow_pos k
  rcases Nat.eq_zero_or_pos m with rfl | hpos
  · rw [Nat.zero_mul]
    exact Nat.dvd_zero _
  have hne : m * Nat.pow 2 k ≠ 0 := Nat.ne_of_gt (Nat.mul_pos hpos hpow)
  rcases Nat.eq_or_lt_of_le hm with rfl | hlt
  · -- the significand is a power of two itself
    have hpower : 0x20000000000000 * Nat.pow 2 k = Nat.pow 2 (53 + k) := (Nat.pow_add 2 53 k).symm
    have hlog : (Nat.pow 2 (53 + k)).log2 = 53 + k := Nat.log2_two_pow
    rw [hpower, spacing, hlog]
    exact Nat.pow_dvd_pow 2 (by omega)
  · have hlog : (m * Nat.pow 2 k).log2 < 53 + k := by
      rw [Nat.log2_lt hne]
      calc m * Nat.pow 2 k < 0x20000000000000 * Nat.pow 2 k := Nat.mul_lt_mul_of_pos_right hlt hpow
        _ = Nat.pow 2 (53 + k) := (Nat.pow_add 2 53 k).symm
    exact Nat.dvd_trans (Nat.pow_dvd_pow 2 (by omega)) (Nat.dvd_mul_left _ _)

theorem spacing_dvd_nearestQuanta (n d : Nat) :
    spacing (nearestQuanta n d) ∣ nearestQuanta n d :=
  spacing_dvd_mul_two_pow (Nat.le_trans (roundDiv_le _ _) (quotient_lt n d)) _

end SceneScript.Binary64
