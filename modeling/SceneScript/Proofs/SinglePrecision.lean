import SceneScript.Proofs.ExactOrder
import SceneScript.Proofs.RoundingBounds

/-!
# Single precision is kept

A significand of 24 bits fits one of 53, and the smallest single-precision number is a power of two
above the smallest double. So a single-precision number becomes a double of the same value and the
same sign, and nothing is rounded.

Main statements:

- `Binary64.exactValue?_ofSingleBits`: the double has the value that the 32 bits stand for;
- `Binary64.isNegative_ofSingleBits`: its sign is theirs, also that of zero.
-/

namespace SceneScript.Binary64

/-- The value that 32 bits stand for: a sign bit, eight bits of exponent and 23 of fraction. -/
def singleValue? (bits : UInt32) : Option ExtendedRat :=
  let negative := bits.toNat >>> 31 = 1
  let exponent := bits.toNat >>> 23 % 0x100
  let fraction := bits.toNat % 0x800000
  let sign : ℚ := if negative then -1 else 1
  if exponent = 255 then
    if fraction = 0 then some (if negative then ⊥ else ⊤) else none
  else if exponent = 0 then some (.ofRat (sign * fraction / 2 ^ 149))
  else some (.ofRat (sign * ((0x800000 + fraction) * 2 ^ exponent) / 2 ^ 150))

theorem isDouble_shiftLeft {m k : Nat} (hm : m ≤ 0x20000000000000) (hk : k < 2045) :
    IsDouble (m <<< k : Nat) := by
  rw [Nat.shiftLeft_eq]
  exact isDouble_mul_two_pow hm hk

/-- A finite single-precision number in quanta, of which the smallest one has `2 ^ 925`. -/
theorem exists_ofSingleBits {bits : UInt32} (h : bits.toNat >>> 23 % 0x100 ≠ 255) :
    ∃ size : Magnitude,
      ofSingleBits bits = .finite (decide (bits.toNat >>> 31 = 1)) size ∧
      size.quanta = if bits.toNat >>> 23 % 0x100 = 0 then (bits.toNat % 0x800000) <<< 925
        else (0x800000 + bits.toNat % 0x800000) <<< (bits.toNat >>> 23 % 0x100 - 1 + 925) := by
  have hfraction : bits.toNat % 0x800000 < 0x800000 := Nat.mod_lt _ (by decide)
  have hexponent : bits.toNat >>> 23 % 0x100 < 0x100 := Nat.mod_lt _ (by decide)
  simp only [ofSingleBits, if_neg h]
  split
  · exact ⟨_, round_of_isDouble (isDouble_shiftLeft (by omega) (by decide)) _, rfl⟩
  · exact ⟨_, round_of_isDouble (isDouble_shiftLeft (by omega) (by omega)) _, rfl⟩

theorem isNegative_ofSingleBits {bits : UInt32} (h : (ofSingleBits bits).isNaN = false) :
    (ofSingleBits bits).isNegative = decide (bits.toNat >>> 31 = 1) := by
  by_cases hexponent : bits.toNat >>> 23 % 0x100 = 255
  · simp only [ofSingleBits, if_pos hexponent] at h ⊢
    split at h
    · rename_i hfraction
      rw [if_pos hfraction]
      rfl
    · cases h
  · obtain ⟨size, hsize, -⟩ := exists_ofSingleBits hexponent
    rw [hsize]
    rfl

/-- A shift takes a power of two out of the denominator. -/
theorem shiftLeft_div_pow (s : ℚ) (m j k : ℕ) :
    s * (m <<< j : ℕ) / 2 ^ (j + k) = s * m / 2 ^ k := by
  rw [Nat.shiftLeft_eq, Nat.cast_mul, Nat.cast_pow, Nat.cast_ofNat, pow_add, ← mul_assoc,
    mul_comm (2 ^ j : ℚ), mul_div_mul_right _ _ (pow_ne_zero j two_ne_zero)]

/-- **A single-precision number is kept**: its double has the value that its bits stand for. -/
theorem exactValue?_ofSingleBits (bits : UInt32) :
    (Number.float (ofSingleBits bits)).exactValue? = singleValue? bits := by
  have hplace : (Number.float (ofSingleBits bits)).place? = (ofSingleBits bits).place? := rfl
  rw [Number.exactValue?_eq, hplace]
  by_cases hexponent : bits.toNat >>> 23 % 0x100 = 255
  · simp only [ofSingleBits, singleValue?, if_pos hexponent]
    split
    · by_cases hnegative : bits.toNat >>> 31 = 1 <;> simp [hnegative, place?, Place.value]
    · rfl
  · obtain ⟨size, hsize, hquanta⟩ := exists_ofSingleBits hexponent
    rw [hsize, place?_finite, Option.map_some, Place.value, div_unit, signedQuanta_rat]
    simp only [singleValue?, if_neg hexponent, decide_eq_true_eq]
    by_cases hzero : bits.toNat >>> 23 % 0x100 = 0
    · rw [if_pos hzero] at hquanta ⊢
      rw [hquanta]
      exact congrArg (some ∘ ExtendedRat.ofRat) (shiftLeft_div_pow _ _ 925 149)
    · have hshift : bits.toNat >>> 23 % 0x100 - 1 + 925 = bits.toNat >>> 23 % 0x100 + 924 := by
        omega
      have hshifted : size.quanta =
          ((0x800000 + bits.toNat % 0x800000) * 2 ^ (bits.toNat >>> 23 % 0x100)) <<< 924 := by
        rw [hquanta, if_neg hzero, hshift, Nat.shiftLeft_add, ← Nat.shiftLeft_eq]
      rw [if_neg hzero, hshifted]
      refine (congrArg (some ∘ ExtendedRat.ofRat) (shiftLeft_div_pow _ _ 924 150)).trans ?_
      rw [Nat.cast_mul, Nat.cast_add, Nat.cast_pow, Nat.cast_ofNat, Nat.cast_ofNat]
      rfl

end SceneScript.Binary64
