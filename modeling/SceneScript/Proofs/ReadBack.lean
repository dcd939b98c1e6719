import SceneScript.Decimal.Shortest

/-!
# Shortest decimals read back

A decimal is read as the double nearest to it, which depends on its value alone. Every decimal in
the rounding interval of a double is read as that double, whichever the spacing is that rounding
divides by: at a power of two, where the interval reaches below, the gaps are half as wide there.

Main statements:

- `Binary64.nearestQuanta_of_readsBack`: what lies in a rounding interval is rounded to its double;
- `Decimal.ofDecimal_shortest`: the shortest decimal of a double is read as that double.
-/

namespace SceneScript

namespace Binary64

/-! ## Rounded quotients -/

/-- A whole number at most half away is the rounded quotient, if it is even or nearer than half. -/
theorem roundDiv_eq {n d m : Nat} (hd : 0 < d) (hlow : 2 * (m * d) ≤ 2 * n + d)
    (hhigh : 2 * n ≤ 2 * (m * d) + d)
    (htie : m % 2 = 0 ∨ 2 * (m * d) < 2 * n + d ∧ 2 * n < 2 * (m * d) + d) :
    roundDiv n d = m := by
  have hn : d * (n / d) + n % d = n := Nat.div_add_mod n d
  have hr : n % d < d := Nat.mod_lt n hd
  rw [Nat.mul_comm d] at hn
  unfold roundDiv
  generalize n / d = s at hn ⊢
  generalize n % d = r at hn hr ⊢
  -- further away than the two neighbours of the quotient, `m` would miss it by more than half
  rcases Nat.lt_trichotomy m s with hlt | rfl | hgt
  · have hstep : m * d + d ≤ s * d := by
      rw [← Nat.succ_mul]
      exact Nat.mul_le_mul_right d hlt
    omega
  · split <;> omega
  · rcases Nat.lt_or_ge (s + 1) m with hfar | hnear
    · have hstep : s * d + 2 * d ≤ m * d := by
        rw [← Nat.add_mul]
        exact Nat.mul_le_mul_right d hfar
      omega
    · obtain rfl : m = s + 1 := by omega
      have hstep : (s + 1) * d = s * d + d := Nat.succ_mul s d
      split <;> omega

/-- A multiple of the spacing at most half of it away is the nearest double. -/
theorem nearestQuanta_eq {n d q gap : Nat} (hd : 0 < d) (hgap : spacing (n / d) = gap)
    (hdvd : gap ∣ q) (hlow : 2 * (q * d) ≤ 2 * n + gap * d)
    (hhigh : 2 * n ≤ 2 * (q * d) + gap * d)
    (htie : q / gap % 2 = 0 ∨ 2 * (q * d) < 2 * n + gap * d ∧ 2 * n < 2 * (q * d) + gap * d) :
    nearestQuanta n d = q := by
  have hpos : 0 < d * gap := Nat.mul_pos hd (hgap ▸ spacing_pos _)
  have hq : q / gap * gap = q := Nat.div_mul_cancel hdvd
  have hmul : q * d = q / gap * (d * gap) := by rw [Nat.mul_comm d, ← Nat.mul_assoc, hq]
  rw [hmul, Nat.mul_comm gap] at hlow hhigh htie
  rw [nearestQuanta, hgap, roundDiv_eq hpos hlow hhigh htie, hq]

theorem roundDiv_scale (n d : Nat) {k : Nat} (hk : 0 < k) :
    roundDiv (n * k) (d * k) = roundDiv n d := by
  have htwice : 2 * (n * k % (d * k)) = 2 * (n % d) * k := by
    rw [Nat.mul_mod_mul_right, Nat.mul_assoc]
  simp only [roundDiv, htwice, Nat.mul_div_mul_right n d hk, Nat.mul_lt_mul_right hk,
    Nat.mul_right_cancel_iff hk]

theorem nearestQuanta_scale (n d : Nat) {k : Nat} (hk : 0 < k) :
    nearestQuanta (n * k) (d * k) = nearestQuanta n d := by
  unfold nearestQuanta
  rw [Nat.mul_div_mul_right n d hk, Nat.mul_right_comm, roundDiv_scale n _ hk]

/-- The nearest double depends on the value of a quotient alone. -/
theorem round_eq_of_mul_eq {n d n' d' : Nat} (hd : 0 < d) (hd' : 0 < d') (h : n * d' = n' * d)
    (negative : Bool) : round negative n d = round negative n' d' := by
  have hnearest : nearestQuanta n d = nearestQuanta n' d' := by
    rw [← nearestQuanta_scale n d hd', ← nearestQuanta_scale n' d' hd, h, Nat.mul_comm d]
  simp only [round, Magnitude.nearest?, hnearest]

/-! ## Binades -/

/-- Numbers between the same powers of two have the same spacing. -/
theorem spacing_eq {n k : Nat} (hlow : Nat.pow 2 k ≤ n) (hhigh : n < Nat.pow 2 (k + 1)) :
    spacing n = Nat.pow 2 (k - 52) := by
  have hpos : 0 < Nat.pow 2 k := Nat.two_pow_pos k
  have hn : n ≠ 0 := by omega
  rw [spacing, (Nat.log2_eq_iff hn).2 ⟨hlow, hhigh⟩]

theorem spacing_dvd_two_pow {q k : Nat} (hk : q.log2 ≤ k) : spacing q ∣ Nat.pow 2 k :=
  Nat.pow_dvd_pow 2 (by omega)

/-- Two multiples of a gap are at least the gap apart. -/
theorem add_le_of_dvd_of_lt {gap a b : Nat} (ha : gap ∣ a) (hb : gap ∣ b) (h : a < b) :
    a + gap ≤ b :=
  Nat.le_of_lt_add_of_dvd (Nat.add_lt_add_right h gap) (Nat.dvd_add ha (Nat.dvd_refl gap)) hb

/-! ## Rounding intervals -/

open Decimal (grains roundingSpan readsBack)

theorem grains_pos : 0 < grains := by decide +kernel

/-- Below a power of two the interval ends a quarter of the spacing away. -/
theorem low_add_of_power {q : Nat} (hgap : spacing q ≤ q)
    (hpower : q = Nat.pow 2 q.log2 ∧ 52 < q.log2) :
    (roundingSpan q).low + spacing q = 4 * q := by
  simp only [roundingSpan, if_pos hpower]
  omega

/-- Elsewhere it ends half of the spacing away. -/
theorem low_add_of_not_power {q : Nat} (hgap : spacing q ≤ q)
    (hpower : ¬(q = Nat.pow 2 q.log2 ∧ 52 < q.log2)) :
    (roundingSpan q).low + 2 * spacing q = 4 * q := by
  simp only [roundingSpan, if_neg hpower]
  omega

/-- How far a number in the rounding interval of a double may be away from it, in quarters. -/
theorem bounds_of_readsBack {q grain below : Nat} (hbelow : (roundingSpan q).low + below = 4 * q)
    (h : readsBack q grain = true) :
    4 * (q * grains) ≤ 4 * grain + below * grains ∧
      4 * grain ≤ 4 * (q * grains) + 2 * (spacing q * grains) ∧
      (q / spacing q % 2 = 0 ∨ 4 * (q * grains) < 4 * grain + below * grains ∧
        4 * grain < 4 * (q * grains) + 2 * (spacing q * grains)) := by
  have hlow : (roundingSpan q).low * grains + below * grains = 4 * (q * grains) := by
    rw [← Nat.add_mul, hbelow, Nat.mul_assoc]
  have hhigh : (roundingSpan q).high * grains =
      4 * (q * grains) + 2 * (spacing q * grains) := by
    show (4 * q + 2 * spacing q) * grains = _
    rw [Nat.add_mul, Nat.mul_assoc, Nat.mul_assoc]
  have hclosed : (roundingSpan q).closed = decide (q / spacing q % 2 = 0) := rfl
  unfold readsBack Span.contains at h
  simp only [hclosed, decide_eq_true_eq, hhigh] at h
  split at h <;> simp only [Bool.and_eq_true, decide_eq_true_eq] at h
  · rename_i heven
    exact ⟨by omega, by omega, .inl heven⟩
  · exact ⟨by omega, by omega, .inr (by omega)⟩

variable {q grain : Nat}

/-- Less than a spacing above a double, the spacing is that of the double. -/
theorem spacing_above (hq : 0 < q) (hdvd : spacing q ∣ q) (hlow : q * grains ≤ grain)
    (hhigh : grain < q * grains + spacing q * grains) :
    spacing (grain / grains) = spacing q := by
  have hnext : q + spacing q ≤ Nat.pow 2 (q.log2 + 1) :=
    add_le_of_dvd_of_lt hdvd (spacing_dvd_two_pow (Nat.le_succ _)) Nat.lt_log2_self
  have hfloor : q ≤ grain / grains := (Nat.le_div_iff_mul_le grains_pos).2 hlow
  have hceil : grain / grains < q + spacing q := by
    rw [Nat.div_lt_iff_lt_mul grains_pos, Nat.add_mul]
    exact hhigh
  have hpow : Nat.pow 2 q.log2 ≤ q := Nat.log2_self_le (Nat.ne_of_gt hq)
  exact spacing_eq (by omega) (by omega)

/-- Up to a spacing below a double it is the same, unless the double is a power of two. -/
theorem spacing_below (hq : 0 < q) (hdvd : spacing q ∣ q)
    (hpower : ¬(q = Nat.pow 2 q.log2 ∧ 52 < q.log2))
    (hlow : q * grains ≤ grain + spacing q * grains) (hhigh : grain < q * grains) :
    spacing (grain / grains) = spacing q := by
  have hceil : grain / grains < q := (Nat.div_lt_iff_lt_mul grains_pos).2 hhigh
  have hpow : q < Nat.pow 2 (q.log2 + 1) := Nat.lt_log2_self
  -- doubles of at most 53 bits are one quantum apart; larger ones stay above the power of two
  by_cases hlog : q.log2 ≤ 52
  · have hone : ∀ n, n.log2 ≤ 52 → spacing n = 1 := by
      intro n hn
      show Nat.pow 2 (n.log2 - 52) = 1
      rw [Nat.sub_eq_zero_of_le hn]
    have hsmall : (grain / grains).log2 ≤ 52 := by
      by_cases hzero : grain / grains = 0
      · rw [hzero]
        decide
      · refine Nat.le_of_lt_succ ((Nat.log2_lt hzero).2 (Nat.lt_trans hceil ?_))
        exact (Nat.log2_lt (Nat.ne_of_gt hq)).1 (Nat.lt_succ_of_le hlog)
    rw [hone _ hsmall, hone q hlog]
  · have hpow' : Nat.pow 2 q.log2 ≤ q := Nat.log2_self_le (Nat.ne_of_gt hq)
    have hgap : spacing q ∣ Nat.pow 2 q.log2 := spacing_dvd_two_pow (Nat.le_refl _)
    have hne : Nat.pow 2 q.log2 ≠ q := fun h => hpower ⟨h.symm, Nat.lt_of_not_le hlog⟩
    have hprev : Nat.pow 2 q.log2 + spacing q ≤ q :=
      add_le_of_dvd_of_lt hgap hdvd (Nat.lt_of_le_of_ne hpow' hne)
    have hfloor : Nat.pow 2 q.log2 ≤ grain / grains := by
      rw [Nat.le_div_iff_mul_le grains_pos]
      have hmul := Nat.mul_le_mul_right grains hprev
      rw [Nat.add_mul] at hmul
      omega
    exact spacing_eq hfloor (Nat.lt_trans hceil hpow)

/-- Below a power of two the spacing is half of that of the power. -/
theorem spacing_below_power (hpower : q = Nat.pow 2 q.log2) (hlog : 52 < q.log2)
    (hlow : 4 * (q * grains) ≤ 4 * grain + spacing q * grains) (hhigh : grain < q * grains) :
    spacing q = 2 * spacing (grain / grains) ∧ q = Nat.pow 2 53 * spacing (grain / grains) := by
  obtain ⟨k, hk⟩ := Nat.exists_eq_add_of_lt hlog
  have hq : q = 2 * Nat.pow 2 (52 + k) := by
    rw [hpower, hk]
    exact Nat.pow_succ'
  have hspacing : spacing q = Nat.pow 2 (k + 1) := by
    rw [spacing, hk]
    congr 1
    omega
  have hsmall : Nat.pow 2 (k + 1) ≤ Nat.pow 2 (52 + k) :=
    Nat.pow_le_pow_right (by decide) (by omega)
  have hfloor : Nat.pow 2 (52 + k) ≤ grain / grains := by
    rw [Nat.le_div_iff_mul_le grains_pos]
    have hmul := Nat.mul_le_mul_right grains hsmall
    rw [hspacing, hq, Nat.mul_assoc] at hlow
    omega
  have hceil : grain / grains < Nat.pow 2 (52 + k + 1) := by
    rw [Nat.div_lt_iff_lt_mul grains_pos, show 52 + k + 1 = q.log2 from hk.symm, ← hpower]
    exact hhigh
  have hstep : spacing (grain / grains) = Nat.pow 2 k := by
    rw [spacing_eq hfloor hceil, Nat.add_sub_cancel_left]
  rw [hstep]
  constructor
  · rw [hspacing]
    exact Nat.pow_succ'
  · rw [hq]
    show 2 * 2 ^ (52 + k) = 2 ^ 53 * 2 ^ k
    rw [← Nat.pow_add, ← Nat.pow_succ']
    congr 1
    omega

/-- **What lies in the rounding interval of a double is rounded to it.** -/
theorem nearestQuanta_of_readsBack (hq : 0 < q) (hdvd : spacing q ∣ q)
    (h : readsBack q grain = true) : nearestQuanta grain grains = q := by
  have hgap : spacing q ≤ q := Nat.le_of_dvd hq hdvd
  have hpos : 0 < spacing q * grains := Nat.mul_pos (spacing_pos q) grains_pos
  by_cases hpower : q = Nat.pow 2 q.log2 ∧ 52 < q.log2
  · obtain ⟨hlow, hhigh, htie⟩ := bounds_of_readsBack (low_add_of_power hgap hpower) h
    rcases Nat.lt_or_ge grain (q * grains) with hlt | hge
    · -- the spacing is the smaller one, and with it the significand is `2 ^ 53`, which is even
      obtain ⟨hhalf, hq'⟩ := spacing_below_power hpower.1 hpower.2 hlow hlt
      generalize hstep : spacing (grain / grains) = step at hhalf hq'
      refine nearestQuanta_eq grains_pos hstep ⟨_, by rw [hq', Nat.mul_comm]⟩ ?_ ?_ ?_
      · rw [hhalf, Nat.mul_assoc] at hlow
        omega
      · omega
      · left
        have hstepPos : 0 < step := hstep ▸ spacing_pos _
        rw [hq', Nat.mul_div_cancel _ hstepPos]
    · have hsame := spacing_above hq hdvd hge (by omega)
      exact nearestQuanta_eq grains_pos hsame hdvd (by omega) (by omega) (by omega)
  · obtain ⟨hlow, hhigh, htie⟩ := bounds_of_readsBack (low_add_of_not_power hgap hpower) h
    rw [Nat.mul_assoc] at hlow htie
    have hsame : spacing (grain / grains) = spacing q := by
      rcases Nat.lt_or_ge grain (q * grains) with hlt | hge
      · exact spacing_below hq hdvd hpower (by omega) hlt
      · exact spacing_above hq hdvd hge (by omega)
    exact nearestQuanta_eq grains_pos hsame hdvd (by omega) (by omega) (by omega)

/-! ## Reading decimals -/

/-- The double nearest to a decimal, with the given sign. -/
def ofDecimal (negative : Bool) (d : Decimal) : Binary64 :=
  round negative (d.significand * Nat.pow 10 d.exponent.toNat * unit)
    (Nat.pow 10 (-d.exponent).toNat)

theorem round_of_nearestQuanta {n d : Nat} {size : Magnitude} (h : nearestQuanta n d = size.quanta)
    (negative : Bool) : round negative n d = .finite negative size := by
  have hlt : nearestQuanta n d < limit := h ▸ size.quanta_lt
  have hsize : Magnitude.nearest? n d = some size := by
    rw [Magnitude.nearest?, dif_pos hlt]
    exact congrArg some (Magnitude.ext_quanta h)
  rw [round, hsize]

end Binary64

namespace Decimal

open Binary64 (unit ofDecimal)

/-- The same number with `k` more digits. -/
def padded (d : Decimal) (k : Nat) : Decimal := ⟨d.significand * Nat.pow 10 k, d.exponent - k⟩

theorem pow_ten_add (a b : Nat) : Nat.pow 10 (a + b) = Nat.pow 10 a * Nat.pow 10 b :=
  Nat.pow_add 10 a b

theorem pow_ten_pos (a : Nat) : 0 < Nat.pow 10 a := Nat.pow_pos (by decide)

theorem mul_pow_ten {a b c d : Nat} (h : a + b = c + d) :
    Nat.pow 10 a * Nat.pow 10 b = Nat.pow 10 c * Nat.pow 10 d := by
  rw [← pow_ten_add, h, pow_ten_add]

/-- One is `10 ^ 1074` grains. The exponent is given by name, so that no power is evaluated. -/
theorem unit_mul_grains : ∃ k : Nat, (k : Int) = 1074 ∧ unit * grains = Nat.pow 10 k :=
  ⟨1074, rfl, by decide +kernel⟩

/-- Zeros behind the digits do not change what is read. -/
theorem ofDecimal_padded (negative : Bool) (d : Decimal) (k : Nat) :
    ofDecimal negative (d.padded k) = ofDecimal negative d := by
  refine Binary64.round_eq_of_mul_eq (pow_ten_pos _) (pow_ten_pos _) ?_ negative
  have hexponents : k + (d.exponent - k).toNat + (-d.exponent).toNat =
      d.exponent.toNat + (-(d.exponent - k)).toNat := by omega
  have hpowers : Nat.pow 10 k * Nat.pow 10 (d.exponent - k).toNat *
      Nat.pow 10 (-d.exponent).toNat =
      Nat.pow 10 d.exponent.toNat * Nat.pow 10 (-(d.exponent - k)).toNat := by
    rw [← pow_ten_add]
    exact mul_pow_ten hexponents
  calc d.significand * Nat.pow 10 k * Nat.pow 10 (d.exponent - k).toNat * unit *
        Nat.pow 10 (-d.exponent).toNat
      = d.significand * unit * (Nat.pow 10 k * Nat.pow 10 (d.exponent - k).toNat *
        Nat.pow 10 (-d.exponent).toNat) := by ac_rfl
    _ = d.significand * unit *
        (Nat.pow 10 d.exponent.toNat * Nat.pow 10 (-(d.exponent - k)).toNat) := by rw [hpowers]
    _ = d.significand * Nat.pow 10 d.exponent.toNat * unit *
        Nat.pow 10 (-(d.exponent - k)).toNat := by ac_rfl

/-- A decimal that is a whole number of grains is read as the nearest double to these grains. -/
theorem ofDecimal_eq_round (negative : Bool) {d : Decimal} (h : -1074 ≤ d.exponent) :
    ofDecimal negative d = Binary64.round negative d.toGrains grains := by
  refine Binary64.round_eq_of_mul_eq (pow_ten_pos _) Binary64.grains_pos ?_ negative
  obtain ⟨k, hk, hone⟩ := unit_mul_grains
  have hexponents : d.exponent.toNat + k = (d.exponent + 1074).toNat + (-d.exponent).toNat := by
    omega
  have hpowers := mul_pow_ten hexponents
  rw [← hone] at hpowers
  calc d.significand * Nat.pow 10 d.exponent.toNat * unit * grains
      = d.significand * (Nat.pow 10 d.exponent.toNat * (unit * grains)) := by ac_rfl
    _ = d.significand * (Nat.pow 10 (d.exponent + 1074).toNat *
        Nat.pow 10 (-d.exponent).toNat) := by rw [hpowers]
    _ = d.toGrains * Nat.pow 10 (-d.exponent).toNat := (Nat.mul_assoc ..).symm

theorem le_exponent_search (inside : Nat → Bool) (n places : Nat) :
    -1074 ≤ (search inside n places).exponent := by
  induction places with
  | zero => exact Int.le_refl _
  | succ places ih =>
    unfold search
    split
    · show -1074 ≤ (places + 1 : Int) - 1074
      omega
    · exact ih

/-- **The shortest decimal of a double is read as that double.** -/
theorem ofDecimal_shortest (negative : Bool) (size : Magnitude) :
    ofDecimal negative (shortest size) = .finite negative size := by
  -- zero has no rounding interval, since there is nothing below it
  rcases Nat.eq_zero_or_pos size.quanta with hzero | hpos
  · have hshortest : shortest size = ⟨0, 0⟩ := by simp [shortest, hzero]
    rw [hshortest]
    refine Binary64.round_of_nearestQuanta ?_ negative
    rw [hzero]
    exact Binary64.nearestQuanta_eq (by decide) rfl (Nat.dvd_zero _) (by simp) (by simp) (by simp)
  · have hexponent : -1074 ≤ (shortest size).exponent := by
      simp only [shortest, Nat.ne_of_gt hpos, if_false]
      exact le_exponent_search _ _ _
    rw [ofDecimal_eq_round negative hexponent]
    exact Binary64.round_of_nearestQuanta
      (Binary64.nearestQuanta_of_readsBack hpos size.spacing_dvd (shortest_inside hpos)) negative

end Decimal

end SceneScript
