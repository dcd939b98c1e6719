import SceneScript.Decimal.Style
import SceneScript.Proofs.RoundingBounds

/-!
# The fewest digits

The grids are tried from coarse to fine, and on each only the two neighbours of the number. Nothing
is missed by that: the rounding interval has no gaps and the number is in it, so if any point of a
grid lies inside, one of the neighbours does. On the grid that is taken the decimal therefore cannot
end in a zero, or a coarser one would have served.

Nor is there a shorter decimal on a finer grid. It would lie below the power of ten that has the
digits of the decimal that was found, and this power is a point of a coarser grid between the two.

Main statements:

- `Binary64.inSpan_of_nearestQuanta`: what is rounded to a double lies in its rounding interval;
- `Decimal.search_coarsest`: on no coarser grid there is a point of the interval;
- `Decimal.spells_shortest`: the shortest decimal reads back, and nothing with fewer digits does.
-/

namespace SceneScript

namespace Binary64

variable {n d q : Nat}

/-! ## The rounding interval -/

theorem roundDiv_near (n d : Nat) (hd : 0 < d) :
    2 * (roundDiv n d * d) ≤ 2 * n + d ∧ 2 * n ≤ 2 * (roundDiv n d * d) + d ∧
      (roundDiv n d % 2 = 0 ∨
        2 * (roundDiv n d * d) < 2 * n + d ∧ 2 * n < 2 * (roundDiv n d * d) + d) := by
  have hn : d * (n / d) + n % d = n := Nat.div_add_mod n d
  have hr : n % d < d := Nat.mod_lt n hd
  rw [Nat.mul_comm d] at hn
  unfold roundDiv
  split
  · omega
  · rw [Nat.add_mul, Nat.one_mul]
    omega

open Decimal (grains roundingSpan readsBack)

/-- Whether `n / d` quanta lie in the rounding interval of a double of `q` quanta. -/
def InSpan (q n d : Nat) : Prop :=
  (roundingSpan q).low * d ≤ 4 * n ∧ 4 * n ≤ (roundingSpan q).high * d ∧
    ((roundingSpan q).closed = true ∨
      (roundingSpan q).low * d < 4 * n ∧ 4 * n < (roundingSpan q).high * d)

theorem readsBack_iff_inSpan {grain : Nat} : readsBack q grain = true ↔ InSpan q grain grains := by
  cases hclosed : (roundingSpan q).closed with
  | true => simp [readsBack, Span.contains, InSpan, hclosed]
  | false =>
    simp only [readsBack, Span.contains, InSpan, hclosed, Bool.false_eq_true, if_false, false_or,
      Bool.and_eq_true, decide_eq_true_eq]
    omega

/-- A number is in the rounding interval if it is not too far from the double, in quarters. -/
theorem inSpan_of_near {below : Nat} (hbelow : (roundingSpan q).low + below = 4 * q)
    (hlow : 4 * (q * d) ≤ 4 * n + below * d) (hhigh : 4 * n ≤ 4 * (q * d) + 2 * (spacing q * d))
    (htie : q / spacing q % 2 = 0 ∨
      4 * (q * d) < 4 * n + below * d ∧ 4 * n < 4 * (q * d) + 2 * (spacing q * d)) :
    InSpan q n d := by
  have hlow' : (roundingSpan q).low * d + below * d = 4 * (q * d) := by
    rw [← Nat.add_mul, hbelow, Nat.mul_assoc]
  have hhigh' : (roundingSpan q).high * d = 4 * (q * d) + 2 * (spacing q * d) := by
    show (4 * q + 2 * spacing q) * d = _
    rw [Nat.add_mul, Nat.mul_assoc, Nat.mul_assoc]
  have hclosed : (roundingSpan q).closed = decide (q / spacing q % 2 = 0) := rfl
  rw [InSpan, hhigh', hclosed, decide_eq_true_eq]
  omega

/-! ## Rounding backwards -/

/-- What is rounded is at most half a spacing away, and less where the significand is odd. -/
theorem nearestQuanta_near (hd : 0 < d) (h : nearestQuanta n d = q) :
    2 * (q * d) ≤ 2 * n + spacing (n / d) * d ∧ 2 * n ≤ 2 * (q * d) + spacing (n / d) * d ∧
      (q / spacing (n / d) % 2 = 0 ∨
        2 * (q * d) < 2 * n + spacing (n / d) * d ∧
          2 * n < 2 * (q * d) + spacing (n / d) * d) := by
  have hgap := spacing_pos (n / d)
  have hnear := roundDiv_near n (d * spacing (n / d)) (Nat.mul_pos hd hgap)
  have hq : roundDiv n (d * spacing (n / d)) * (d * spacing (n / d)) = q * d := by
    rw [← h, nearestQuanta, Nat.mul_comm d, Nat.mul_assoc]
  have hsignificand : q / spacing (n / d) = roundDiv n (d * spacing (n / d)) := by
    rw [← h, nearestQuanta, Nat.mul_div_cancel _ hgap]
  rwa [hq, ← hsignificand, Nat.mul_comm d] at hnear

/-- Rounding keeps the spacing, unless it reaches the next power of two. -/
theorem spacing_nearestQuanta (hd : 0 < d) (hq : 0 < q) (h : nearestQuanta n d = q) :
    spacing q = spacing (n / d) ∧ (q = Nat.pow 2 q.log2 ∧ 52 < q.log2 → q * d ≤ n) ∨
      (q = Nat.pow 2 q.log2 ∧ 52 < q.log2) ∧ spacing q = 2 * spacing (n / d) ∧ n ≤ q * d := by
  generalize hk : (n / d).log2 = k
  have hgap : spacing (n / d) = Nat.pow 2 (k - 52) := by rw [spacing, hk]
  have hupper : n ≤ Nat.pow 2 (k + 1) * d := by
    have hlt : n / d < Nat.pow 2 (k + 1) := hk ▸ Nat.lt_log2_self
    exact Nat.le_of_lt ((Nat.div_lt_iff_lt_mul hd).1 hlt)
  have hlog : (Nat.pow 2 (k + 1)).log2 = k + 1 := Nat.log2_two_pow
  have hle : q ≤ Nat.pow 2 (k + 1) :=
    h ▸ nearestQuanta_le hd (spacing_dvd_two_pow (Nat.le_of_eq hlog)) hupper
  rcases Nat.lt_or_ge k 52 with hsmall | hlarge
  · -- neighbours are one quantum apart, up to and at the power of two
    have hqlog : q.log2 ≤ 52 := by
      refine Nat.le_of_lt_succ ((Nat.log2_lt (Nat.ne_of_gt hq)).2 (Nat.lt_of_le_of_lt hle ?_))
      exact Nat.pow_lt_pow_right (by decide) (by omega)
    refine .inl ⟨?_, fun hpower => absurd hpower.2 (Nat.not_lt_of_le hqlog)⟩
    rw [hgap, spacing, Nat.sub_eq_zero_of_le hqlog, Nat.sub_eq_zero_of_le (Nat.le_of_lt hsmall)]
  · have hfloor : Nat.pow 2 k ≤ n / d := by
      rw [← hk]
      refine Nat.log2_self_le fun hzero => ?_
      rw [hzero, Nat.log2_zero] at hk
      omega
    have hbound : Nat.pow 2 k * d ≤ n := (Nat.le_div_iff_mul_le hd).1 hfloor
    have hlow : Nat.pow 2 k ≤ q :=
      h ▸ le_nearestQuanta_of_dvd hd (spacing_dvd_two_pow (Nat.le_of_eq hk)) hbound
    rcases Nat.lt_or_eq_of_le hle with hlt | rfl
    · refine .inl ⟨(spacing_eq hlow hlt).trans hgap.symm, fun hpower => ?_⟩
      rw [(Nat.log2_eq_iff (Nat.ne_of_gt hq)).2 ⟨hlow, hlt⟩] at hpower
      rwa [hpower.1]
    · refine .inr ⟨?_, ?_, hupper⟩
      · rw [hlog]
        exact ⟨rfl, by omega⟩
      · rw [hgap, spacing, hlog, Nat.sub_add_comm hlarge]
        exact Nat.pow_succ'

/-- The significand of a power of two, which is even. -/
theorem div_spacing_of_power (hpower : q = Nat.pow 2 q.log2 ∧ 52 < q.log2) :
    q / spacing q = Nat.pow 2 52 := by
  have hsplit : Nat.pow 2 q.log2 = Nat.pow 2 (q.log2 - 52) * Nat.pow 2 52 := by
    refine Eq.trans ?_ (Nat.pow_add 2 (q.log2 - 52) 52)
    rw [Nat.sub_add_cancel (Nat.le_of_lt hpower.2)]
    rfl
  exact Nat.div_eq_of_eq_mul_right (spacing_pos q) (hpower.1.trans hsplit)

/-- **What is rounded to a double lies in its rounding interval.** -/
theorem inSpan_of_nearestQuanta (hd : 0 < d) (hq : 0 < q) (h : nearestQuanta n d = q) :
    InSpan q n d := by
  obtain ⟨hlow, hhigh, htie⟩ := nearestQuanta_near hd h
  have hgap : 0 < spacing (n / d) * d := Nat.mul_pos (spacing_pos _) hd
  have hgap' : spacing q ≤ q := Nat.le_of_dvd hq (h ▸ spacing_dvd_nearestQuanta n d)
  rcases spacing_nearestQuanta hd hq h with ⟨hsame, hbound⟩ | ⟨hpower, hdouble, hbound⟩
  · rw [← hsame] at hlow hhigh htie hgap
    by_cases hpower : q = Nat.pow 2 q.log2 ∧ 52 < q.log2
    · have hbound' := hbound hpower
      exact inSpan_of_near (low_add_of_power hgap' hpower) (by omega) (by omega) (by omega)
    · have htwice : 2 * spacing q * d = 2 * (spacing q * d) := Nat.mul_assoc ..
      exact inSpan_of_near (low_add_of_not_power hgap' hpower) (by omega) (by omega) (by omega)
  · have htwice : spacing q * d = 2 * (spacing (n / d) * d) := by rw [hdouble, Nat.mul_assoc]
    have heven : q / spacing q % 2 = 0 := by rw [div_spacing_of_power hpower]
    exact inSpan_of_near (low_add_of_power hgap' hpower) (by omega) (by omega) (.inl heven)

end Binary64

namespace Decimal

open Binary64 (InSpan spacing ofDecimal readsBack_iff_inSpan inSpan_of_nearestQuanta)

/-! ## The grids -/

section Grids

variable {inside : Nat → Bool} {n : Nat}
  (hconvex : ∀ a b c, inside a = true → inside c = true → a ≤ b → b ≤ c → inside b = true)
  (hn : inside n = true)
include hconvex hn

/-- If neither neighbour of a number is inside, no point of the grid is. -/
theorem not_inside_of_pick {step : Nat} (hstep : 0 < step) (h : pick inside n step = none)
    (m : Nat) : inside (m * step) = false := by
  have hneighbours : inside (n / step * step) = false ∧ inside ((n / step + 1) * step) = false := by
    simp only [pick] at h
    split at h
    · split at h <;> cases h
    · cases h
    · cases h
    · exact ⟨‹_›, ‹_›⟩
  refine Bool.eq_false_iff.2 fun hm => ?_
  rcases Nat.lt_or_ge (n / step) m with hlt | hge
  · have hinside := hconvex _ ((n / step + 1) * step) _ hn hm
      (Nat.le_of_lt (Nat.lt_mul_of_div_lt (Nat.lt_succ_self _) hstep))
      (Nat.mul_le_mul_right step hlt)
    rw [hneighbours.2] at hinside
    cases hinside
  · have hinside := hconvex _ (n / step * step) _ hm hn (Nat.mul_le_mul_right step hge)
      (Nat.div_mul_le_self n step)
    rw [hneighbours.1] at hinside
    cases hinside

/-- On no coarser grid that is tried there is a point inside. -/
theorem search_coarsest (places : Nat) :
    ∃ p ≤ places, (search inside n places).exponent = p - 1074 ∧
      inside ((search inside n places).significand * Nat.pow 10 p) = true ∧
      (p = places → (search inside n places).significand ≤ n / Nat.pow 10 p + 1) ∧
      (p < places → ∀ m, inside (m * Nat.pow 10 (p + 1)) = false) := by
  induction places with
  | zero =>
    refine ⟨0, Nat.le_refl 0, rfl, ?_, fun _ => ?_, nofun⟩
    · simpa [search] using hn
    · simp [search]
  | succ places ih =>
    unfold search
    cases hpick : pick inside n (Nat.pow 10 (places + 1)) with
    | some s =>
      refine ⟨places + 1, Nat.le_refl _, by simp, pick_inside hpick, fun _ => ?_,
        fun hlt => absurd hlt (Nat.lt_irrefl _)⟩
      simp only [pick] at hpick
      split at hpick
      · split at hpick <;> (cases hpick; simp)
      · cases hpick; simp
      · cases hpick; simp
      · cases hpick
    | none =>
      obtain ⟨p, hp, hexponent, hinside, -, hcoarser⟩ := ih
      refine ⟨p, Nat.le_succ_of_le hp, hexponent, hinside, by omega, fun _ => ?_⟩
      rcases Nat.lt_or_eq_of_le hp with hlt | rfl
      · exact hcoarser hlt
      · exact not_inside_of_pick hconvex hn (pow_ten_pos _) hpick

end Grids

/-! ## The shortest decimal -/

/-- What the decimal of a magnitude has to be: it reads back as the double, it does not end in a
zero unless it is zero, and nothing with fewer digits reads back. -/
structure Spells (d : Decimal) (size : Magnitude) : Prop where
  readsBack : ∀ negative, ofDecimal negative d = .finite negative size
  trimmed : d.significand % 10 = 0 → d.significand = 0
  fewest : ∀ d' negative, ofDecimal negative d' = .finite negative size →
    d.digits.length ≤ d'.digits.length

variable {q : Nat}

theorem readsBack_convex {a b c : Nat} (ha : readsBack q a = true) (hc : readsBack q c = true)
    (hab : a ≤ b) (hbc : b ≤ c) : readsBack q b = true := by
  rw [readsBack_iff_inSpan] at ha hc ⊢
  obtain ⟨hlow, -, hopen⟩ := ha
  obtain ⟨-, hhigh, hopen'⟩ := hc
  refine ⟨by omega, by omega, ?_⟩
  rcases hopen with hclosed | ⟨hlow', -⟩
  · exact .inl hclosed
  · exact hopen'.imp_right fun hstrict => ⟨by omega, by omega⟩

theorem low_roundingSpan_pos (hq : 0 < q) (hdvd : spacing q ∣ q) : 0 < (roundingSpan q).low := by
  have hgap : spacing q ≤ q := Nat.le_of_dvd hq hdvd
  by_cases hpower : q = Nat.pow 2 q.log2 ∧ 52 < q.log2
  · have hlow := Binary64.low_add_of_power hgap hpower
    omega
  · have hlow := Binary64.low_add_of_not_power hgap hpower
    omega

theorem not_readsBack_zero (hq : 0 < q) (hdvd : spacing q ∣ q) : readsBack q 0 = false := by
  refine Bool.eq_false_iff.2 fun h => ?_
  have hlow := Nat.mul_pos (low_roundingSpan_pos hq hdvd) Binary64.grains_pos
  rw [readsBack_iff_inSpan, InSpan] at h
  omega

theorem nearestQuanta_of_round {negative : Bool} {n d : Nat} {size : Magnitude}
    (h : Binary64.round negative n d = .finite negative size) :
    Binary64.nearestQuanta n d = size.quanta := by
  unfold Binary64.round Magnitude.nearest? at h
  split at h
  · rename_i found hfound
    split at hfound
    · cases hfound
      cases h
      rfl
    · cases hfound
  · cases h

/-- A power of ten below the digits of a decimal. -/
theorem pow_ten_le_significand (d : Decimal) {k : Nat} (hk : 0 < k) (h : k < d.digits.length) :
    Nat.pow 10 k ≤ d.significand := by
  refine Nat.le_of_not_lt fun hlt => ?_
  exact absurd ((Nat.length_toDigits_le_iff (by decide) hk).2 hlt) (Nat.not_le_of_lt h)

theorem significand_lt_pow_ten (d : Decimal) {k : Nat} (hk : 0 < k) (h : d.digits.length ≤ k) :
    d.significand < Nat.pow 10 k :=
  (Nat.length_toDigits_le_iff (by decide) hk).1 h

variable {size : Magnitude}

/-- The shortest decimal is a point of the rounding interval, and the next coarser grid has none,
unless the decimal is a power of ten. -/
theorem shortest_coarsest (h : 0 < size.quanta) :
    ∃ p : Nat, (shortest size).exponent = p - 1074 ∧
      readsBack size.quanta ((shortest size).significand * Nat.pow 10 p) = true ∧
      ((shortest size).significand = 1 ∨
        ∀ m, readsBack size.quanta (m * Nat.pow 10 (p + 1)) = false) := by
  have hself := readsBack_self h
  have hshortest : shortest size = search (readsBack size.quanta) (size.quanta * grains)
      ((size.quanta * grains).log2 / 3 + 1) := by
    rw [shortest, if_neg (Nat.ne_of_gt h)]
  rw [hshortest]
  generalize hn : size.quanta * grains = n at hself ⊢
  obtain ⟨p, hp, hexponent, hinside, hcoarsest, hcoarser⟩ :=
    search_coarsest (fun _ _ _ => readsBack_convex) hself (n.log2 / 3 + 1)
  refine ⟨p, hexponent, hinside, ?_⟩
  rcases Nat.lt_or_eq_of_le hp with hlt | rfl
  · exact .inr (hcoarser hlt)
  · -- the step of the coarsest grid is above the number
    have hstep : n < Nat.pow 10 (n.log2 / 3 + 1) := by
      calc n < Nat.pow 2 (n.log2 + 1) := Nat.lt_log2_self
        _ ≤ Nat.pow 2 (3 * (n.log2 / 3 + 1)) := Nat.pow_le_pow_right (by decide) (by omega)
        _ = Nat.pow 8 (n.log2 / 3 + 1) := Nat.pow_mul 2 3 _
        _ ≤ Nat.pow 10 (n.log2 / 3 + 1) := Nat.pow_le_pow_left (by decide) _
    have hle := hcoarsest rfl
    rw [Nat.div_eq_of_lt hstep] at hle
    refine .inl ((Nat.le_one_iff_eq_zero_or_eq_one.1 hle).resolve_left fun hzero => ?_)
    rw [hzero, Nat.zero_mul, not_readsBack_zero h size.spacing_dvd] at hinside
    cases hinside

/-- A decimal that is a point of a grid reads back only if the interval has such a point. -/
theorem readsBack_of_grid {d : Decimal} {negative : Bool} {p : Nat} (h : 0 < size.quanta)
    (hp : (p : Int) ≤ d.exponent + 1074) (hread : ofDecimal negative d = .finite negative size) :
    ∃ m, readsBack size.quanta (m * Nat.pow 10 p) = true := by
  rw [ofDecimal_eq_round negative (by omega)] at hread
  obtain ⟨i, hi⟩ : ∃ i, (d.exponent + 1074).toNat = i + p :=
    ⟨(d.exponent + 1074).toNat - p, by omega⟩
  have hgrains : d.toGrains = d.significand * Nat.pow 10 i * Nat.pow 10 p := by
    rw [toGrains, hi, pow_ten_add, Nat.mul_assoc]
  have hspan := inSpan_of_nearestQuanta Binary64.grains_pos h (nearestQuanta_of_round hread)
  exact ⟨_, readsBack_iff_inSpan.2 (hgrains ▸ hspan)⟩

/-- What is above a decimal that reads back is above the lower end of the interval. -/
theorem lt_of_reads {d : Decimal} {negative : Bool} {j p : Nat} (h : 0 < size.quanta)
    (hexponent : d.exponent + 1074 ≤ p) (hsignificand : d.significand < Nat.pow 10 j)
    (hread : ofDecimal negative d = .finite negative size) :
    (roundingSpan size.quanta).low * grains < 4 * Nat.pow 10 (j + p) := by
  have hpos : 0 < Nat.pow 10 (-d.exponent).toNat := pow_ten_pos _
  have hlow := (inSpan_of_nearestQuanta hpos h (nearestQuanta_of_round hread)).1
  refine Nat.lt_of_mul_lt_mul_right (a := Nat.pow 10 (-d.exponent).toNat) ?_
  obtain ⟨k, hk, hone⟩ := unit_mul_grains
  have hpower : Nat.pow 10 (d.exponent.toNat + k) ≤ Nat.pow 10 (p + (-d.exponent).toNat) :=
    Nat.pow_le_pow_right (by decide) (by omega)
  calc (roundingSpan size.quanta).low * grains * Nat.pow 10 (-d.exponent).toNat
      = (roundingSpan size.quanta).low * Nat.pow 10 (-d.exponent).toNat * grains := by ac_rfl
    _ ≤ 4 * (d.significand * Nat.pow 10 d.exponent.toNat * Binary64.unit) * grains :=
      Nat.mul_le_mul_right grains hlow
    _ = 4 * (d.significand * Nat.pow 10 (d.exponent.toNat + k)) := by
      rw [pow_ten_add, ← hone]
      ac_rfl
    _ < 4 * (Nat.pow 10 j * Nat.pow 10 (d.exponent.toNat + k)) := by
      have := Nat.mul_lt_mul_of_pos_right hsignificand (pow_ten_pos (d.exponent.toNat + k))
      omega
    _ ≤ 4 * (Nat.pow 10 j * Nat.pow 10 (p + (-d.exponent).toNat)) :=
      Nat.mul_le_mul_left 4 (Nat.mul_le_mul_left _ hpower)
    _ = 4 * Nat.pow 10 (j + p) * Nat.pow 10 (-d.exponent).toNat := by
      rw [pow_ten_add, pow_ten_add]
      ac_rfl

/-- Nothing with fewer digits than the shortest decimal reads back. -/
theorem length_digits_shortest_le {d : Decimal} {negative : Bool} (h : 0 < size.quanta)
    (hread : ofDecimal negative d = .finite negative size) :
    (shortest size).digits.length ≤ d.digits.length := by
  obtain ⟨p, -, hinside, hcoarser⟩ := shortest_coarsest h
  refine Nat.le_of_not_lt fun hlt => ?_
  have hd : 0 < d.digits.length := Nat.length_toDigits_pos
  rcases hcoarser with hone | hcoarser
  · have hlength : (shortest size).digits.length = 1 := by
      rw [digits, hone]
      rfl
    omega
  obtain ⟨j, hj⟩ : ∃ j, (shortest size).digits.length = j + 1 + 1 :=
    ⟨(shortest size).digits.length - 2, by omega⟩
  rcases Int.lt_or_le p (d.exponent + 1074) with hcoarse | hfine
  · obtain ⟨m, hm⟩ := readsBack_of_grid (p := p + 1) h (by omega) hread
    rw [hcoarser m] at hm
    cases hm
  · -- the power of ten between the two decimals is a point of the next coarser grid
    have hlow := lt_of_reads h hfine (d.significand_lt_pow_ten (k := j + 1) (by omega) (by omega))
      hread
    have hhigh : Nat.pow 10 (j + 1 + p) ≤ (shortest size).significand * Nat.pow 10 p := by
      rw [pow_ten_add (j + 1)]
      exact Nat.mul_le_mul_right _ (pow_ten_le_significand _ (by omega) (by omega))
    have hbetween : readsBack size.quanta (Nat.pow 10 (j + 1 + p)) = true := by
      obtain ⟨-, hupper, hopen⟩ := readsBack_iff_inSpan.1 hinside
      refine readsBack_iff_inSpan.2 ⟨Nat.le_of_lt hlow, by omega, ?_⟩
      exact hopen.imp_right fun hstrict => ⟨hlow, by omega⟩
    rw [Nat.add_assoc, Nat.add_comm 1, pow_ten_add, hcoarser] at hbetween
    cases hbetween

/-- **The shortest decimal is shortest**: it reads back, and nothing with fewer digits does. -/
theorem spells_shortest (size : Magnitude) : (shortest size).Spells size := by
  refine ⟨fun negative => ofDecimal_shortest negative size, ?_, ?_⟩
  · rcases Nat.eq_zero_or_pos size.quanta with hzero | hpos
    · rw [shortest, if_pos hzero]
      exact fun _ => rfl
    · intro hten
      obtain ⟨p, -, hinside, hone | hcoarser⟩ := shortest_coarsest hpos
      · rw [hone] at hten
        cases hten
      · -- a zero at the end would make the decimal a point of the next coarser grid
        have hgrid : (shortest size).significand * Nat.pow 10 p =
            (shortest size).significand / 10 * Nat.pow 10 (p + 1) := by
          rw [Nat.add_comm p, pow_ten_add, ← Nat.mul_assoc]
          exact congrArg (· * _) (Nat.div_mul_cancel (Nat.dvd_of_mod_eq_zero hten)).symm
        rw [hgrid, hcoarser] at hinside
        cases hinside
  · intro d negative hread
    rcases Nat.eq_zero_or_pos size.quanta with hzero | hpos
    · rw [shortest, if_pos hzero]
      exact Nat.length_toDigits_pos
    · exact length_digits_shortest_le hpos hread

end Decimal

end SceneScript
