import Mathlib.Order.Interval.Set.UnorderedInterval
import SceneScript.Binary64.Order
import SceneScript.Proofs.ReadBack

/-!
# Rounding crosses no double

The nearest double of a number never lies beyond a double that bounds the number: the bound is a
multiple of the spacing that rounding divides by, or it is below the power of two from which this
spacing counts. This is all of monotonicity that is needed where the bounds are doubles themselves.
A result between two doubles is finite, too, so overflow is excluded by finding such bounds.

Main statements:

- `nearestQuanta_le`, `le_nearestQuanta`: a double that bounds a number bounds what is rounded;
- `place?_add_between`: a sum lies between the doubles that bound the exact sum;
- `place?_mul_fraction`: a product with a fraction lies between zero and the other factor;
- `near_of_place?_add`: a finite sum is at most the largest spacing away from the exact sum.
-/

namespace SceneScript.Binary64

/-! ## Rounded quotients -/

theorem roundDiv_le_of_le {n d m : Nat} (hd : 0 < d) (h : n ≤ m * d) : roundDiv n d ≤ m := by
  rcases Nat.lt_or_ge (n / d) m with hlt | hge
  · exact Nat.le_trans (roundDiv_le n d) hlt
  · obtain rfl : n = m * d := Nat.le_antisymm h ((Nat.le_div_iff_mul_le hd).1 hge)
    exact Nat.le_of_eq (roundDiv_mul m hd)

theorem le_roundDiv_of_le {n d m : Nat} (hd : 0 < d) (h : m * d ≤ n) : m ≤ roundDiv n d :=
  Nat.le_trans ((Nat.le_div_iff_mul_le hd).2 h) (le_roundDiv n d)

variable {n d q : Nat}

/-- A multiple of the spacing that bounds a number from below bounds what is rounded. -/
theorem le_nearestQuanta_of_dvd (hd : 0 < d) (hq : spacing (n / d) ∣ q) (h : q * d ≤ n) :
    q ≤ nearestQuanta n d := by
  obtain ⟨m, rfl⟩ := hq
  rw [nearestQuanta, Nat.mul_comm (spacing _)]
  refine Nat.mul_le_mul_right _ (le_roundDiv_of_le (Nat.mul_pos hd (spacing_pos _)) ?_)
  rwa [Nat.mul_comm d, ← Nat.mul_assoc, Nat.mul_comm m]

/-- A double that bounds a number from above bounds what is rounded. -/
theorem nearestQuanta_le (hd : 0 < d) (hq : spacing q ∣ q) (h : n ≤ q * d) :
    nearestQuanta n d ≤ q := by
  -- the bound is larger, so the spacing that is divided by divides the bound, too
  have hfloor : n / d ≤ q := Nat.div_le_of_le_mul (Nat.mul_comm q d ▸ h)
  obtain ⟨m, hm⟩ := Nat.dvd_trans (spacing_dvd_spacing hfloor) hq
  rw [Nat.mul_comm] at hm
  calc nearestQuanta n d = roundDiv n (d * spacing (n / d)) * spacing (n / d) := rfl
    _ ≤ m * spacing (n / d) := by
      refine Nat.mul_le_mul_right _ (roundDiv_le_of_le (Nat.mul_pos hd (spacing_pos _)) ?_)
      rwa [Nat.mul_comm d, ← Nat.mul_assoc, ← hm]
    _ = q := hm.symm

/-- A double that bounds a number from below bounds what is rounded. -/
theorem le_nearestQuanta (hd : 0 < d) (hq : spacing q ∣ q) (h : q * d ≤ n) :
    q ≤ nearestQuanta n d := by
  have hfloor : q ≤ n / d := (Nat.le_div_iff_mul_le hd).2 h
  rcases Nat.eq_zero_or_pos q with rfl | hpos
  · exact Nat.zero_le _
  have hlog : q.log2 ≤ (n / d).log2 :=
    (Nat.le_log2 (by omega)).2 (Nat.le_trans (Nat.log2_self_le (by omega)) hfloor)
  rcases Nat.eq_or_lt_of_le hlog with heq | hlt
  · refine le_nearestQuanta_of_dvd hd ?_ h
    rwa [spacing, ← heq]
  · -- the power of two between the two numbers is a multiple of the larger spacing
    have hpower : Nat.pow 2 (n / d).log2 ≤ n / d := Nat.log2_self_le (by omega)
    calc q ≤ Nat.pow 2 (q.log2 + 1) := Nat.le_of_lt Nat.lt_log2_self
      _ ≤ Nat.pow 2 (n / d).log2 := Nat.pow_le_pow_right (by decide) hlt
      _ ≤ nearestQuanta n d := le_nearestQuanta_of_dvd hd (spacing_dvd_two_pow (Nat.le_refl _))
          ((Nat.le_div_iff_mul_le hd).1 hpower)

/-- What is rounded is at most a spacing away. -/
theorem near_nearestQuanta (n : Nat) :
    nearestQuanta n 1 ≤ n + spacing n ∧ n ≤ nearestQuanta n 1 + spacing n := by
  have hsplit := Nat.div_add_mod n (spacing n)
  have hrest := Nat.mod_lt n (spacing_pos n)
  have hlow := Nat.mul_le_mul_right (spacing n) (le_roundDiv n (spacing n))
  have hhigh := Nat.mul_le_mul_right (spacing n) (roundDiv_le n (spacing n))
  rw [Nat.add_mul, Nat.one_mul] at hhigh
  rw [Nat.mul_comm] at hsplit
  simp only [nearestQuanta, Nat.div_one, Nat.one_mul]
  omega

/-! ## Numbers of quanta that are doubles -/

/-- Whether there is a finite double of this many quanta. -/
def IsDouble (q : Int) : Prop := spacing q.natAbs ∣ q.natAbs ∧ q.natAbs < limit

instance (q : Int) : Decidable (IsDouble q) := inferInstanceAs (Decidable (_ ∧ _))

theorem isDouble_zero : IsDouble 0 := ⟨Nat.dvd_zero _, limit_pos⟩

theorem IsDouble.neg {q : Int} (h : IsDouble q) : IsDouble (-q) := by
  rwa [IsDouble, Int.natAbs_neg]

theorem natAbs_signedQuanta (negative : Bool) (size : Magnitude) :
    (signedQuanta negative size).natAbs = size.quanta := by
  cases negative <;> simp [signedQuanta]

theorem exists_of_place? {x : Binary64} {q : Int} (h : x.place? = some (.quanta q)) :
    ∃ negative size, x = .finite negative size ∧ q = signedQuanta negative size := by
  cases x with
  | nan => cases h
  | infinite negative => cases negative <;> cases h
  | finite negative size =>
    cases h
    exact ⟨negative, size, rfl, rfl⟩

theorem isDouble_of_place? {x : Binary64} {q : Int} (h : x.place? = some (.quanta q)) :
    IsDouble q := by
  obtain ⟨negative, size, -, rfl⟩ := exists_of_place? h
  rw [IsDouble, natAbs_signedQuanta]
  exact ⟨size.spacing_dvd, size.quanta_lt⟩

theorem isFinite_iff_place? {x : Binary64} :
    x.isFinite = true ↔ ∃ q, x.place? = some (.quanta q) := by
  constructor
  · intro h
    cases x with
    | finite negative size => exact ⟨_, place?_finite negative size⟩
    | _ => cases h
  · rintro ⟨q, hq⟩
    obtain ⟨negative, size, rfl, -⟩ := exists_of_place? hq
    rfl

/-- Significands of 53 bits, at any power of two that leaves room, are doubles. -/
theorem isDouble_mul_two_pow {m k : Nat} (hm : m ≤ 0x20000000000000) (hk : k < 2045) :
    IsDouble (m * Nat.pow 2 k : Nat) := by
  refine ⟨spacing_dvd_mul_two_pow hm k, ?_⟩
  obtain ⟨l, hl, hlimit⟩ := limit_eq_two_pow
  calc m * Nat.pow 2 k ≤ 0x20000000000000 * Nat.pow 2 k := Nat.mul_le_mul_right _ hm
    _ = Nat.pow 2 (53 + k) := (Nat.pow_add 2 53 k).symm
    _ < Nat.pow 2 l := Nat.pow_lt_pow_right (by decide) (by omega)
    _ = limit := hlimit.symm

theorem isDouble_mul_unit {i : Int} {m k : Nat} (hi : i.natAbs = m * Nat.pow 2 k)
    (hm : m ≤ 0x20000000000000) (hk : k ≤ 64) : IsDouble (i * unit) := by
  obtain ⟨j, hj, hunit⟩ := unit_eq_two_pow
  have hquanta : (i * (unit : Int)).natAbs = m * Nat.pow 2 (k + j) := by
    rw [Int.natAbs_mul, Int.natAbs_natCast, hi, hunit, Nat.mul_assoc]
    exact congrArg (m * ·) (Nat.pow_add 2 k j).symm
  rw [IsDouble, hquanta]
  exact isDouble_mul_two_pow hm (by omega)

/-! ## Rounded results -/

/-- A number with its sign. -/
def signed (negative : Bool) (n : Nat) : Int := if negative then -n else n

theorem signed_mul (s t : Bool) (m n : Nat) :
    signed (s ^^ t) (m * n) = signed s m * signed t n := by
  cases s with
  | false =>
    cases t with
    | false => exact Int.natCast_mul m n
    | true =>
      show -((m * n : Nat) : Int) = m * -n
      rw [Int.natCast_mul, Int.mul_neg]
  | true =>
    cases t with
    | false =>
      show -((m * n : Nat) : Int) = -m * n
      rw [Int.natCast_mul, Int.neg_mul]
    | true =>
      show ((m * n : Nat) : Int) = -m * -n
      rw [Int.natCast_mul, Int.neg_mul_neg]

theorem signed_natAbs (z : Int) : signed (decide (z < 0)) z.natAbs = z := by
  by_cases h : z < 0
  · rw [decide_eq_true h]
    show -(z.natAbs : Int) = z
    omega
  · rw [decide_eq_false h]
    show (z.natAbs : Int) = z
    omega

theorem near_signed {z : Int} {n bound : Nat} (hle : n ≤ z.natAbs + bound)
    (hge : z.natAbs ≤ n + bound) :
    signed (decide (z < 0)) n ≤ z + bound ∧ z ≤ signed (decide (z < 0)) n + bound := by
  by_cases h : z < 0
  · rw [decide_eq_true h]
    show -(n : Int) ≤ z + bound ∧ z ≤ -(n : Int) + bound
    omega
  · rw [decide_eq_false h]
    show (n : Int) ≤ z + bound ∧ z ≤ n + bound
    omega

theorem nearestQuanta_between {lo hi : Int} (hd : 0 < d) (hlo : IsDouble lo) (hhi : IsDouble hi)
    (hlow : lo * d ≤ n) (hhigh : n ≤ hi * d) :
    lo ≤ nearestQuanta n d ∧ nearestQuanta n d ≤ hi ∧ nearestQuanta n d < limit := by
  have hd' : (0 : Int) < d := Int.natCast_pos.2 hd
  have hpos : 0 ≤ hi := by
    refine Int.le_of_mul_le_mul_right (a := d) ?_ hd'
    omega
  obtain ⟨m, rfl⟩ := Int.eq_ofNat_of_zero_le hpos
  have hle : nearestQuanta n d ≤ m := nearestQuanta_le hd hhi.1 (by exact_mod_cast hhigh)
  refine ⟨?_, by exact_mod_cast hle, Nat.lt_of_le_of_lt hle hhi.2⟩
  -- a lower bound that is negative says nothing of a magnitude
  rcases Int.le_total lo 0 with hneg | hpos'
  · omega
  · obtain ⟨l, rfl⟩ := Int.eq_ofNat_of_zero_le hpos'
    exact_mod_cast le_nearestQuanta hd hlo.1 (by exact_mod_cast hlow)

theorem place?_round (negative : Bool) (h : nearestQuanta n d < limit) :
    (round negative n d).place? = some (.quanta (signed negative (nearestQuanta n d))) := by
  rw [round, Magnitude.nearest?, dif_pos h]
  rfl

/-- A double is not rounded. -/
theorem round_of_isDouble {q : Nat} (h : IsDouble q) (negative : Bool) :
    round negative q 1 = .finite negative ⟨q, h.1, h.2⟩ := by
  have hself : (q : Int) * (1 : Nat) = q := Int.mul_one _
  obtain ⟨hlow, hhigh, -⟩ :=
    nearestQuanta_between Nat.one_pos h h (Int.le_of_eq hself) (Int.le_of_eq hself.symm)
  exact round_of_nearestQuanta (by exact_mod_cast Int.le_antisymm hhigh hlow) negative

/-- **Rounding crosses no double**: between doubles that bound the exact number there is the rounded
one, which is finite. -/
theorem place?_round_between {negative : Bool} {lo hi : Int} (hd : 0 < d) (hlo : IsDouble lo)
    (hhi : IsDouble hi) (hlow : lo * d ≤ signed negative n) (hhigh : signed negative n ≤ hi * d) :
    ∃ q, (round negative n d).place? = some (.quanta q) ∧ lo ≤ q ∧ q ≤ hi := by
  cases negative with
  | false =>
    obtain ⟨hge, hle, hlt⟩ := nearestQuanta_between hd hlo hhi hlow hhigh
    exact ⟨_, place?_round false hlt, hge, hle⟩
  | true =>
    -- under a minus sign the bounds change places
    have hlow' : -hi * d ≤ n := by
      rw [Int.neg_mul]
      exact Int.neg_le_of_neg_le hhigh
    have hhigh' : n ≤ -lo * d := by
      rw [Int.neg_mul]
      exact Int.le_neg_of_le_neg hlow
    obtain ⟨hge, hle, hlt⟩ := nearestQuanta_between hd hhi.neg hlo.neg hlow' hhigh'
    exact ⟨_, place?_round true hlt, Int.le_neg_of_le_neg hle, Int.neg_le_of_neg_le hge⟩

section Arithmetic

variable {x y : Binary64} {a b lo hi : Int}

theorem place?_neg (hx : x.place? = some (.quanta a)) : (-x).place? = some (.quanta (-a)) := by
  obtain ⟨negative, size, rfl, rfl⟩ := exists_of_place? hx
  show some (Place.quanta (signedQuanta (!negative) size)) = _
  cases negative <;> simp [signedQuanta]

/-- A sum that is not zero is the rounded exact sum. -/
theorem add_eq_round (hx : x.place? = some (.quanta a)) (hy : y.place? = some (.quanta b))
    (hne : a + b ≠ 0) : x + y = round (decide (a + b < 0)) (a + b).natAbs 1 := by
  obtain ⟨s, m, rfl, rfl⟩ := exists_of_place? hx
  obtain ⟨t, n, rfl, rfl⟩ := exists_of_place? hy
  show (if _ then _ else _) = _
  rw [if_neg hne]

theorem place?_add_of_eq_zero (hx : x.place? = some (.quanta a)) (hy : y.place? = some (.quanta b))
    (h : a + b = 0) : (x + y).place? = some (.quanta 0) := by
  obtain ⟨s, m, rfl, rfl⟩ := exists_of_place? hx
  obtain ⟨t, n, rfl, rfl⟩ := exists_of_place? hy
  show place? (if _ then _ else _) = _
  rw [if_pos h, place?_finite]
  cases s && t <;> rfl

/-- A sum lies between the doubles that bound the exact sum. -/
theorem place?_add_between (hx : x.place? = some (.quanta a)) (hy : y.place? = some (.quanta b))
    (hlo : IsDouble lo) (hhi : IsDouble hi) (hlow : lo ≤ a + b) (hhigh : a + b ≤ hi) :
    ∃ q, (x + y).place? = some (.quanta q) ∧ lo ≤ q ∧ q ≤ hi := by
  by_cases hzero : a + b = 0
  · exact ⟨0, place?_add_of_eq_zero hx hy hzero, by omega, by omega⟩
  · rw [add_eq_round hx hy hzero]
    refine place?_round_between Nat.one_pos hlo hhi ?_ ?_
    · rwa [signed_natAbs, Int.natCast_one, Int.mul_one]
    · rwa [signed_natAbs, Int.natCast_one, Int.mul_one]

theorem place?_add_mem_uIcc (hx : x.place? = some (.quanta a)) (hy : y.place? = some (.quanta b))
    (hlo : IsDouble lo) (hhi : IsDouble hi) (h : a + b ∈ Set.uIcc lo hi) :
    ∃ q, (x + y).place? = some (.quanta q) ∧ q ∈ Set.uIcc lo hi := by
  rcases Set.mem_uIcc.1 h with ⟨hlow, hhigh⟩ | ⟨hlow, hhigh⟩
  · obtain ⟨q, hq, hge, hle⟩ := place?_add_between hx hy hlo hhi hlow hhigh
    exact ⟨q, hq, Set.mem_uIcc.2 (.inl ⟨hge, hle⟩)⟩
  · obtain ⟨q, hq, hge, hle⟩ := place?_add_between hx hy hhi hlo hlow hhigh
    exact ⟨q, hq, Set.mem_uIcc.2 (.inr ⟨hge, hle⟩)⟩

theorem place?_sub_mem_uIcc (hx : x.place? = some (.quanta a)) (hy : y.place? = some (.quanta b))
    (hlo : IsDouble lo) (hhi : IsDouble hi) (h : a - b ∈ Set.uIcc lo hi) :
    ∃ q, (x - y).place? = some (.quanta q) ∧ q ∈ Set.uIcc lo hi :=
  place?_add_mem_uIcc hx (place?_neg hy) hlo hhi h

/-- A product with a number between zero and one lies between zero and the other factor. -/
theorem place?_mul_fraction (hx : x.place? = some (.quanta a)) (hy : y.place? = some (.quanta b))
    (hlow : 0 ≤ b) (hhigh : b ≤ unit) :
    ∃ q, (x * y).place? = some (.quanta q) ∧ q ∈ Set.uIcc 0 a := by
  have hdouble := isDouble_of_place? hx
  obtain ⟨s, m, rfl, rfl⟩ := exists_of_place? hx
  obtain ⟨t, n, rfl, rfl⟩ := exists_of_place? hy
  have hsigned : signed (s ^^ t) (m.quanta * n.quanta) = signedQuanta s m * signedQuanta t n :=
    signed_mul s t m.quanta n.quanta
  have hround : ∀ {lo hi : Int}, IsDouble lo → IsDouble hi →
      lo * unit ≤ signedQuanta s m * signedQuanta t n →
      signedQuanta s m * signedQuanta t n ≤ hi * unit →
      ∃ q, (finite s m * finite t n).place? = some (.quanta q) ∧ lo ≤ q ∧ q ≤ hi :=
    fun hlo hhi h h' => place?_round_between unit_pos hlo hhi (hsigned ▸ h) (hsigned ▸ h')
  -- zero is the lower bound or the upper one, as the other factor is positive or negative
  rcases Int.le_total 0 (signedQuanta s m) with hpos | hneg
  · obtain ⟨q, hq, hge, hle⟩ := hround isDouble_zero hdouble
      (by rw [Int.zero_mul]; exact Int.mul_nonneg hpos hlow)
      (Int.mul_le_mul_of_nonneg_left hhigh hpos)
    exact ⟨q, hq, Set.mem_uIcc.2 (.inl ⟨hge, hle⟩)⟩
  · obtain ⟨q, hq, hge, hle⟩ := hround hdouble isDouble_zero
      (Int.mul_le_mul_of_nonpos_left hneg hhigh)
      (by rw [Int.zero_mul]; exact Int.mul_nonpos_of_nonpos_of_nonneg hneg hlow)
    exact ⟨q, hq, Set.mem_uIcc.2 (.inr ⟨hge, hle⟩)⟩

/-- The double nearest to an integer lies between the doubles that bound the integer. -/
theorem place?_ofInt_between {i : Int} (hlo : IsDouble lo) (hhi : IsDouble hi)
    (hlow : lo ≤ i * unit) (hhigh : i * unit ≤ hi) :
    ∃ q, (ofInt i).place? = some (.quanta q) ∧ lo ≤ q ∧ q ≤ hi := by
  have hsigned : signed (decide (i < 0)) (i.natAbs * unit) = i * unit := by
    have hmul := signed_mul (decide (i < 0)) false i.natAbs unit
    rwa [Bool.xor_false, signed_natAbs] at hmul
  refine place?_round_between Nat.one_pos hlo hhi ?_ ?_
  · rwa [hsigned, Int.natCast_one, Int.mul_one]
  · rwa [hsigned, Int.natCast_one, Int.mul_one]

/-- An integer that is a double is not rounded. -/
theorem place?_ofInt_of_isDouble {i : Int} (h : IsDouble (i * unit)) :
    (ofInt i).place? = some (.quanta (i * unit)) := by
  obtain ⟨q, hq, hge, hle⟩ := place?_ofInt_between h h (Int.le_refl _) (Int.le_refl _)
  rw [hq, Int.le_antisymm hle hge]

theorem place?_ofInt_zero : (ofInt 0).place? = some (.quanta 0) := by
  have hdouble : IsDouble (0 * unit) := by rw [Int.zero_mul]; exact isDouble_zero
  rw [place?_ofInt_of_isDouble hdouble, Int.zero_mul]

end Arithmetic

/-! ## The largest doubles -/

/-- The gap between the largest doubles, in quanta. -/
@[irreducible] def topSpacing : Nat := Nat.pow 2 2045

/-- The largest double, in quanta. -/
@[irreducible] def largest : Nat := limit - topSpacing

theorem topSpacing_eq_two_pow : ∃ k, k = 2045 ∧ topSpacing = Nat.pow 2 k := by
  unfold topSpacing
  exact ⟨_, rfl, rfl⟩

theorem largest_add_topSpacing : largest + topSpacing = limit := by decide +kernel

theorem isDouble_largest : IsDouble largest := by decide +kernel

theorem spacing_eq_topSpacing (hlow : limit ≤ 2 * q) (hhigh : q < limit) :
    spacing q = topSpacing := by
  obtain ⟨k, hk, hlimit⟩ := limit_eq_two_pow
  obtain ⟨j, hj, htop⟩ := topSpacing_eq_two_pow
  obtain ⟨i, rfl⟩ : ∃ i, k = i + 1 := ⟨2097, hk⟩
  have hpower : Nat.pow 2 (i + 1) = Nat.pow 2 i * 2 := rfl
  have hexponent : i - 52 = j := by omega
  rw [spacing_eq (k := i) (by omega) (by omega), htop, hexponent]

/-- Above half of the limit a multiple of the gap leaves all smaller doubles a gap below. -/
theorem add_topSpacing_le {m : Nat} (hq : spacing q ∣ q) (hm : topSpacing ∣ m)
    (hhalf : limit + 2 * topSpacing ≤ 2 * m) (hlimit : m ≤ limit) (h : q < m) :
    q + topSpacing ≤ m := by
  rcases Nat.lt_or_ge (2 * q) limit with hlt | hge
  · omega
  · rw [spacing_eq_topSpacing hge (by omega)] at hq
    exact add_le_of_dvd_of_lt hq hm h

theorem IsDouble.natAbs_le_largest {z : Int} (h : IsDouble z) : z.natAbs ≤ largest := by
  have hle := add_topSpacing_le h.1 (by decide +kernel) (by decide +kernel) (Nat.le_refl _) h.2
  have hsum := largest_add_topSpacing
  omega

theorem IsDouble.natAbs_add_topSpacing_le {z : Int} (h : IsDouble z) (hne : z.natAbs ≠ largest) :
    z.natAbs + topSpacing ≤ largest := by
  refine add_topSpacing_le h.1 (by decide +kernel) (by decide +kernel) (by decide +kernel) ?_
  exact Nat.lt_of_le_of_ne h.natAbs_le_largest hne

theorem spacing_le_topSpacing (h : nearestQuanta n 1 < limit) : spacing n ≤ topSpacing := by
  -- the limit would bound the result if it were a bound of the number
  have hlimit : spacing limit ∣ limit := by decide +kernel
  have hlt : n < limit := by
    by_contra hge
    have hle := le_nearestQuanta (n := n) Nat.one_pos hlimit (by omega)
    omega
  obtain ⟨k, hk, hpow⟩ := limit_eq_two_pow
  obtain ⟨j, hj, htop⟩ := topSpacing_eq_two_pow
  have hlog : n.log2 < k := by
    rcases Nat.eq_zero_or_pos n with rfl | hpos
    · rw [Nat.log2_zero]
      omega
    · rw [hpow] at hlt
      exact (Nat.log2_lt (Nat.ne_of_gt hpos)).2 hlt
  rw [htop]
  exact Nat.pow_le_pow_right (by decide) (by omega)

theorem nearestQuanta_lt_of_place?_round {negative : Bool} {z : Int}
    (h : (round negative n d).place? = some (.quanta z)) : nearestQuanta n d < limit := by
  by_contra hge
  rw [round, Magnitude.nearest?, dif_neg hge] at h
  cases negative <;> cases h

/-- A finite sum is at most the largest spacing away from the exact sum. -/
theorem near_of_place?_add {x y : Binary64} {a b c : Int} (hx : x.place? = some (.quanta a))
    (hy : y.place? = some (.quanta b)) (hc : (x + y).place? = some (.quanta c)) :
    c ≤ a + b + topSpacing ∧ a + b ≤ c + topSpacing := by
  by_cases hzero : a + b = 0
  · rw [place?_add_of_eq_zero hx hy hzero] at hc
    cases hc
    omega
  · rw [add_eq_round hx hy hzero] at hc
    have hlt := nearestQuanta_lt_of_place?_round hc
    rw [place?_round _ hlt] at hc
    cases hc
    have hspacing := spacing_le_topSpacing hlt
    obtain ⟨hle, hge⟩ := near_nearestQuanta (a + b).natAbs
    exact near_signed (Nat.le_trans hle (Nat.add_le_add_left hspacing _))
      (Nat.le_trans hge (Nat.add_le_add_left hspacing _))

end SceneScript.Binary64
