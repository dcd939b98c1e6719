import Mathlib.Algebra.Order.Field.Rat
import Mathlib.Algebra.Order.Ring.Cast
import Mathlib.Order.Compare
import Mathlib.Order.WithBot
import Mathlib.Tactic.Ring
import SceneScript.Proofs.KeyOrder

/-!
# Comparison is exact

Every number but `nan` has an exact value, which is a rational number or one of the two ends of the
line: that of an integer is the integer, that of a double is read off its bits. A place is a value
in other units, so comparing places is comparing values.

Main statements:

- `Binary64.bitValue?_toBits`: the place of a double is what its bits stand for;
- `Number.exactValue?_eq`: the place of a number is its exact value;
- `Number.comparison_exact`: numbers compare as their exact values do, and the order used for
  sorting is a total one that extends this.
-/

namespace SceneScript

open Binary64 (unit)

/-- The line of rational numbers with its two ends. -/
abbrev ExtendedRat := WithBot (WithTop ℚ)

/-- A rational number on the line. -/
def ExtendedRat.ofRat (r : ℚ) : ExtendedRat := ((r : WithTop ℚ) : WithBot (WithTop ℚ))

theorem ExtendedRat.ofRat_strictMono : StrictMono ofRat :=
  WithBot.coe_strictMono.comp WithTop.coe_strictMono

namespace Binary64

/-- The value that 64 bits stand for: a sign bit, eleven bits of exponent and 52 of fraction. The
largest exponent is that of the infinities and of `nan`, the smallest has no leading one. -/
def bitValue? (bits : UInt64) : Option ExtendedRat :=
  let negative := bits.toNat >>> 63 = 1
  let exponent := bits.toNat >>> 52 % 0x800
  let fraction := bits.toNat % 0x10000000000000
  let sign : ℚ := if negative then -1 else 1
  if exponent = 2047 then
    if fraction = 0 then some (if negative then ⊥ else ⊤) else none
  else if exponent = 0 then some (.ofRat (sign * fraction / 2 ^ 1074))
  else some (.ofRat (sign * ((0x10000000000000 + fraction) * 2 ^ exponent) / 2 ^ 1075))

end Binary64

namespace Place

/-- The value of a place, in units instead of quanta. -/
def value : Place → ExtendedRat
  | .bottom => ⊥
  | .quanta q => .ofRat (q / unit)
  | .top => ⊤

theorem unit_rat_pos : (0 : ℚ) < unit := Nat.cast_pos.2 Binary64.unit_pos

theorem value_quanta_lt {i j : ℤ} (h : i < j) :
    (Place.quanta i).value < (Place.quanta j).value :=
  ExtendedRat.ofRat_strictMono (div_lt_div_of_pos_right (Int.cast_lt.2 h) unit_rat_pos)

theorem bot_lt_value (q : ℤ) : ⊥ < (Place.quanta q).value := WithBot.bot_lt_coe _

theorem value_lt_top (q : ℤ) : (Place.quanta q).value < ⊤ :=
  WithBot.coe_lt_coe.2 (WithTop.coe_lt_top _)

theorem bot_lt_top : (⊥ : ExtendedRat) < ⊤ := WithBot.bot_lt_coe _

theorem compare_eq_cmp_value (p q : Place) : p.compare q = cmp p.value q.value := by
  cases p <;> cases q
  case quanta.quanta p q =>
    show Ord.compare p q = _
    rcases Int.lt_trichotomy p q with hlt | rfl | hgt
    · rw [Int.compare_eq_lt.2 hlt, (cmp_eq_lt_iff _ _).2 (value_quanta_lt hlt)]
    · rw [Int.compare_eq_eq.2 rfl, cmp_self_eq_eq]
    · rw [Int.compare_eq_gt.2 hgt, (cmp_eq_gt_iff _ _).2 (value_quanta_lt hgt)]
  case bottom.bottom => exact (cmp_self_eq_eq _).symm
  case top.top => exact (cmp_self_eq_eq _).symm
  case bottom.quanta q => exact (cmp_eq_lt_iff _ _).2 (bot_lt_value q) |>.symm
  case bottom.top => exact (cmp_eq_lt_iff _ _).2 bot_lt_top |>.symm
  case quanta.bottom q => exact (cmp_eq_gt_iff _ _).2 (bot_lt_value q) |>.symm
  case quanta.top q => exact (cmp_eq_lt_iff _ _).2 (value_lt_top q) |>.symm
  case top.bottom => exact (cmp_eq_gt_iff _ _).2 bot_lt_top |>.symm
  case top.quanta q => exact (cmp_eq_gt_iff _ _).2 (value_lt_top q) |>.symm

end Place

/-! ## Values of doubles -/

namespace Binary64

/-- The value of a number of quanta. -/
theorem div_unit (r : ℚ) : r / unit = r / 2 ^ 1074 := by
  obtain ⟨k, hk, hunit⟩ := unit_eq_two_pow
  rw [hunit, Nat.pow_eq, Nat.cast_pow, hk, Nat.cast_ofNat]

end Binary64

namespace Magnitude

/-- The exponent and the fraction that a magnitude is stored with. -/
theorem exists_fields (size : Magnitude) :
    ∃ exponent fraction, exponent < 2047 ∧ fraction < 0x10000000000000 ∧
      (size.quanta.log2 - 52) <<< 52 + size.quanta >>> (size.quanta.log2 - 52) =
        exponent * 0x10000000000000 + fraction ∧
      (exponent = 0 ∧ size.quanta = fraction ∨
        0 < exponent ∧ 2 * size.quanta = (0x10000000000000 + fraction) * 2 ^ exponent) := by
  obtain ⟨q, hdvd, hlimit⟩ := size
  simp only [Nat.shiftLeft_eq, Nat.shiftRight_eq_div_pow]
  rcases Nat.lt_or_ge q 0x10000000000000 with hsmall | hlarge
  · have hlog : q.log2 - 52 = 0 := by
      rcases Nat.eq_zero_or_pos q with rfl | hpos
      · rfl
      · have := (Nat.log2_lt (k := 52) (by omega)).2 hsmall
        omega
    exact ⟨0, q, by decide, hsmall, by simp [hlog], .inl ⟨rfl, rfl⟩⟩
  · have hne : q ≠ 0 := by omega
    have hlow : 52 ≤ q.log2 := (Nat.le_log2 hne).2 hlarge
    have hhigh : q.log2 < 2098 := by
      obtain ⟨k, hk, hpow⟩ := Binary64.limit_eq_two_pow
      rw [hpow] at hlimit
      exact hk ▸ (Nat.log2_lt hne).2 hlimit
    -- the significand has its leading one at bit 52
    obtain ⟨m, hm⟩ := hdvd
    have hspacing : Binary64.spacing q = 2 ^ (q.log2 - 52) := rfl
    rw [hspacing] at hm
    generalize hshift : q.log2 - 52 = shift at hm ⊢
    have hpos : 0 < 2 ^ shift := Nat.two_pow_pos shift
    have hquotient : q / 2 ^ shift = m := by rw [hm, Nat.mul_div_cancel_left m hpos]
    have hmlow : 0x10000000000000 ≤ m := by
      have hself := Nat.log2_self_le hne
      rw [show q.log2 = shift + 52 by omega, Nat.pow_add, hm] at hself
      exact Nat.le_of_mul_le_mul_left hself hpos
    have hmhigh : m < 0x20000000000000 := by
      have hself := Nat.lt_log2_self (n := q)
      rw [show q.log2 + 1 = shift + 53 by omega, Nat.pow_add, hm] at hself
      exact Nat.lt_of_mul_lt_mul_left hself
    refine ⟨shift + 1, m - 0x10000000000000, by omega, by omega, by omega, .inr ⟨by omega, ?_⟩⟩
    rw [Nat.add_sub_cancel' hmlow, hm, Nat.pow_succ]
    ring

end Magnitude

namespace Binary64

theorem toNat_toBits_finite (negative : Bool) (size : Magnitude) :
    (toBits (.finite negative size)).toNat = (if negative then 0x8000000000000000 else 0) +
      ((size.quanta.log2 - 52) <<< 52 + size.quanta >>> (size.quanta.log2 - 52)) := by
  obtain ⟨exponent, fraction, hexponent, hfraction, hword, -⟩ := size.exists_fields
  have hbit : (toBits.signBit negative).toNat = if negative then 0x8000000000000000 else 0 := by
    cases negative <;> rfl
  have hrest : (UInt64.ofNat (exponent * 0x10000000000000 + fraction)).toNat =
      exponent * 0x10000000000000 + fraction := by
    refine UInt64.toNat_ofNat_of_lt' ?_
    show _ < 0x10000000000000000
    omega
  simp only [toBits, hword, UInt64.toNat_add, hbit, hrest]
  exact Nat.mod_eq_of_lt (by split <;> omega)

theorem signedQuanta_rat (negative : Bool) (size : Magnitude) :
    (signedQuanta negative size : ℚ) = (if negative then -1 else 1) * size.quanta := by
  cases negative <;> simp [signedQuanta]

/-- **The value of a double is read off its bits.** -/
theorem bitValue?_toBits (x : Binary64) : bitValue? x.toBits = x.place?.map Place.value := by
  cases x with
  | nan => decide
  | infinite negative => cases negative <;> decide
  | finite negative size =>
    obtain ⟨exponent, fraction, hexponent, hfraction, hword, hfields⟩ := size.exists_fields
    have hbits := toNat_toBits_finite negative size
    rw [hword] at hbits
    have hsign : ((toBits (.finite negative size)).toNat >>> 63 = 1) ↔ negative = true := by
      rw [hbits, Nat.shiftRight_eq_div_pow]
      cases negative <;> simp <;> omega
    have he : (toBits (.finite negative size)).toNat >>> 52 % 0x800 = exponent := by
      rw [hbits, Nat.shiftRight_eq_div_pow]
      split <;> omega
    have hf : (toBits (.finite negative size)).toNat % 0x10000000000000 = fraction := by
      rw [hbits]
      split <;> omega
    simp only [bitValue?, hsign, he, hf, if_neg (Nat.ne_of_lt hexponent)]
    rw [place?_finite, Option.map_some, Place.value, div_unit, signedQuanta_rat]
    rcases hfields with ⟨rfl, hquanta⟩ | ⟨hpos, hquanta⟩
    · rw [if_pos rfl, hquanta]
    · rw [if_neg (Nat.ne_of_gt hpos)]
      have hcast : (0x10000000000000 + fraction : ℚ) * 2 ^ exponent = 2 * size.quanta := by
        exact_mod_cast hquanta.symm
      rw [hcast, pow_succ' (2 : ℚ) 1074, mul_left_comm, mul_div_mul_left _ _ two_ne_zero]

end Binary64

/-! ## Values of numbers -/

namespace Number

/-- The exact value of a number; `nan` has none. -/
def exactValue? : Number → Option ExtendedRat
  | .integer i => some (.ofRat i.toInt)
  | .float x => Binary64.bitValue? x.toBits

theorem exactValue?_eq (a : Number) : a.exactValue? = a.place?.map Place.value := by
  cases a with
  | integer i =>
    have hunit : (unit : ℚ) ≠ 0 := ne_of_gt Place.unit_rat_pos
    rw [exactValue?, place?, Option.map_some, Place.value, Int.cast_mul, Int.cast_natCast,
      mul_div_cancel_right₀ _ hunit]
  | float x => exact Binary64.bitValue?_toBits x

theorem exactValue?_eq_none_iff {a : Number} : a.exactValue? = none ↔ a.isNaN = true := by
  rw [exactValue?_eq, Option.map_eq_none_iff, place?_eq_none_iff]

theorem exists_exactValue? {a : Number} (h : a.isNaN = false) : ∃ v, a.exactValue? = some v := by
  refine Option.ne_none_iff_exists'.1 fun hnone => ?_
  rw [exactValue?_eq_none_iff.1 hnone] at h
  cases h

/-- Numbers compare as their values do. -/
theorem compare?_eq_cmp (a b : Number) :
    a.compare? b = do return cmp (← a.exactValue?) (← b.exactValue?) := by
  rw [compare?_eq, exactValue?_eq, exactValue?_eq]
  cases a.place? with
  | none => rfl
  | some p =>
    cases b.place? with
    | none => rfl
    | some q => exact congrArg some (Place.compare_eq_cmp_value p q)

theorem beq_iff_exactValue? {a b : Number} :
    (a == b) = true ↔ ∃ v, a.exactValue? = some v ∧ b.exactValue? = some v := by
  show decide (a.compare? b = some .eq) = true ↔ _
  rw [decide_eq_true_iff, compare?_eq_cmp]
  cases a.exactValue? with
  | none => exact ⟨nofun, nofun⟩
  | some v =>
    cases b.exactValue? with
    | none => exact ⟨nofun, nofun⟩
    | some w =>
      show some (cmp v w) = some .eq ↔ _
      rw [Option.some_inj, cmp_eq_eq_iff]
      constructor
      · rintro rfl
        exact ⟨v, rfl, rfl⟩
      · rintro ⟨u, hv, hw⟩
        exact Option.some.inj (hv.trans hw.symm)

theorem beq_self (a : Number) : (a == a) = !a.isNaN := by
  rw [Bool.eq_iff_iff, beq_iff, Bool.not_eq_true', ← Bool.not_eq_true, ← place?_eq_none_iff,
    ← ne_eq, Option.ne_none_iff_exists']
  simp only [and_self]

theorem totalCompare_of_isNaN {a b : Number} (h : b.isNaN = true) :
    a.totalCompare b = if a.isNaN then .eq else .lt := by
  have hnone : a.compare? b = none := compare?_eq_none_iff.2 (.inr h)
  rw [totalCompare, hnone, h]
  cases a.isNaN <;> rfl

/-- **Comparison is exact and has a total order.** Numbers compare as their exact values do, which
`nan` alone has none of, and they are equal exactly if these are the same. The order used for
sorting is total, extends numeric comparison, and has all `nan` as one behind everything else. -/
theorem comparison_exact :
    (∀ a : Number, a.exactValue? = none ↔ a.isNaN = true) ∧
    (∀ a b : Number, a.compare? b = do return cmp (← a.exactValue?) (← b.exactValue?)) ∧
    (∀ a b : Number, a.compare? b = none ↔ a.isNaN = true ∨ b.isNaN = true) ∧
    (∀ a b : Number, (a == b) = true ↔ ∃ v, a.exactValue? = some v ∧ b.exactValue? = some v) ∧
    (∀ a b : Number, (a == b) = (b == a)) ∧
    (∀ a b c : Number, (a == b) = true → (b == c) = true → (a == c) = true) ∧
    (∀ a : Number, a.totalCompare a = .eq) ∧
    (∀ a b : Number, (a.totalCompare b).isLE ∨ (b.totalCompare a).isLE) ∧
    (∀ a b c : Number, (a.totalCompare b).isLE → (b.totalCompare c).isLE →
      (a.totalCompare c).isLE) ∧
    (∀ a b : Number, a.totalCompare b = (b.totalCompare a).swap) ∧
    (∀ (a b : Number) (o : Ordering), a.compare? b = some o → a.totalCompare b = o) ∧
    (∀ a b : Number, b.isNaN = true → a.totalCompare b = if a.isNaN then .eq else .lt) := by
  refine ⟨fun _ => exactValue?_eq_none_iff, compare?_eq_cmp, fun _ _ => compare?_eq_none_iff,
    fun _ _ => beq_iff_exactValue?, fun _ _ => BEq.comm, fun _ _ _ => BEq.trans,
    fun _ => Std.ReflCmp.compare_self, isLE_total, fun _ _ _ => isLE_trans, totalCompare_swap,
    fun _ _ _ => totalCompare_of_compare?, fun _ _ => totalCompare_of_isNaN⟩

end Number

end SceneScript
