import SceneScript.Proofs.HandleRule
import SceneScript.Proofs.RoundingBounds

/-!
# Handles between neighbours

A curve of the catalog reaches a fraction of the way to the neighbour, whatever strength it is built
with. In exact arithmetic its handles would lie between the keyframe and that neighbour. They do so
in the arithmetic of the scene, too, although the way is rounded and then its sum with the frame:
frames are doubles, and rounding crosses no double.

The frames are integers of at most 53 bits with a distance of at most 53 bits, so neither of them is
changed in becoming a double. Nothing is asked of the values.

Main statements:

- `Curve.isFraction_clampStrength`: every strength is held between zero and one;
- `Curve.OfCatalog.isFraction`: so the hands of the catalog are fractions;
- `Side.place?_coordinate_mem_uIcc`: the formula stays between its ends;
- `Handles.compute_between`: the frame of a handle lies between the frames on its sides.
-/

namespace SceneScript

open Binary64 (unit IsDouble)

/-! ## Strengths -/

namespace Binary64

/-- Integers of 53 bits are doubles. -/
theorem isDouble_integer {i : Int} (hi : i.natAbs ≤ 0x20000000000000) : IsDouble (i * unit) :=
  isDouble_mul_unit (k := 0) (Nat.mul_one _).symm hi (by decide)

theorem place?_ofInt {i : Int} (hi : i.natAbs ≤ 0x20000000000000) :
    (ofInt i).place? = some (.quanta (i * unit)) :=
  place?_ofInt_of_isDouble (isDouble_integer hi)

/-- Whether a number lies between zero and one. -/
def IsFraction (x : Binary64) : Prop := ∃ b : Int, x.place? = some (.quanta b) ∧ 0 ≤ b ∧ b ≤ unit

theorem isFraction_ofInt {i : Int} (hlow : 0 ≤ i) (hhigh : i ≤ 1) : IsFraction (ofInt i) := by
  have hpos : (0 : Int) < unit := unit_cast_pos
  refine ⟨i * unit, place?_ofInt (by omega), Int.mul_nonneg hlow (Int.le_of_lt hpos), ?_⟩
  calc i * (unit : Int) ≤ 1 * unit := Int.mul_le_mul_of_nonneg_right hhigh (Int.le_of_lt hpos)
    _ = unit := Int.one_mul _

theorem isFraction_ofQuotient {n d : Nat} (hd : 0 < d) (h : n ≤ d) :
    IsFraction (ofQuotient n d) := by
  have hunit : IsDouble unit := by
    have hone := isDouble_integer (i := 1) (by decide)
    rwa [Int.one_mul] at hone
  refine place?_round_between hd isDouble_zero hunit ?_ ?_
  · rw [Int.zero_mul]
    exact Int.natCast_nonneg _
  · show ((n * unit : Nat) : Int) ≤ unit * d
    rw [Nat.mul_comm]
    exact_mod_cast Nat.mul_le_mul_left unit h

/-- Every number but `nan` is held between zero and one. -/
theorem isFraction_clampUnit {x : Binary64} (h : x.isNaN = false) : IsFraction x.clampUnit := by
  have hone : (ofInt 1).place? = some (.quanta unit) := by
    rw [place?_ofInt (by decide), Int.one_mul]
  unfold clampUnit
  split
  · exact isFraction_ofInt (Int.le_refl _) (by decide)
  · rename_i hlow
    split
    · exact isFraction_ofInt (by decide) (Int.le_refl _)
    · rename_i hhigh
      -- neither comparison holds, so the place is between the two
      cases hx : x.place? with
      | none =>
        cases x with
        | nan => cases h
        | _ => cases hx
      | some p =>
        rw [compare?_of_place? hx place?_ofInt_zero] at hlow
        rw [compare?_of_place? hx hone] at hhigh
        cases p with
        | bottom => cases hlow rfl
        | top => cases hhigh rfl
        | quanta b =>
          refine ⟨b, hx, Int.not_lt.1 fun hlt => hlow ?_, Int.not_lt.1 fun hlt => hhigh ?_⟩
          · exact congrArg some (Int.compare_eq_lt.2 hlt)
          · exact congrArg some (Int.compare_eq_gt.2 hlt)

end Binary64

namespace Curve

theorem value_clampStrength (strength : Binary64) : (clampStrength strength).value =
    if strength.isNaN then defaultStrength else strength.clampUnit := by
  unfold clampStrength
  split
  · rfl
  · split
    · rename_i hinside
      rw [strengthInside, Bool.and_eq_true] at hinside
      have hlow : strength.compare? (.ofInt 0) ≠ some .lt := by
        intro hlt
        rw [hlt] at hinside
        cases hinside.1
      have hhigh : strength.compare? (.ofInt 1) ≠ some .gt := by
        intro hgt
        rw [hgt] at hinside
        cases hinside.2
      rw [Binary64.clampUnit, if_neg hlow, if_neg hhigh]
    · rfl

/-- Every strength is held between zero and one. -/
theorem isFraction_clampStrength (strength : Binary64) :
    (clampStrength strength).value.IsFraction := by
  rw [value_clampStrength]
  cases hnan : strength.isNaN with
  | true => exact Binary64.isFraction_ofQuotient (by decide) (by decide)
  | false => exact Binary64.isFraction_clampUnit hnan

/-- Whether a curve is one of the catalog, with any strength. -/
def OfCatalog (c : Curve) : Prop :=
  c = .linear ∨ ∃ (shape : Shape) (strength : Binary64), c = (shape.curve strength).value

end Curve

/-- Whether a number is a fraction that a hand of the catalog reaches out: none, or a double between
zero and one. -/
def Number.IsFraction (r : Number) : Prop := r = 0 ∨ ∃ x : Binary64, r = .float x ∧ x.IsFraction

namespace Curve

theorem ofCatalog_curve (shape : Shape) (strength : Binary64) :
    (shape.curve strength).value.OfCatalog :=
  .inr ⟨shape, strength, rfl⟩

/-- Both parts of a hand of the catalog are fractions. -/
theorem OfCatalog.isFraction {c : Curve} (h : c.OfCatalog) {side : Side} {x y : Number}
    (hhand : side.hand c = some (x, y)) : x.IsFraction ∧ y.IsFraction := by
  rcases h with rfl | ⟨shape, strength, rfl⟩
  · cases side <;> cases hhand
  · have hstrength : (Number.float (clampStrength strength).value).IsFraction :=
      .inr ⟨_, rfl, isFraction_clampStrength strength⟩
    -- each hand has the strength in one of its parts and nothing in the other
    have hnone : (0 : Number).IsFraction := .inl rfl
    cases side <;> cases shape <;> cases hhand
    all_goals first
      | exact ⟨hstrength, hnone⟩
      | exact ⟨hnone, hstrength⟩

end Curve

/-! ## The formula on fractions -/

namespace Number

theorem combine_cases (exact : Int → Int → Int) (rounded : Binary64 → Binary64 → Binary64)
    (a b : Number) :
    combine exact rounded a b = .float (rounded a.toBinary64 b.toBinary64) ∨
      ∃ i j, a = .integer i ∧ b = .integer j ∧
        combine exact rounded a b = .integer (.ofInt (exact i.toInt j.toInt)) := by
  match a, b with
  | .integer i, .integer j =>
    by_cases hfits : Fits (exact i.toInt j.toInt)
    · exact .inr ⟨i, j, rfl, rfl, combine_integer exact rounded hfits⟩
    · refine .inl ?_
      rw [combine, ofInt?_eq_none.2 hfits]
      rfl
  | .integer _, .float _ => exact .inl rfl
  | .float _, .integer _ => exact .inl rfl
  | .float _, .float _ => exact .inl rfl

theorem combine_float_right (exact : Int → Int → Int)
    (rounded : Binary64 → Binary64 → Binary64) (a : Number) (y : Binary64) :
    combine exact rounded a (.float y) = .float (rounded a.toBinary64 y) := by
  cases a <;> rfl

variable {g r : Number}

theorem IsFraction.toBinary64 (hr : r.IsFraction) : r.toBinary64.IsFraction := by
  rcases hr with rfl | ⟨x, rfl, hx⟩
  · exact Binary64.isFraction_ofInt (Int.le_refl _) (by decide)
  · exact hx

/-- The only integer that is a part of the way is none of it. -/
theorem mul_fraction_cases (g : Number) (hr : r.IsFraction) :
    g * r = .float (g.toBinary64 * r.toBinary64) ∨ g * r = 0 := by
  rcases combine_cases (· * ·) (· * ·) g r with h | ⟨i, j, rfl, rfl, h⟩
  · exact .inl h
  · -- a double is no integer, so the fraction is the integer zero
    rcases hr with hzero | ⟨x, hfloat, -⟩
    · cases hzero
      refine .inr (h.trans ?_)
      show Number.integer (.ofInt (i.toInt * 0)) = 0
      rw [Int.mul_zero]
      rfl
    · cases hfloat

/-- A part of the way lies between none of it and all of it. -/
theorem place?_mul_fraction {a : Int} (hg : g.toBinary64.place? = some (.quanta a))
    (hr : r.IsFraction) :
    ∃ q, (g * r).toBinary64.place? = some (.quanta q) ∧ q ∈ Set.uIcc 0 a := by
  rcases mul_fraction_cases g hr with h | h
  · obtain ⟨b, hb, hlow, hhigh⟩ := hr.toBinary64
    rw [h]
    exact Binary64.place?_mul_fraction hg hb hlow hhigh
  · refine ⟨0, ?_, Set.left_mem_uIcc⟩
    rw [h]
    exact Binary64.place?_ofInt_zero

end Number

namespace Side

variable {side : Side}

/-- From `a` towards the side by `c`. -/
def reach {α : Type} [Add α] [Sub α] : Side → α → α → α
  | before, a, c => a - c
  | behind, a, c => a + c

theorem coordinate_eq_reach {α : Type} [Add α] [Sub α] [Mul α] (side : Side) (a b r : α) :
    side.coordinate a b r = side.reach a (side.gap a b * r) := by
  cases side <;> rfl

theorem reach_float (side : Side) (a : Number) (c : Binary64) :
    side.reach a (.float c) = .float (side.reach a.toBinary64 c) := by
  cases side with
  | before => exact Number.combine_float_right _ _ a c
  | behind => exact Number.combine_float_right _ _ a c

theorem reach_zero (side : Side) (a : Number) :
    side.reach a 0 = a ∨ side.reach a 0 = .float (side.reach a.toBinary64 (.ofInt 0)) := by
  cases a with
  | float x => cases side <;> exact .inr rfl
  | integer i =>
    left
    cases side with
    | before =>
      have hsub := Number.sub_integer (a := i) (b := 0)
      rw [Int64.toInt_zero, Int.sub_zero, Int64.ofInt_toInt] at hsub
      exact hsub (Number.fits_toInt i)
    | behind =>
      have hadd := Number.add_integer (a := i) (b := 0)
      rw [Int64.toInt_zero, Int.add_zero, Int64.ofInt_toInt] at hadd
      exact hadd (Number.fits_toInt i)

/-- A coordinate that is not the number itself is computed in doubles. -/
theorem coordinate_cases (side : Side) (a b : Number) {r : Number} (hr : r.IsFraction) :
    side.coordinate a b r = a ∨ side.coordinate a b r =
      .float (side.reach a.toBinary64 (side.gap a b * r).toBinary64) := by
  rw [coordinate_eq_reach]
  rcases Number.mul_fraction_cases (side.gap a b) hr with h | h
  · rw [h]
    exact .inr (side.reach_float a _)
  · rw [h]
    exact side.reach_zero a

/-- A part of the way does not lead beyond the neighbour. -/
theorem reach_mem_uIcc {t u c : Int} (hc : c ∈ Set.uIcc 0 (side.gap t u)) :
    side.reach t c ∈ Set.uIcc t u := by
  cases side <;> simp only [Set.mem_uIcc, gap, reach] at hc ⊢ <;> omega

theorem place?_reach_mem_uIcc {x y : Binary64} {a b lo hi : Int}
    (hx : x.place? = some (.quanta a)) (hy : y.place? = some (.quanta b)) (hlo : IsDouble lo)
    (hhi : IsDouble hi) (h : side.reach a b ∈ Set.uIcc lo hi) :
    ∃ q, (side.reach x y).place? = some (.quanta q) ∧ q ∈ Set.uIcc lo hi := by
  cases side with
  | before => exact Binary64.place?_sub_mem_uIcc hx hy hlo hhi h
  | behind => exact Binary64.place?_add_mem_uIcc hx hy hlo hhi h

section Integers

variable (side : Side) {t u : Int64} (ht : t.toInt.natAbs ≤ 0x10000000000000)
  (hu : u.toInt.natAbs ≤ 0x10000000000000)

include ht hu

/-- The distance of two integers of 53 bits is an integer of 53 bits, so nothing is rounded. -/
theorem place?_gap_integer : (side.gap (.integer t) (.integer u) : Number).toBinary64.place? =
    some (.quanta (side.gap (t.toInt * unit) (u.toInt * unit))) := by
  have hgap : (side.gap t.toInt u.toInt).natAbs ≤ 0x20000000000000 := by
    cases side <;> simp only [gap] <;> omega
  have hfits : Number.Fits (side.gap t.toInt u.toInt) := by
    unfold Number.Fits
    omega
  have hscaled : side.gap (t.toInt * (unit : Int)) (u.toInt * unit) =
      side.gap t.toInt u.toInt * unit := by
    cases side <;> exact (Int.sub_mul ..).symm
  rw [gap_integer hfits, hscaled]
  show (Binary64.ofInt (Int64.ofInt _).toInt).place? = _
  rw [Number.toInt_ofInt hfits]
  exact Binary64.place?_ofInt hgap

/-- **The formula stays between its ends** where these are integers of 53 bits. -/
theorem place?_coordinate_mem_uIcc {r : Number} (hr : r.IsFraction) :
    ∃ q, (side.coordinate (.integer t) (.integer u) r).place? = some (.quanta q) ∧
      q ∈ Set.uIcc (t.toInt * (unit : Int)) (u.toInt * unit) := by
  have hdouble : ∀ {i : Int}, i.natAbs ≤ 0x10000000000000 → IsDouble (i * unit) :=
    fun hi => Binary64.isDouble_integer (Nat.le_trans hi (by decide))
  rcases side.coordinate_cases (.integer t) (.integer u) hr with h | h
  · rw [h]
    exact ⟨_, rfl, Set.left_mem_uIcc⟩
  · have hown : (Number.integer t).toBinary64.place? = some (.quanta (t.toInt * unit)) :=
      Binary64.place?_ofInt (Nat.le_trans ht (by decide))
    obtain ⟨c, hc, hmem⟩ := Number.place?_mul_fraction (side.place?_gap_integer ht hu) hr
    rw [h]
    exact place?_reach_mem_uIcc hown hc (hdouble ht) (hdouble hu) (reach_mem_uIcc hmem)

end Integers

end Side

/-! ## Handles between neighbours -/

theorem Number.atMost_of_place? {a b : Number} {p q : Int} (ha : a.place? = some (.quanta p))
    (hb : b.place? = some (.quanta q)) (h : p ≤ q) : a.AtMost b := by
  refine ⟨(Place.quanta p).value, (Place.quanta q).value, ?_, ?_, ?_⟩
  · rw [exactValue?_eq, ha]
    rfl
  · rw [exactValue?_eq, hb]
    rfl
  · rcases Int.lt_or_eq_of_le h with hlt | rfl
    · exact le_of_lt (Place.value_quanta_lt hlt)
    · exact le_refl _

theorem Number.toInt_lt_of_compare? {i j : Int64}
    (h : (Number.integer i).compare? (.integer j) = some .lt) : i.toInt < j.toInt := by
  have hcompare : compare i j = .lt := Option.some.inj h
  rwa [compare_toInt, Int.compare_eq_lt] at hcompare

/-- The formula stays between all integers that both of its ends are between. -/
theorem Side.coordinate_between {side : Side} {t u lo hi : Int64}
    (ht : t.toInt.natAbs ≤ 0x10000000000000) (hu : u.toInt.natAbs ≤ 0x10000000000000) {r : Number}
    (hr : r.IsFraction) (hlow : lo.toInt ≤ t.toInt ∧ lo.toInt ≤ u.toInt)
    (hhigh : t.toInt ≤ hi.toInt ∧ u.toInt ≤ hi.toInt) :
    (Number.integer lo).AtMost (side.coordinate (.integer t) (.integer u) r) ∧
      (side.coordinate (.integer t) (.integer u) r).AtMost (.integer hi) := by
  obtain ⟨q, hq, hmem⟩ := place?_coordinate_mem_uIcc side ht hu hr
  have hscale : ∀ {i j : Int64}, i.toInt ≤ j.toInt → i.toInt * (unit : Int) ≤ j.toInt * unit :=
    fun hle => Int.mul_le_mul_of_nonneg_right hle (Int.le_of_lt Binary64.unit_cast_pos)
  exact ⟨Number.atMost_of_place? rfl hq (le_trans (le_inf (hscale hlow.1) (hscale hlow.2)) hmem.1),
    Number.atMost_of_place? hq rfl (le_trans hmem.2 (sup_le (hscale hhigh.1) (hscale hhigh.2)))⟩

namespace Handles

open Side (before behind)

variable {points : List (Number × KeyframeValue)} {curves : List Curve}

theorem getElem?_knots (points : List (Number × KeyframeValue)) (curves : List Curve) (i : Nat) :
    (knots points curves)[i]? =
      points[i]?.map fun p => ⟨p.1, p.2, curves[i]?.getD .linear⟩ := by
  induction points generalizing curves i with
  | nil => rfl
  | cons p rest ih => cases curves <;> cases i <;> simp [knots, ih]

theorem map_frame_knots (points : List (Number × KeyframeValue)) (curves : List Curve) :
    (knots points curves).map (·.frame) = points.map (·.1) := by
  induction points generalizing curves with
  | nil => rfl
  | cons p rest ih => cases curves <;> simp [knots, ih]

theorem length_compute (points : List (Number × KeyframeValue)) (curves : List Curve) :
    (compute points curves).length = points.length := by
  rw [compute, length_mapNeighbours, ← List.length_map (f := Knot.frame), map_frame_knots,
    List.length_map]

/-- A handle that is computed takes a neighbour and a hand of the curve. -/
theorem handleOn_compute (side : Side) {i : Nat} {p : Number × KeyframeValue} {c : Handles}
    {x y : Number} (hp : points[i]? = some p) (hc : (compute points curves)[i]? = some c)
    (h : c.handleOn side = some (x, y)) : ∃ b r s, side.neighbour? points i = some b ∧
      side.hand (curves[i]?.getD .linear) = some (r, s) ∧ x = side.coordinate p.1 b.1 r := by
  rw [getElem?_compute, getElem?_knots, hp] at hc
  cases hc
  rw [handleOn_between (Side.neighbour? · (knots points curves) i), Option.bind_eq_some_iff] at h
  obtain ⟨k, hk, hhandle⟩ := h
  have hframe := congrArg (Option.map Knot.frame) hk
  rw [← Side.neighbour?_map, map_frame_knots, Side.neighbour?_map, Option.map_some,
    Option.map_eq_some_iff] at hframe
  obtain ⟨b, hb, hframe⟩ := hframe
  obtain ⟨r, s, v, w, hhand, -, -, hxy⟩ := Knot.handleOn_eq_some_iff.1 hhandle
  cases hxy
  exact ⟨b, r, s, hb, hhand, by rw [hframe]⟩

/-- The frame of a computed handle is between all integers that both frames are between. -/
theorem exists_bounds
    (hframes : ∀ p ∈ points, ∃ t : Int64, p.1 = .integer t ∧ t.toInt.natAbs ≤ 0x10000000000000)
    (hcurves : ∀ c ∈ curves, c.OfCatalog) (side : Side) {i : Nat} {p : Number × KeyframeValue}
    {c : Handles} {x y : Number} (hp : points[i]? = some p)
    (hc : (compute points curves)[i]? = some c) (h : c.handleOn side = some (x, y)) :
    ∃ (t u : Int64) (b : Number × KeyframeValue),
      side.neighbour? points i = some b ∧ p.1 = .integer t ∧ b.1 = .integer u ∧
        ∀ lo hi : Int64, lo.toInt ≤ t.toInt ∧ lo.toInt ≤ u.toInt →
          t.toInt ≤ hi.toInt ∧ u.toInt ≤ hi.toInt →
            (Number.integer lo).AtMost x ∧ x.AtMost (.integer hi) := by
  obtain ⟨b, r, s, hb, hhand, rfl⟩ := handleOn_compute side hp hc h
  obtain ⟨t, ht, htsize⟩ := hframes p (List.mem_of_getElem? hp)
  obtain ⟨u, hu, husize⟩ := hframes b (Side.mem_of_neighbour? hb)
  have hcatalog : (curves[i]?.getD .linear).OfCatalog := by
    cases hcurve : curves[i]? with
    | none => exact .inl rfl
    | some curve => exact hcurves curve (List.mem_of_getElem? hcurve)
  refine ⟨t, u, b, hb, ht, hu, fun lo hi hlow hhigh => ?_⟩
  rw [ht, hu]
  exact Side.coordinate_between htsize husize (hcatalog.isFraction hhand).1 hlow hhigh

/-- **Handles stay between neighbouring frames.** Where the frames are integers of at most 53 bits
that ascend strictly and the curves are those of the catalog, built with any strength, the frame of
each computed left handle lies between the frame before and the frame of the point, and that of each
right handle between the frame of the point and the frame behind. -/
theorem compute_between
    (hframes : ∀ p ∈ points, ∃ t : Int64, p.1 = .integer t ∧ t.toInt.natAbs ≤ 0x10000000000000)
    (hascending : Ascending (points.map (·.1))) (hcurves : ∀ c ∈ curves, c.OfCatalog) :
    (compute points curves).length = points.length ∧
      ∀ i p c, points[i]? = some p → (compute points curves)[i]? = some c →
        (∀ x y, c.left = some (x, y) → ∃ b, before.neighbour? points i = some b ∧
          b.1.AtMost x ∧ x.AtMost p.1) ∧
        (∀ x y, c.right = some (x, y) → ∃ b, behind.neighbour? points i = some b ∧
          p.1.AtMost x ∧ x.AtMost b.1) := by
  have hordered : points.Pairwise fun b b' => b.1.compare? b'.1 = some .lt :=
    List.pairwise_map.1 hascending
  refine ⟨length_compute points curves, fun i p c hp hc => ⟨?_, ?_⟩⟩
  · intro x y hleft
    obtain ⟨t, u, b, hb, ht, hu, hbounds⟩ := exists_bounds hframes hcurves before hp hc hleft
    have hcompare := Side.rel_neighbour? hordered hp hb
    refine ⟨b, hb, ?_⟩
    rw [ht, hu] at hcompare ⊢
    have hle := Int.le_of_lt (Number.toInt_lt_of_compare? hcompare)
    exact hbounds u t ⟨hle, Int.le_refl _⟩ ⟨Int.le_refl _, hle⟩
  · intro x y hright
    obtain ⟨t, u, b, hb, ht, hu, hbounds⟩ := exists_bounds hframes hcurves behind hp hc hright
    have hcompare := Side.rel_neighbour? hordered hp hb
    refine ⟨b, hb, ?_⟩
    rw [ht, hu] at hcompare ⊢
    have hle := Int.le_of_lt (Number.toInt_lt_of_compare? hcompare)
    exact hbounds t u ⟨Int.le_refl _, hle⟩ ⟨hle, Int.le_refl _⟩

/-- Three points, the last a text; the last curve is missing. -/
def heldPoints : List (Number × KeyframeValue) :=
  [(.integer (-5), .number 1), (24, .number (.float (.ofQuotient 7 2))), (30, .text "end")]

/-- Two curves whose strengths are held between zero and one. -/
def heldCurves : List Curve :=
  [(Shape.easeOut.curve (.infinite false)).value, (Shape.easeInAndOut.curve .nan).value]

theorem compute_between_held :
    (∀ p ∈ heldPoints, ∃ t : Int64, p.1 = .integer t ∧ t.toInt.natAbs ≤ 0x10000000000000) ∧
      Ascending (heldPoints.map (·.1)) ∧ (∀ c ∈ heldCurves, c.OfCatalog) ∧
      ∃ c x y, (compute heldPoints heldCurves)[1]? = some c ∧ c.left = some (x, y) ∧
        Number.AtMost (.integer (-5)) x ∧ x.AtMost 24 := by
  have hframes : ∀ p ∈ heldPoints,
      ∃ t : Int64, p.1 = .integer t ∧ t.toInt.natAbs ≤ 0x10000000000000 := by
    simp only [heldPoints, List.forall_mem_cons]
    exact ⟨⟨-5, rfl, by decide⟩, ⟨24, rfl, by decide⟩, ⟨30, rfl, by decide⟩, nofun⟩
  have hascending : Ascending (heldPoints.map (·.1)) := by
    simp only [heldPoints, Ascending, List.map_cons, List.map_nil]
    decide
  have hcurves : ∀ c ∈ heldCurves, c.OfCatalog := by
    simp only [heldCurves, List.forall_mem_cons]
    exact ⟨Curve.ofCatalog_curve _ _, Curve.ofCatalog_curve _ _, List.forall_mem_nil _⟩
  have hbetween := (compute_between hframes hascending hcurves).2 1 _ _ rfl rfl
  obtain ⟨b, hb, hlow, hhigh⟩ := hbetween.1 _ _ rfl
  cases hb
  exact ⟨hframes, hascending, hcurves, _, _, _, rfl, rfl, hlow, hhigh⟩

end Handles

end SceneScript
