import SceneScript.Proofs.ExactOrder
import SceneScript.Proofs.KeyframeOrder

/-!
# The rule of handles

The handles of a keyframe are found in the same way on both of its sides: without a neighbour on a
side there is none; otherwise it is the handle that the keyframe has of its own, and only for lack
of one it is computed. What is computed takes a hand of the curve on that side and numbers on both
ends, and both of its coordinates follow one formula. So a rule is stated for a `Side`, and a
neighbour is named by the position in the sorted list.

The formula is read over any numbers that can be added, subtracted and multiplied. Over the numbers
of a scene it stays with integers as long as each of its three steps fits, and then it gives what it
gives over the integers.

Main statements:

- `getElem?_keyframes`, `getElem?_compute`: what is shown and what is computed at a position;
- `Knot.handleOn_rule`: when a handle is computed, and what it is;
- `keyframes_follow_rule`: the rule at every position and side of every spline.
-/

namespace SceneScript

/-! ## Two sides -/

/-- A side of a keyframe: towards the one before it or towards the one behind it. -/
inductive Side
  | before
  | behind
deriving DecidableEq

namespace Side

/-- The item next to a position. -/
def neighbour? {α : Type} : Side → List α → Nat → Option α
  | before, _, 0 => none
  | before, l, i + 1 => l[i]?
  | behind, l, i => l[i + 1]?

/-- The hand of a curve on a side. -/
def hand : Side → Curve → Option Hand
  | before => Curve.left
  | behind => Curve.right

section Formula

variable {α : Type} [Add α] [Sub α] [Mul α]

/-- How far it is from `a` to its neighbour `b`, against the time before and with it behind. -/
def gap : Side → α → α → α
  | before, a, b => a - b
  | behind, a, b => b - a

/-- The coordinate at a fraction `r` of the way from `a` to its neighbour `b`. -/
def coordinate : Side → α → α → α → α
  | before, a, b, r => a - before.gap a b * r
  | behind, a, b, r => a + behind.gap a b * r

end Formula

/-- Whether all steps of the formula fit 64 bits. -/
def StepsFit (side : Side) (a b r : Int) : Prop :=
  Number.Fits (side.gap a b) ∧ Number.Fits (side.gap a b * r) ∧
    Number.Fits (side.coordinate a b r)

instance (side : Side) (a b r : Int) : Decidable (side.StepsFit a b r) :=
  inferInstanceAs (Decidable (_ ∧ _ ∧ _))

theorem neighbour?_map {α β : Type} (side : Side) (f : α → β) (l : List α) (i : Nat) :
    side.neighbour? (l.map f) i = (side.neighbour? l i).map f := by
  cases side with
  | before => cases i <;> simp [neighbour?]
  | behind => simp [neighbour?]

theorem mem_of_neighbour? {α : Type} {side : Side} {l : List α} {i : Nat} {b : α}
    (h : side.neighbour? l i = some b) : b ∈ l := by
  cases side with
  | before =>
    cases i with
    | zero => cases h
    | succ j => exact List.mem_of_getElem? h
  | behind => exact List.mem_of_getElem? h

/-- A neighbour comes first before an item and second behind it. -/
theorem rel_neighbour? {α : Type} {R : α → α → Prop} {l : List α} (h : l.Pairwise R) {i : Nat}
    {a b : α} (ha : l[i]? = some a) {side : Side} (hb : side.neighbour? l i = some b) :
    match side with
    | before => R b a
    | behind => R a b := by
  obtain ⟨hi, rfl⟩ := List.getElem?_eq_some_iff.1 ha
  have hrel := List.pairwise_iff_getElem.1 h
  cases side with
  | before =>
    cases i with
    | zero => cases hb
    | succ j =>
      obtain ⟨hj, rfl⟩ := List.getElem?_eq_some_iff.1 hb
      exact hrel j (j + 1) hj hi (Nat.lt_succ_self j)
  | behind =>
    obtain ⟨hj, rfl⟩ := List.getElem?_eq_some_iff.1 hb
    exact hrel i (i + 1) hi hj (Nat.lt_succ_self i)

end Side

theorem getElem?_mapNeighbours_sides {α β : Type} (f : Option α → α → Option α → β) (l : List α)
    (i : Nat) : (mapNeighbours f none l)[i]? = l[i]?.map fun a =>
      f (Side.before.neighbour? l i) a (Side.behind.neighbour? l i) := by
  rw [getElem?_mapNeighbours]
  cases i <;> rfl

/-! ## The formula on integers -/

namespace Number

/-- Whether the exact value of `a` is at most that of `b`. -/
def AtMost (a b : Number) : Prop :=
  ∃ v w, a.exactValue? = some v ∧ b.exactValue? = some w ∧ v ≤ w

theorem atMost_of_isLE {a b : Number} (ha : a.isNaN = false) (hb : b.isNaN = false)
    (h : (a.totalCompare b).isLE) : a.AtMost b := by
  obtain ⟨v, hv⟩ := exists_exactValue? ha
  obtain ⟨w, hw⟩ := exists_exactValue? hb
  have hcompare : a.compare? b = some (cmp v w) := by
    rw [compare?_eq_cmp, hv, hw]
    rfl
  rw [totalCompare_of_compare? hcompare, Ordering.isLE_iff_ne_gt] at h
  refine ⟨v, w, hv, hw, not_lt.1 fun hlt => h ?_⟩
  exact (cmp_eq_gt_iff v w).2 hlt

theorem isLE_of_beq {a b : Number} (h : (a == b) = true) : (a.totalCompare b).isLE := by
  have hcompare : a.compare? b = some .eq := of_decide_eq_true h
  rw [totalCompare_of_compare? hcompare]
  rfl

end Number

namespace Side

variable {side : Side}

theorem gap_integer {a b : Int64} (h : Number.Fits (side.gap a.toInt b.toInt)) :
    side.gap (.integer a) (.integer b) = Number.integer (.ofInt (side.gap a.toInt b.toInt)) := by
  cases side with
  | before => exact Number.sub_integer h
  | behind => exact Number.sub_integer h

/-- The formula stays with integers while its steps fit. -/
theorem coordinate_integer {a b r : Int64} (h : side.StepsFit a.toInt b.toInt r.toInt) :
    side.coordinate (.integer a) (.integer b) (.integer r) =
      Number.integer (.ofInt (side.coordinate a.toInt b.toInt r.toInt)) := by
  obtain ⟨hgap, hpart, hsum⟩ := h
  have hproduct : Number.integer (.ofInt (side.gap a.toInt b.toInt)) * .integer r =
      .integer (.ofInt (side.gap a.toInt b.toInt * r.toInt)) := by
    have hmul := Number.mul_integer (a := .ofInt (side.gap a.toInt b.toInt)) (b := r)
    rw [Number.toInt_ofInt hgap] at hmul
    exact hmul hpart
  cases side with
  | before =>
    have hsub := Number.sub_integer (a := a) (b := .ofInt (before.gap a.toInt b.toInt * r.toInt))
    rw [Number.toInt_ofInt hpart] at hsub
    rw [coordinate, gap_integer hgap, hproduct]
    exact hsub hsum
  | behind =>
    have hadd := Number.add_integer (a := a) (b := .ofInt (behind.gap a.toInt b.toInt * r.toInt))
    rw [Number.toInt_ofInt hpart] at hadd
    rw [coordinate, gap_integer hgap, hproduct]
    exact hadd hsum

/-- None of the way from one integer to another, if their distance fits, is the integer itself. -/
theorem coordinate_integer_zero {a b : Int64} (h : Number.Fits (side.gap a.toInt b.toInt)) :
    side.coordinate (.integer a) (.integer b) 0 = Number.integer a := by
  have hstay : side.coordinate a.toInt b.toInt 0 = a.toInt := by
    cases side <;> simp [coordinate]
  have hfits : side.StepsFit a.toInt b.toInt (0 : Int64).toInt := by
    refine ⟨h, ?_, ?_⟩
    · simp [Number.Fits]
    · rw [Int64.toInt_zero, hstay]
      exact Number.fits_toInt a
  have hcoordinate := coordinate_integer hfits
  rw [Int64.toInt_zero, hstay, Int64.ofInt_toInt] at hcoordinate
  exact hcoordinate

end Side

/-! ## What is computed -/

namespace Shape

/-- Whether the hands of a shape reach out in time only. -/
def isEase : Shape → Bool
  | easeIn | easeOut | easeInAndOut => true
  | decelerateIn | decelerateOut | decelerateInAndOut => false

theorem snd_hand_of_isEase {shape : Shape} (h : shape.isEase = true) {strength : Binary64}
    {side : Side} {x y : Number}
    (hhand : side.hand (shape.curve strength).value = some (x, y)) : y = 0 := by
  cases side <;> cases shape <;> cases h <;>
    simp_all [Side.hand, curve, Curve.ease]

end Shape

/-- The handle of a keyframe on a side. -/
def Keyframe.handleOn (k : Keyframe) : Side → Option Handle
  | .before => k.left
  | .behind => k.right

/-- The handle that was computed on a side. -/
def Handles.handleOn (c : Handles) : Side → Option Handle
  | .before => c.left
  | .behind => c.right

/-- What is said of a handle that is computed for `k` towards its neighbour `b` on a side. -/
structure HandleRule (side : Side) (k b : Knot) (handle : Option Handle) : Prop where
  /-- It takes a hand of the curve and two numbers. -/
  isSome_iff : handle.isSome = true ↔ (side.hand k.curve).isSome = true ∧
    k.value.number?.isSome = true ∧ b.value.number?.isSome = true
  /-- Both coordinates are those of the formula. -/
  eq_coordinates : ∀ x y v w, side.hand k.curve = some (x, y) → k.value = .number v →
    b.value = .number w →
      handle = some (side.coordinate k.frame b.frame x, side.coordinate v w y)
  /-- They are exact where all is integer and fits. -/
  eq_integers : ∀ t t' v w x y : Int64, k.frame = .integer t → b.frame = .integer t' →
    k.value = .number (.integer v) → b.value = .number (.integer w) →
    side.hand k.curve = some (.integer x, .integer y) →
    side.StepsFit t.toInt t'.toInt x.toInt → side.StepsFit v.toInt w.toInt y.toInt →
      handle = some (.integer (.ofInt (side.coordinate t.toInt t'.toInt x.toInt)),
        .integer (.ofInt (side.coordinate v.toInt w.toInt y.toInt)))
  /-- A shape that eases keeps an integer value as it is, whatever the frames are. -/
  value_of_isEase : ∀ (shape : Shape) (strength : Binary64) (v w : Int64), shape.isEase = true →
    k.curve = (shape.curve strength).value → k.value = .number (.integer v) →
    b.value = .number (.integer w) → Number.Fits (side.gap v.toInt w.toInt) →
      ∀ x y, handle = some (x, y) → y = .integer v

namespace Knot

/-- The handle that is computed towards the neighbour on a side. -/
def handleOn (k : Knot) : Side → Knot → Option Handle
  | .before => k.leftHandle
  | .behind => k.rightHandle

theorem handleOn_eq (k : Knot) (side : Side) (b : Knot) : k.handleOn side b = do
    let (x, y) ← side.hand k.curve
    let v ← k.value.number?
    let w ← b.value.number?
    return (side.coordinate k.frame b.frame x, side.coordinate v w y) := by
  cases side <;> rfl

/-- A computed handle takes a hand of the curve and two numbers. -/
theorem handleOn_eq_some_iff {k b : Knot} {side : Side} {handle : Handle} :
    k.handleOn side b = some handle ↔ ∃ x y v w, side.hand k.curve = some (x, y) ∧
      k.value = .number v ∧ b.value = .number w ∧
      handle = (side.coordinate k.frame b.frame x, side.coordinate v w y) := by
  obtain ⟨t, value, curve⟩ := k
  obtain ⟨u, value', curve'⟩ := b
  rw [handleOn_eq]
  rcases side.hand curve with _ | ⟨x, y⟩ <;> cases value <;> cases value' <;>
    simp [KeyframeValue.number?, eq_comm]

/-- **A computed handle follows the rule.** -/
theorem handleOn_rule (k : Knot) (side : Side) (b : Knot) :
    HandleRule side k b (k.handleOn side b) := by
  have hformula : ∀ x y v w, side.hand k.curve = some (x, y) → k.value = .number v →
      b.value = .number w → k.handleOn side b =
        some (side.coordinate k.frame b.frame x, side.coordinate v w y) := by
    intro x y v w hhand hv hw
    rw [handleOn_eq, hhand, hv, hw]
    rfl
  refine ⟨?_, hformula, ?_, ?_⟩
  · rw [handleOn_eq]
    cases side.hand k.curve <;> cases k.value.number? <;> cases b.value.number? <;> simp
  · intro t t' v w x y ht ht' hv hw hhand hframe hvalue
    rw [hformula _ _ _ _ hhand hv hw, ht, ht', Side.coordinate_integer hframe,
      Side.coordinate_integer hvalue]
  · intro shape strength v w hease hcurve hv hw hgap x y hxy
    cases hhand : side.hand k.curve with
    | none =>
      rw [handleOn_eq, hhand] at hxy
      cases hxy
    | some hand =>
      obtain ⟨rx, ry⟩ := hand
      obtain rfl : ry = 0 := Shape.snd_hand_of_isEase hease (hcurve ▸ hhand)
      rw [hformula _ _ _ _ hhand hv hw, Side.coordinate_integer_zero hgap] at hxy
      cases hxy
      rfl

end Knot

namespace Handles

theorem handleOn_between (neighbour? : Side → Option Knot) (k : Knot) (side : Side) :
    (between (neighbour? .before) k (neighbour? .behind)).handleOn side =
      (neighbour? side).bind (k.handleOn side) := by
  cases side <;> rfl

/-- What is computed at a position. -/
theorem getElem?_compute (points : List (Number × KeyframeValue)) (curves : List Curve) (i : Nat) :
    (compute points curves)[i]? = (knots points curves)[i]?.map fun k =>
      between (Side.before.neighbour? (knots points curves) i) k
        (Side.behind.neighbour? (knots points curves) i) :=
  getElem?_mapNeighbours_sides between (knots points curves) i

theorem knots_map {α : Type} (frame : α → Number) (value : α → KeyframeValue) (curve : α → Curve)
    (l : List α) : knots (l.map fun a => (frame a, value a)) (l.map curve) =
      l.map fun a => ⟨frame a, value a, curve a⟩ := by
  induction l with
  | nil => rfl
  | cons a rest ih => rw [List.map_cons, List.map_cons, List.map_cons, knots, ih]

end Handles

/-! ## What is shown -/

namespace Spline

variable {s : Spline}

theorem handleOn_resolve (s : Spline) (neighbour? : Side → Option Keyframe) (k : Keyframe)
    (side : Side) : (s.resolve (neighbour? .before) k (neighbour? .behind)).handleOn side =
      (neighbour? side).bind fun b =>
        (k.handleOn side).or ((s.knot k).handleOn side (s.knot b)) := by
  cases side <;> rfl

/-- What is shown at a position. -/
theorem getElem?_keyframes (s : Spline) (i : Nat) :
    s.keyframes[i]? = s.sorted[i]?.map fun k =>
      s.resolve (Side.before.neighbour? s.sorted i) k (Side.behind.neighbour? s.sorted i) :=
  getElem?_mapNeighbours_sides s.resolve s.sorted i

/-- The handles that are computed for the keyframes of a spline. -/
def computed (s : Spline) : List Handles :=
  Handles.compute (s.sorted.map fun k => (k.frame, k.value))
    (s.sorted.map fun k => k.curve.getD s.defaultCurve)

theorem computed_eq (s : Spline) :
    s.computed = mapNeighbours Handles.between none (s.sorted.map s.knot) := by
  have hknots : Handles.knots (s.sorted.map fun k => (k.frame, k.value))
      (s.sorted.map fun k => k.curve.getD s.defaultCurve) = s.sorted.map s.knot :=
    Handles.knots_map (·.frame) (·.value) (fun k => k.curve.getD s.defaultCurve) s.sorted
  rw [computed, Handles.compute, hknots]

theorem length_computed (s : Spline) : s.computed.length = s.sorted.length := by
  rw [computed_eq, length_mapNeighbours, List.length_map]

theorem getElem?_computed (s : Spline) (i : Nat) :
    s.computed[i]? = s.sorted[i]?.map fun k =>
      .between ((Side.before.neighbour? s.sorted i).map s.knot) (s.knot k)
        ((Side.behind.neighbour? s.sorted i).map s.knot) := by
  rw [computed_eq, getElem?_mapNeighbours_sides, List.getElem?_map, Option.map_map]
  simp only [Side.neighbour?_map]
  rfl

theorem frames_atMost (h : ∀ k ∈ s.stored, k.frame.isNaN = false) :
    s.frames.Pairwise Number.AtMost := by
  have hnumeric : ∀ f ∈ s.frames, f.isNaN = false := by
    intro f hf
    obtain ⟨k, hk, rfl⟩ := List.mem_map.1 (s.frames_perm.mem_iff.1 hf)
    exact h k hk
  refine s.frames_inOrder.imp_of_mem fun {f g} hf hg hle => ?_
  exact Number.atMost_of_isLE (hnumeric f hf) (hnumeric g hg) hle

/-- Keyframes at equal frames are shown in the order in which they are stored. -/
theorem filter_sorted_frame (s : Spline) (f : Number) :
    s.sorted.filter (·.frame == f) = s.stored.filter (·.frame == f) := by
  have htrans : ∀ k₁ k₂ k₃ : Keyframe, (k₁.frame.totalCompare k₂.frame).isLE = true →
      (k₂.frame.totalCompare k₃.frame).isLE = true → (k₁.frame.totalCompare k₃.frame).isLE = true :=
    fun _ _ _ => Number.isLE_trans
  rw [sorted, filter_sortBy htrans fun k k' => Number.isLE_total k.frame k'.frame]
  refine sortBy_of_pairwise (List.pairwise_of_forall_mem_list ?_)
  intro k hk k' hk'
  have hf := (List.mem_filter.1 hk).2
  have hf' := (List.mem_filter.1 hk').2
  exact Number.isLE_of_beq (PartialEquivBEq.trans hf (PartialEquivBEq.symm hf'))

/-- **Handles follow the rule at every position.** The keyframes that are shown are those stored, in
the order of their frames, each with its frame, value, curve and flags. Before the first and behind
the last there is no handle, neither a computed nor a shown one, whatever is stored. On every other
side the handle is that of the keyframe itself or, for lack of one, the computed one. -/
theorem keyframes_follow_rule (s : Spline) (h : ∀ k ∈ s.stored, k.frame.isNaN = false) :
    s.sorted.Perm s.stored ∧ s.frames.Pairwise Number.AtMost ∧
      (∀ f, s.sorted.filter (·.frame == f) = s.stored.filter (·.frame == f)) ∧
      s.keyframes.length = s.sorted.length ∧ s.computed.length = s.sorted.length ∧
      ∀ i k, s.sorted[i]? = some k →
        ∃ k' c, s.keyframes[i]? = some k' ∧ s.computed[i]? = some c ∧
          (k'.frame, k'.value, k'.curve, k'.flags) = (k.frame, k.value, k.curve, k.flags) ∧
          (i = 0 → k'.left = none ∧ c.left = none) ∧
          (i + 1 = s.sorted.length → k'.right = none ∧ c.right = none) ∧
          ∀ side b, side.neighbour? s.sorted i = some b →
            k'.handleOn side = (k.handleOn side).or (c.handleOn side) ∧
              HandleRule side (s.knot k) (s.knot b) (c.handleOn side) := by
  refine ⟨s.sorted_perm, frames_atMost h, s.filter_sorted_frame, ?_, s.length_computed, ?_⟩
  · rw [length_keyframes, length, s.sorted_perm.length_eq]
  intro i k hk
  have hshown := s.getElem?_keyframes i
  have hcomputed := s.getElem?_computed i
  rw [hk, Option.map_some] at hshown hcomputed
  refine ⟨_, _, hshown, hcomputed, rfl, ?_, ?_, ?_⟩
  · rintro rfl
    exact ⟨rfl, rfl⟩
  · intro hlast
    have hnone : Side.behind.neighbour? s.sorted i = none :=
      List.getElem?_eq_none (Nat.le_of_eq hlast.symm)
    rw [hnone]
    exact ⟨rfl, rfl⟩
  · intro side b hb
    rw [handleOn_resolve s (Side.neighbour? · s.sorted i),
      Handles.handleOn_between fun side => (side.neighbour? s.sorted i).map s.knot, hb]
    exact ⟨rfl, (s.knot k).handleOn_rule side (s.knot b)⟩

/-- Three keyframes, not in the order of time, with integer hands; the last one is a text, and the
first has a left handle of its own. -/
def textBehind : Spline where
  name := "Zoom"
  defaultCurve := ⟨some (1, 2), some (1, 2)⟩
  stored := [{ frame := 24, value := .number 20 }, { frame := 36, value := .text "end" },
    { frame := 0, value := .number 4, left := some (9, 9) }]

theorem keyframes_follow_rule_textBehind :
    (∀ k ∈ textBehind.stored, k.frame.isNaN = false) ∧
      (∃ k, textBehind.keyframes[0]? = some k ∧ k.left = none) ∧
      ∃ k, textBehind.keyframes[1]? = some k ∧ k.left = some (0, .integer (-12)) ∧
        k.right = none := by
  have h : ∀ k ∈ textBehind.stored, k.frame.isNaN = false := by decide
  have hrule := (keyframes_follow_rule textBehind h).2.2.2.2.2
  obtain ⟨first, c₀, hfirst, -, -, hleft, -⟩ := hrule 0 _ rfl
  obtain ⟨k, c, hk, -, -, -, -, hsides⟩ := hrule 1 _ rfl
  obtain ⟨hbefore, hrule⟩ := hsides .before _ rfl
  obtain ⟨hbehind, hrule'⟩ := hsides .behind _ rfl
  have hcomputed := hrule.eq_integers 24 0 20 4 1 2 rfl rfl rfl rfl rfl (by decide) (by decide)
  have htext : c.handleOn .behind = none := by
    rw [← Option.not_isSome_iff_eq_none, hrule'.isSome_iff]
    decide
  rw [hcomputed] at hbefore
  rw [htext] at hbehind
  exact ⟨h, ⟨first, hfirst, (hleft rfl).1⟩, k, hk, hbefore, hbehind⟩

end Spline

end SceneScript
