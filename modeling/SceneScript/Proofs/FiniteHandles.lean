import SceneScript.Proofs.HandleBounds
import SceneScript.Proofs.Spelling

/-!
# Handles of finite data

A scene has no text for a number that is not finite, so one handle that is not finite takes the text
from a whole spline. Where all that is stored is finite and the curves are those of the catalog, a
handle fails in arithmetic only: the distance between a keyframe and its neighbour may be beyond the
largest double. An infinite distance stays infinite or becomes `nan` in taking a fraction of it,
even a fraction of zero, so such a spline has no text although its exact handles are finite.

With finite distances a handle may still fail, but only next to the largest double. A rounded
distance is at most the gap between the largest doubles away from the exact one, so a handle reaches
beyond its neighbour by that much at most.

Main statements:

- `Side.isFinite_gap_of_coordinate`, `Side.isFinite_coordinate`: what a finite distance is needed
  for, and when it is enough;
- `Spline.exists_write_iff`: a spline has a text exactly if its handles are finite;
- `Spline.renders_of_finite_gaps`: what this asks of the distances;
- `Spline.not_renders_wideGap`: finite data alone is not enough.
-/

namespace SceneScript

open Binary64 (unit IsDouble largest topSpacing)

/-! ## Finite results -/

namespace Binary64

variable {x y : Binary64}

theorem isFinite_of_add (h : (x + y).isFinite = true) : x.isFinite = true ∧ y.isFinite = true := by
  match x, y with
  | .finite _ _, .finite _ _ => exact ⟨rfl, rfl⟩
  | .nan, _ => cases h
  | .infinite _, .nan => cases h
  | .finite _ _, .nan => cases h
  | .infinite _, .finite _ _ => cases h
  | .finite _ _, .infinite _ => cases h
  | .infinite s, .infinite t => cases s <;> cases t <;> cases h

theorem isFinite_of_sub (h : (x - y).isFinite = true) : x.isFinite = true ∧ y.isFinite = true := by
  obtain ⟨hx, hy⟩ := isFinite_of_add (y := -y) h
  refine ⟨hx, ?_⟩
  cases y <;> first | rfl | cases hy

theorem isFinite_of_mul (h : (x * y).isFinite = true) : x.isFinite = true ∧ y.isFinite = true := by
  match x, y with
  | .finite _ _, .finite _ _ => exact ⟨rfl, rfl⟩
  | .nan, _ => cases h
  | .infinite _, .nan => cases h
  | .finite _ _, .nan => cases h
  | .infinite _, .infinite _ => cases h
  | .infinite s, .finite t n =>
    change (if n.quanta = 0 then nan else infinite (s ^^ t)).isFinite = true at h
    split at h <;> cases h
  | .finite s m, .infinite t =>
    change (if m.quanta = 0 then nan else infinite (s ^^ t)).isFinite = true at h
    split at h <;> cases h

end Binary64

namespace Number

/-- The size of a 64-bit integer, in quanta, is at most this. -/
def integerBound : Nat := 0x8000000000000000 * unit

theorem place?_toBinary64_integer (i : Int64) :
    ∃ q, (Number.integer i).toBinary64.place? = some (.quanta q) ∧ q.natAbs ≤ integerBound := by
  have hhigh : IsDouble (0x8000000000000000 * unit) :=
    Binary64.isDouble_mul_unit (m := 1) (k := 63) rfl (by decide) (by decide)
  have hlow : IsDouble (-0x8000000000000000 * unit) :=
    Binary64.isDouble_mul_unit (m := 1) (k := 63) rfl (by decide) (by decide)
  have hpos := Int.le_of_lt Binary64.unit_cast_pos
  obtain ⟨q, hq, hge, hle⟩ := Binary64.place?_ofInt_between hlow hhigh
    (Int.mul_le_mul_of_nonneg_right i.le_toInt hpos)
    (Int.mul_le_mul_of_nonneg_right (Int.le_of_lt i.toInt_lt) hpos)
  refine ⟨q, hq, ?_⟩
  unfold integerBound
  omega

theorem exists_place?_toBinary64 {n : Number} :
    n.isFinite = true ↔ ∃ q, n.toBinary64.place? = some (.quanta q) := by
  cases n with
  | integer i =>
    obtain ⟨q, hq, -⟩ := place?_toBinary64_integer i
    exact iff_of_true rfl ⟨q, hq⟩
  | float x => exact Binary64.isFinite_iff_place?

/-- Whether a number is a largest double, of either sign. -/
def IsLargest (n : Number) : Prop :=
  ∃ negative size, n = .float (.finite negative size) ∧ size.quanta = largest

/-- Whether the double nearest to a number is at most half of the largest one. -/
def IsModerate (n : Number) : Prop :=
  ∃ q, n.toBinary64.place? = some (.quanta q) ∧ 2 * q.natAbs ≤ largest

theorem IsModerate.not_isLargest {n : Number} (h : n.IsModerate) : ¬ n.IsLargest := by
  rintro ⟨negative, size, rfl, hlargest⟩
  obtain ⟨q, hq, hle⟩ := h
  cases (Binary64.place?_finite negative size).symm.trans hq
  have hpos : 0 < largest := by decide +kernel
  rw [Binary64.natAbs_signedQuanta, hlargest] at hle
  omega

/-- Beyond a number that is no largest double there is room for one more gap. -/
theorem natAbs_add_topSpacing_le {n : Number} {q : Int} (h : ¬ n.IsLargest)
    (hq : n.toBinary64.place? = some (.quanta q)) : q.natAbs + topSpacing ≤ largest := by
  cases n with
  | integer i =>
    have hroom : integerBound + topSpacing ≤ largest := by decide +kernel
    obtain ⟨q', hq', hle⟩ := place?_toBinary64_integer i
    rw [hq] at hq'
    cases hq'
    omega
  | float x =>
    refine (Binary64.isDouble_of_place? hq).natAbs_add_topSpacing_le fun hlargest => h ?_
    obtain ⟨negative, size, hx, rfl⟩ := Binary64.exists_of_place? hq
    rw [Binary64.natAbs_signedQuanta] at hlargest
    exact ⟨negative, size, congrArg Number.float hx, hlargest⟩

end Number

/-! ## Finite coordinates -/

namespace Side

variable {side : Side}

section Doubles

variable {x y : Binary64} {a b c g : Int}

theorem isFinite_of_reach (h : (side.reach x y).isFinite = true) : y.isFinite = true := by
  cases side with
  | before => exact (Binary64.isFinite_of_sub h).2
  | behind => exact (Binary64.isFinite_of_add h).2

theorem isFinite_reach (hx : x.place? = some (.quanta a)) (hy : y.place? = some (.quanta b))
    (h : (side.reach a b).natAbs ≤ largest) : (side.reach x y).isFinite = true := by
  have hmem : side.reach a b ∈ Set.uIcc (-(largest : Int)) largest :=
    Set.mem_uIcc.2 (.inl ⟨by omega, by omega⟩)
  obtain ⟨q, hq, -⟩ := place?_reach_mem_uIcc hx hy Binary64.isDouble_largest.neg
    Binary64.isDouble_largest hmem
  exact Binary64.isFinite_iff_place?.2 ⟨q, hq⟩

/-- Bounds for none of the way and for all of it bound every part of it. -/
theorem natAbs_reach_le {bound : Nat} (hc : c ∈ Set.uIcc 0 g) (ha : a.natAbs ≤ bound)
    (hg : (side.reach a g).natAbs ≤ bound) : (side.reach a c).natAbs ≤ bound := by
  cases side <;> simp only [Set.mem_uIcc, reach] at hc hg ⊢ <;> omega

/-- All of a rounded distance leads at most one gap beyond the neighbour. -/
theorem natAbs_reach_gap_le (hx : x.place? = some (.quanta a)) (hy : y.place? = some (.quanta b))
    (hg : (side.gap x y).place? = some (.quanta g)) :
    (side.reach a g).natAbs ≤ b.natAbs + topSpacing := by
  cases side with
  | before =>
    have hnear := Binary64.near_of_place?_add hx (Binary64.place?_neg hy) hg
    simp only [reach]
    omega
  | behind =>
    have hnear := Binary64.near_of_place?_add hy (Binary64.place?_neg hx) hg
    simp only [reach]
    omega

end Doubles

variable {a b r : Number}

theorem gap_cases (side : Side) (a b : Number) :
    side.gap a b = .float (side.gap a.toBinary64 b.toBinary64) ∨
      ∃ i j k, a = .integer i ∧ b = .integer j ∧ side.gap a b = .integer k := by
  cases side with
  | before =>
    rcases Number.combine_cases (· - ·) (· - ·) a b with h | ⟨i, j, ha, hb, h⟩
    · exact .inl h
    · exact .inr ⟨i, j, _, ha, hb, h⟩
  | behind =>
    rcases Number.combine_cases (· - ·) (· - ·) b a with h | ⟨j, i, hb, ha, h⟩
    · exact .inl h
    · exact .inr ⟨i, j, _, ha, hb, h⟩

/-- Half of the largest double leaves room for any distance. -/
theorem isFinite_gap (ha : a.IsModerate) (hb : b.IsModerate) : (side.gap a b).isFinite = true := by
  obtain ⟨p, hp, hple⟩ := ha
  obtain ⟨q, hq, hqle⟩ := hb
  rcases side.gap_cases a b with h | ⟨_, _, _, -, -, h⟩
  · rw [h]
    cases side with
    | before =>
      show (before.reach a.toBinary64 b.toBinary64).isFinite = true
      refine isFinite_reach hp hq ?_
      simp only [reach]
      omega
    | behind =>
      show (before.reach b.toBinary64 a.toBinary64).isFinite = true
      refine isFinite_reach hq hp ?_
      simp only [reach]
      omega
  · rw [h]
    rfl

/-- A coordinate is finite only if the distance is. -/
theorem isFinite_gap_of_coordinate (h : (side.coordinate a b r).isFinite = true) :
    (side.gap a b).isFinite = true := by
  rw [coordinate_eq_reach] at h
  cases hgap : side.gap a b with
  | integer _ => rfl
  | float g =>
    -- from a double on everything is a double, and no operation makes one finite again
    have hproduct : Number.float g * r = .float (g * r.toBinary64) := by cases r <;> rfl
    rw [hgap, hproduct, reach_float] at h
    exact (Binary64.isFinite_of_mul (isFinite_of_reach h)).1

/-- All of a finite distance leads to a finite place, unless the neighbour is a largest double. -/
theorem natAbs_reach_gap_le_largest {p q g : Int} (hp : a.toBinary64.place? = some (.quanta p))
    (hq : b.toBinary64.place? = some (.quanta q))
    (hg : (side.gap a b).toBinary64.place? = some (.quanta g)) (hlargest : ¬ b.IsLargest) :
    (side.reach p g).natAbs ≤ largest := by
  rcases side.gap_cases a b with hfloat | ⟨i, j, k, rfl, rfl, hinteger⟩
  · rw [hfloat] at hg
    exact Nat.le_trans (natAbs_reach_gap_le hp hq hg) (Number.natAbs_add_topSpacing_le hlargest hq)
  · -- a distance of two integers is rounded apart from them, but far from the largest double
    have hroom : 2 * Number.integerBound ≤ largest := by decide +kernel
    obtain ⟨p', hp', hple⟩ := Number.place?_toBinary64_integer i
    obtain ⟨g', hg', hgle⟩ := Number.place?_toBinary64_integer k
    rw [hp] at hp'
    rw [hinteger, hg'] at hg
    cases hp'
    cases hg
    cases side <;> simp only [reach] <;> omega

/-- **A finite distance is enough** for a coordinate at a fraction of the way, unless the neighbour
is a largest double. -/
theorem isFinite_coordinate (ha : a.isFinite = true) (hb : b.isFinite = true) (hr : r.IsFraction)
    (hgap : (side.gap a b).isFinite = true) (hlargest : ¬ b.IsLargest) :
    (side.coordinate a b r).isFinite = true := by
  rcases side.coordinate_cases a b hr with h | h
  · rw [h]
    exact ha
  · obtain ⟨p, hp⟩ := Number.exists_place?_toBinary64.1 ha
    obtain ⟨q, hq⟩ := Number.exists_place?_toBinary64.1 hb
    obtain ⟨g, hg⟩ := Number.exists_place?_toBinary64.1 hgap
    obtain ⟨c, hc, hmem⟩ := Number.place?_mul_fraction hg hr
    have hown : p.natAbs ≤ largest := (Binary64.isDouble_of_place? hp).natAbs_le_largest
    have hall := natAbs_reach_gap_le_largest hp hq hg hlargest
    rw [h]
    exact isFinite_reach hp hc (natAbs_reach_le hmem hown hall)

end Side

/-! ## What can be written -/

namespace Value

/-- Whether a value is spellable and all tables that it reaches are spelled. -/
def Writable (v : Value) : Prop := v.isSpellable = true ∧ ∀ u, v.Reaches u → u.Spelled

/-- A table is writable if the key and the value of each entry that holds something are. -/
theorem writable_table {t : Table} : (table t).Writable ↔
    ∀ e ∈ t.entries.toList, e.2.isNull = false → e.1.isSpellable = true ∧ e.2.Writable := by
  constructor
  · rintro ⟨-, hall⟩ e he hn
    obtain ⟨hkey, hvalue⟩ := hall t (.self t) e he hn
    exact ⟨hkey, hvalue, fun u hu => hall u (.entry he hu)⟩
  · refine fun h => ⟨rfl, fun u hu => ?_⟩
    cases hu with
    | self => exact fun e he hn => ⟨(h e he hn).1, (h e he hn).2.1⟩
    | entry he hu => exact (h _ he hu.isNull_eq_false).2.2 u hu

theorem writable_of_isMember {v : Value} (h : v.isMember = true) : v.Writable := by
  cases v <;> first | exact ⟨h, fun _ hu => nomatch hu⟩ | cases h

theorem writable_point {p : Number × Number} :
    (point p).Writable ↔ p.1.isFinite = true ∧ p.2.isFinite = true := by
  have hspellable : (point p).isSpellable = (p.1.isFinite && (p.2.isFinite && true)) := rfl
  rw [Writable, hspellable, Bool.and_true, Bool.and_eq_true]
  exact and_iff_left fun _ hu => nomatch hu

/-- Whether a value is writable unless it is nothing; an entry with nothing is skipped. -/
def WritableIfAny (v : Value) : Prop := v.isNull = false → v.Writable

theorem writableIfAny_ofOption {α : Type} {f : α → Value} {a : Option α}
    (h : ∀ x, (f x).isNull = false) :
    (ofOption f a).WritableIfAny ↔ ∀ x ∈ a, (f x).Writable := by
  cases a with
  | none => exact iff_of_true nofun nofun
  | some x => exact ⟨fun hx y hy => by cases hy; exact hx (h x), fun hx _ => hx x rfl⟩

theorem writableIfAny_of_isMember {v : Value} (h : v.isMember = true) : v.WritableIfAny :=
  fun _ => writable_of_isMember h

theorem entry_writable_iff {k : Key} (hk : k.isSpellable = true) {v : Value} :
    (v.isNull = false → k.isSpellable = true ∧ v.Writable) ↔ v.WritableIfAny :=
  forall_congr' fun _ => and_iff_right hk

/-- The names of a record are spellable. -/
theorem writable_record {t : Table} {fields : List (String × Value)}
    (h : t.entries.toList = fields.map fun f => (.name f.1, f.2)) :
    (table t).Writable ↔ ∀ f ∈ fields, f.2.WritableIfAny := by
  rw [writable_table, h, List.forall_mem_map]
  exact forall₂_congr fun f _ => entry_writable_iff (k := .name f.1) rfl

end Value

theorem KeyframeFlags.writable_table? {f : KeyframeFlags} {t : Table} (h : f.table? = some t) :
    (Value.table t).Writable := by
  have hentries : t.entries.toList =
      (f.fields.map fun field => (field.1, Value.ofOption .bool field.2)).map
        fun field => (.name field.1, field.2) := by
    unfold table? at h
    split at h
    · cases h
    · cases h
      rfl
  refine (Value.writable_record hentries).2 (List.forall_mem_map.2 fun field _ => ?_)
  exact (Value.writableIfAny_ofOption fun _ => rfl).2 fun _ _ => Value.writable_of_isMember rfl

theorem Color.writable_splineTable (c : Color) : (Value.table c.splineTable).Writable := by
  have hentries : c.splineTable.entries.toList =
      [("Red", .int (step c.red)), ("Green", .int (step c.green)), ("Blue", .int (step c.blue))].map
        fun field => (.name field.1, field.2) := rfl
  refine (Value.writable_record hentries).2 ?_
  simp only [List.forall_mem_cons]
  exact ⟨Value.writableIfAny_of_isMember rfl, Value.writableIfAny_of_isMember rfl,
    Value.writableIfAny_of_isMember rfl, nofun⟩

theorem TableOf.exists_write_iff (t : Table) :
    (∃ text, t.write.value = .ok text) ↔ (Value.table t).Writable := by
  rw [Value.Writable, ← ((Value.table t).exists_assemble_iff 0).1]
  exact exists_congr fun _ => TableOf.write_eq_ok_iff

/-- Whether both coordinates of a handle are finite. -/
def Handle.IsFinite (h : Handle) : Prop := h.1.isFinite = true ∧ h.2.isFinite = true

instance (h : Handle) : Decidable (Handle.IsFinite h) := inferInstanceAs (Decidable (_ ∧ _))

/-- Whether a value is finite if it is a number. -/
def KeyframeValue.isFinite : KeyframeValue → Bool
  | .number n => n.isFinite
  | .text _ => true

namespace Keyframe

/-- Whether the handles of a keyframe are finite where it has any. -/
def HasFiniteHandles (k : Keyframe) : Prop :=
  (∀ h ∈ k.left, Handle.IsFinite h) ∧ ∀ h ∈ k.right, Handle.IsFinite h

instance (k : Keyframe) : Decidable k.HasFiniteHandles := inferInstanceAs (Decidable (_ ∧ _))

theorem hasFiniteHandles_iff {k : Keyframe} : k.HasFiniteHandles ↔
    ∀ side h, k.handleOn side = some h → Handle.IsFinite h := by
  constructor
  · rintro ⟨hleft, hright⟩ side h
    cases side with
    | before => exact hleft h
    | behind => exact hright h
  · exact fun h => ⟨fun x hx => h .before x hx, fun x hx => h .behind x hx⟩

/-- A keyframe is writable exactly if its value and its handles are finite. -/
theorem writable_table_iff (k : Keyframe) :
    (Value.table k.table).Writable ↔ k.value.isFinite = true ∧ k.HasFiniteHandles := by
  have hvalue : k.value.toValue.WritableIfAny ↔ k.value.isFinite = true := by
    cases k.value with
    | number n => exact ⟨fun h => (h rfl).1, Value.writableIfAny_of_isMember (v := .number n)⟩
    | text s => exact iff_of_true (Value.writableIfAny_of_isMember (v := .text s) rfl) rfl
  have hhandle : ∀ h : Option Handle, (Value.ofOption .point h).WritableIfAny ↔
      ∀ x ∈ h, Handle.IsFinite x := by
    intro h
    rw [Value.writableIfAny_ofOption fun _ => rfl]
    exact forall₂_congr fun _ _ => Value.writable_point
  have hflags : (Value.ofOption .table k.flags.table?).WritableIfAny :=
    (Value.writableIfAny_ofOption fun _ => rfl).2 fun _ ht => KeyframeFlags.writable_table? ht
  rw [Value.writable_table, table]
  simp only [List.forall_mem_cons]
  rw [Value.entry_writable_iff rfl, Value.entry_writable_iff rfl, Value.entry_writable_iff rfl,
    Value.entry_writable_iff rfl, hvalue, hhandle, hhandle]
  constructor
  · rintro ⟨hfinite, hleft, hright, -⟩
    exact ⟨hfinite, hleft, hright⟩
  · rintro ⟨hfinite, hleft, hright⟩
    exact ⟨hfinite, hleft, hright, hflags, nofun⟩

end Keyframe

/-! ## Splines -/

namespace Spline

variable {s : Spline}

/-- What is shown is the resolved keyframe at some position. -/
theorem mem_keyframes_iff {k' : Keyframe} : k' ∈ s.keyframes ↔ ∃ i k, s.sorted[i]? = some k ∧
    k' = s.resolve (Side.before.neighbour? s.sorted i) k (Side.behind.neighbour? s.sorted i) := by
  simp only [List.mem_iff_getElem?, getElem?_keyframes, Option.map_eq_some_iff, eq_comm (a := k')]

/-- A spline has a text exactly if all that it shows is finite. -/
theorem exists_write_iff (h : FramesApart (s.stored.map (·.frame))) :
    (∃ text, s.table.write.value = .ok text) ↔
      ∀ k ∈ s.keyframes, k.frame.isFinite = true ∧ k.value.isFinite = true ∧
        k.HasFiniteHandles := by
  have hfields : s.table.entries.toList =
      [("SplineColor", .ofOption (fun c => .table c.splineTable) s.color),
        ("KeyFrames", .table s.keyframeTable)].map fun field => (.name field.1, field.2) := rfl
  have hcolor : (Value.ofOption (fun c => .table c.splineTable) s.color).WritableIfAny :=
    (Value.writableIfAny_ofOption fun _ => rfl).2 fun c _ => c.writable_splineTable
  have hkeyframes : (Value.table s.keyframeTable).Writable ↔
      ∀ k ∈ s.keyframes, k.frame.isFinite = true ∧ k.value.isFinite = true ∧
        k.HasFiniteHandles := by
    -- the frames differ, so each keyframe has an entry of its own
    rw [Value.writable_table]
    simp only [← TableOf.mem_arranged (t := s.keyframeTable), arranged_keyframeTable h,
      List.forall_mem_map]
    refine forall₂_congr fun k _ => ?_
    rw [← Keyframe.writable_table_iff]
    exact ⟨fun hk => hk rfl, fun hk _ => hk⟩
  rw [TableOf.exists_write_iff, Value.writable_record hfields, ← hkeyframes]
  simp only [List.forall_mem_cons]
  exact ⟨fun h => h.2.1 rfl, fun h => ⟨hcolor, fun _ => h, nofun⟩⟩

/-- Whether all data of a spline is finite and its curves are those of the catalog: its frames,
which differ, its values but for texts, and the handles that keyframes have of their own. -/
structure FiniteData (s : Spline) : Prop where
  apart : FramesApart (s.stored.map (·.frame))
  frames : ∀ k ∈ s.stored, k.frame.isFinite = true
  values : ∀ k ∈ s.stored, k.value.isFinite = true
  handles : ∀ k ∈ s.stored, k.HasFiniteHandles
  curves : ∀ k ∈ s.stored, (k.curve.getD s.defaultCurve).OfCatalog

/-- Whether a handle of `k` is computed on a side, towards the neighbour `b` and from the values `v`
and `w`: there is none that `k` has of its own, but a hand of its curve. -/
structure Computes (s : Spline) (side : Side) (k b : Keyframe) (v w : Number) : Prop where
  adjacent : ∃ i, s.sorted[i]? = some k ∧ side.neighbour? s.sorted i = some b
  own : k.handleOn side = none
  hand : (side.hand (s.knot k).curve).isSome = true
  value : k.value = .number v
  value' : b.value = .number w

/-- What is shown where a handle is computed. -/
theorem Computes.exists_shown {side : Side} {k b : Keyframe} {v w : Number}
    (h : s.Computes side k b v w) : ∃ x y, ∃ k' ∈ s.keyframes,
      k'.handleOn side = some (side.coordinate k.frame b.frame x, side.coordinate v w y) := by
  obtain ⟨i, hk, hb⟩ := h.adjacent
  obtain ⟨⟨x, y⟩, hhand⟩ := Option.isSome_iff_exists.1 h.hand
  refine ⟨x, y, _, mem_keyframes_iff.2 ⟨i, k, hk, rfl⟩, ?_⟩
  rw [handleOn_resolve s (Side.neighbour? · s.sorted i), hb, Option.bind_some, h.own,
    Option.none_or]
  exact Knot.handleOn_eq_some_iff.2 ⟨x, y, v, w, hhand, h.value, h.value', rfl⟩

/-- A handle that is shown is one of a keyframe's own, or it is computed. -/
theorem handle_cases {k' : Keyframe} (hk' : k' ∈ s.keyframes) {side : Side} {handle : Handle}
    (h : k'.handleOn side = some handle) :
    (∃ k ∈ s.stored, k.handleOn side = some handle) ∨
      ∃ k b v w x y, s.Computes side k b v w ∧ side.hand (s.knot k).curve = some (x, y) ∧
        handle = (side.coordinate k.frame b.frame x, side.coordinate v w y) := by
  obtain ⟨i, k, hk, rfl⟩ := mem_keyframes_iff.1 hk'
  rw [handleOn_resolve s (Side.neighbour? · s.sorted i), Option.bind_eq_some_iff] at h
  obtain ⟨b, hb, h⟩ := h
  cases hown : k.handleOn side with
  | some own =>
    rw [hown, Option.some_or] at h
    exact .inl ⟨k, s.sorted_perm.mem_iff.1 (List.mem_of_getElem? hk), hown.trans h⟩
  | none =>
    rw [hown, Option.none_or] at h
    obtain ⟨x, y, v, w, hhand, hv, hw, rfl⟩ := Knot.handleOn_eq_some_iff.1 h
    have hsome : (side.hand (s.knot k).curve).isSome = true := by rw [hhand, Option.isSome_some]
    exact .inr ⟨k, b, v, w, x, y, ⟨⟨i, hk, hb⟩, hown, hsome, hv, hw⟩, hhand, rfl⟩

theorem Computes.mem {side : Side} {k b : Keyframe} {v w : Number} (h : s.Computes side k b v w) :
    k ∈ s.stored ∧ b ∈ s.stored := by
  obtain ⟨i, hk, hb⟩ := h.adjacent
  exact ⟨s.sorted_perm.mem_iff.1 (List.mem_of_getElem? hk),
    s.sorted_perm.mem_iff.1 (Side.mem_of_neighbour? hb)⟩

namespace FiniteData

variable (h : s.FiniteData)

include h

theorem exists_write_iff :
    (∃ text, s.table.write.value = .ok text) ↔ ∀ k ∈ s.keyframes, k.HasFiniteHandles := by
  rw [Spline.exists_write_iff h.apart]
  refine forall₂_congr fun k' hk' => ⟨fun hall => hall.2.2, fun hhandles => ?_⟩
  obtain ⟨i, k, hk, rfl⟩ := mem_keyframes_iff.1 hk'
  have hstored : k ∈ s.stored := s.sorted_perm.mem_iff.1 (List.mem_of_getElem? hk)
  exact ⟨h.frames k hstored, h.values k hstored, hhandles⟩

theorem isFinite_gaps (hwrite : ∃ text, s.table.write.value = .ok text) {side : Side}
    {k b : Keyframe} {v w : Number} (hc : s.Computes side k b v w) :
    (side.gap k.frame b.frame).isFinite = true ∧ (side.gap v w).isFinite = true := by
  obtain ⟨x, y, k', hk', hhandle⟩ := hc.exists_shown
  have hhandles := h.exists_write_iff.1 hwrite k' hk'
  have hfinite := Keyframe.hasFiniteHandles_iff.1 hhandles side _ hhandle
  exact ⟨Side.isFinite_gap_of_coordinate hfinite.1, Side.isFinite_gap_of_coordinate hfinite.2⟩

theorem exists_write_of_gaps (hgaps : ∀ side k b v w, s.Computes side k b v w →
      ((side.gap k.frame b.frame).isFinite = true ∧ ¬ b.frame.IsLargest) ∧
        (side.gap v w).isFinite = true ∧ ¬ w.IsLargest) :
    ∃ text, s.table.write.value = .ok text := by
  refine h.exists_write_iff.2 fun k' hk' => Keyframe.hasFiniteHandles_iff.2 ?_
  intro side handle hhandle
  -- a handle of the keyframe's own is data; a computed one is bounded by its neighbour
  rcases handle_cases hk' hhandle with ⟨k, hk, hown⟩ | ⟨k, b, v, w, x, y, hc, hhand, rfl⟩
  · exact Keyframe.hasFiniteHandles_iff.1 (h.handles k hk) side handle hown
  · obtain ⟨⟨htime, hlast⟩, hvalue, hlargest⟩ := hgaps side k b v w hc
    obtain ⟨hk, hb⟩ := hc.mem
    have hv := h.values k hk
    have hw := h.values b hb
    rw [hc.value] at hv
    rw [hc.value'] at hw
    obtain ⟨hx, hy⟩ := (h.curves k hk).isFraction hhand
    exact ⟨Side.isFinite_coordinate (h.frames k hk) (h.frames b hb) hx htime hlast,
      Side.isFinite_coordinate hv hw hy hvalue hlargest⟩

end FiniteData

/-- **Finite data renders unless a distance overflows.** A spline of finite data has a text exactly
if all handles that it shows are finite. It has one only if, wherever a handle is computed, the
distance to the neighbour is finite in time and in value, and this is enough unless the neighbour
stands at a largest double. So it has one if all frames and values are at most half of the largest
double. -/
theorem renders_of_finite_gaps (h : s.FiniteData) :
    ((∃ text, s.table.write.value = .ok text) ↔ ∀ k ∈ s.keyframes, k.HasFiniteHandles) ∧
    ((∃ text, s.table.write.value = .ok text) → ∀ side k b v w, s.Computes side k b v w →
      (side.gap k.frame b.frame).isFinite = true ∧ (side.gap v w).isFinite = true) ∧
    ((∀ side k b v w, s.Computes side k b v w →
        ((side.gap k.frame b.frame).isFinite = true ∧ ¬ b.frame.IsLargest) ∧
          (side.gap v w).isFinite = true ∧ ¬ w.IsLargest) →
      ∃ text, s.table.write.value = .ok text) ∧
    ((∀ k ∈ s.stored, k.frame.IsModerate ∧ ∀ v, k.value = .number v → v.IsModerate) →
      ∃ text, s.table.write.value = .ok text) := by
  refine ⟨h.exists_write_iff, fun hwrite _ _ _ _ _ hc => h.isFinite_gaps hwrite hc,
    h.exists_write_of_gaps, fun hmoderate => ?_⟩
  refine h.exists_write_of_gaps fun side k b v w hc => ?_
  obtain ⟨hframe, hvalue⟩ := hmoderate k hc.mem.1
  obtain ⟨hframe', hvalue'⟩ := hmoderate b hc.mem.2
  have hv := hvalue v hc.value
  have hw := hvalue' w hc.value'
  exact ⟨⟨Side.isFinite_gap hframe hframe', hframe'.not_isLargest⟩, Side.isFinite_gap hv hw,
    hw.not_isLargest⟩

/-- Four keyframes, not in the order of time: one has a handle of its own, one a strength that is no
number, and the last one is a text. -/
def finiteParts : Spline where
  name := "Zoom"
  defaultCurve := (Shape.decelerateInAndOut.curve (.ofInt 2)).value
  stored := [{ frame := 24, value := .number (.float (.ofQuotient 7 2)), left := some (9, 9) },
    { frame := 36, value := .text "end" },
    { frame := 0, value := .number 4, curve := some .linear },
    { frame := .float (.ofQuotient 25 2), value := .number 6,
      curve := some (Shape.easeInAndOut.curve .nan).value }]

theorem renders_of_finite_gaps_finiteParts :
    finiteParts.FiniteData ∧ ∃ text, finiteParts.table.write.value = .ok text := by
  have h : finiteParts.FiniteData := by
    refine ⟨⟨by decide +kernel, by decide +kernel⟩, by decide +kernel, by decide +kernel,
      by decide +kernel, ?_⟩
    simp only [finiteParts, List.forall_mem_cons, Option.getD_none, Option.getD_some]
    exact ⟨Curve.ofCatalog_curve _ _, Curve.ofCatalog_curve _ _, .inl rfl,
      Curve.ofCatalog_curve _ _, List.forall_mem_nil _⟩
  exact ⟨h, (renders_of_finite_gaps h).1.2 (by decide +kernel)⟩

/-- A keyframe that eases in and out of a double given by its bits. -/
def easedAt (frame : Number) (bits : UInt64) : Keyframe where
  frame := frame
  value := .number (.float (.ofBits bits))
  curve := some (Shape.easeInAndOut.curve Curve.defaultStrength).value

/-- Two keyframes whose values, `-1e308` and `1e308`, are farther apart than the largest double. -/
def wideGap : Spline where
  name := "Zoom"
  stored := [easedAt 0 0xffe1ccf385ebc8a0, easedAt 24 0x7fe1ccf385ebc8a0]

/-- A fraction of zero of an infinite distance is no number, and no text. -/
theorem not_renders_wideGap :
    wideGap.FiniteData ∧
      wideGap.keyframes.map (·.right.map (·.2)) = [some (.float .nan), none] ∧
      ¬ ∃ text, wideGap.table.write.value = .ok text := by
  have h : wideGap.FiniteData := by
    refine ⟨⟨by decide +kernel, by decide +kernel⟩, by decide +kernel, by decide +kernel,
      by decide +kernel, ?_⟩
    simp only [wideGap, easedAt, List.forall_mem_cons, Option.getD_some]
    exact ⟨Curve.ofCatalog_curve _ _, Curve.ofCatalog_curve _ _, List.forall_mem_nil _⟩
  refine ⟨h, by decide +kernel, ?_⟩
  rw [h.exists_write_iff]
  decide +kernel

end Spline

end SceneScript
