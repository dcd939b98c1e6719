import Mathlib.Data.Set.Card
import SceneScript.Proofs.ExactOrder
import SceneScript.Proofs.KeyframeOrder

/-!
# A spline is a map from frames to keyframes

Seen from outside a spline is a function that gives a keyframe, or none, for every exact frame, and
a curve for keyframes to come. The list in which it keeps its keyframes is searched from its front,
with a comparison across integers and doubles. It is such a function as long as no exact frame
stands in it twice, and that is what every change keeps: `Shows` says that both hold, and there is
one lemma about it for each operation.

Main statements:

- `Shows.change`: one change of a spline is the change of the map;
- `Shows.length_eq`: the length is the number of frames with a keyframe;
- `changeAll_frameMap`: whatever is done to a spline, it is a map.
-/

namespace SceneScript

/-- What a spline is seen from outside. -/
structure FrameMap where
  defaultCurve : Curve
  keyframe? : ExtendedRat → Option Keyframe

namespace FrameMap

/-- No keyframe at any frame. -/
def empty (defaultCurve : Curve) : FrameMap := ⟨defaultCurve, fun _ => none⟩

/-- The keyframe at a frame, by its exact value; there is none at `nan`. -/
def get? (m : FrameMap) (frame : Number) : Option Keyframe := frame.exactValue?.bind m.keyframe?

/-- Writes what is at one frame; what is written at `nan` is lost. -/
def write (m : FrameMap) (frame : Number) (k : Option Keyframe) : FrameMap :=
  { m with keyframe? := fun v => if frame.exactValue? = some v then k else m.keyframe? v }

/-- Puts a keyframe at its frame, in place of what is there. -/
def add (m : FrameMap) (k : Keyframe) : FrameMap :=
  m.write k.frame (some { k with curve := some (k.curve.getD m.defaultCurve) })

/-- What each change of a spline means. All but that of the curve are about single frames. -/
def change (m : FrameMap) : Spline.Change → FrameMap
  | .add k => m.add k
  | .addAll points curve => points.foldl (fun m' p =>
      m'.add { frame := p.1, value := p.2, curve := some (curve.getD m.defaultCurve) }) m
  | .set frame value =>
    match m.get? frame with
    | some k => m.write frame (some { k with value })
    | none => m.add { frame, value }
  | .edit frame f => m.write frame ((m.get? frame).map f)
  | .applyCurve curve =>
    { defaultCurve := curve
      keyframe? := fun v => (m.keyframe? v).map fun k => { k with curve := some curve } }
  | .remove frame => m.write frame none
  | .setColor _ => m

/-- The map after several changes. -/
def changeAll (m : FrameMap) (changes : List Spline.Change) : FrameMap := changes.foldl change m

/-- The exact frames that have a keyframe. -/
def domain (m : FrameMap) : Set ExtendedRat := {v | (m.keyframe? v).isSome}

end FrameMap

namespace Number

theorem beq_eq_decide {a b : Number} {v : ExtendedRat} (hb : b.exactValue? = some v) :
    (a == b) = decide (a.exactValue? = some v) := by
  rw [Bool.eq_iff_iff, decide_eq_true_iff, beq_iff_exactValue?, hb]
  constructor
  · rintro ⟨w, ha, hw⟩
    rw [ha, hw]
  · intro ha
    exact ⟨v, ha, rfl⟩

theorem beq_eq_false_of_none {a b : Number} (hb : b.exactValue? = none) : (a == b) = false := by
  refine Bool.eq_false_iff.2 fun h => ?_
  obtain ⟨v, -, hv⟩ := beq_iff_exactValue?.1 h
  rw [hb] at hv
  cases hv

end Number

namespace Spline

/-! ## The list -/

/-- The exact frames of some keyframes. -/
def exactFrames (l : List Keyframe) : List (Option ExtendedRat) := l.map (·.frame.exactValue?)

/-- The first of some keyframes at an exact frame. -/
def findExact (v : ExtendedRat) (l : List Keyframe) : Option Keyframe :=
  l.find? fun k => k.frame.exactValue? = some v

section List

variable {k : Keyframe} {frame : Number} {f : Keyframe → Keyframe} {v w : ExtendedRat}
  {l : List Keyframe}

theorem findExact_cons :
    findExact w (k :: l) = if k.frame.exactValue? = some w then some k else findExact w l := by
  by_cases h : k.frame.exactValue? = some w <;> simp [findExact, h]

theorem findExact_eq_none_iff : findExact v l = none ↔ some v ∉ exactFrames l := by
  simp [findExact, exactFrames]

theorem find?_eq_findExact (hv : frame.exactValue? = some v) (l : List Keyframe) :
    l.find? (·.frame == frame) = findExact v l := by
  simp only [findExact, Number.beq_eq_decide hv]

theorem findExact_put (hv : k.frame.exactValue? = some v) (l : List Keyframe) :
    findExact w (put k l) = if some v = some w then some k else findExact w l := by
  induction l with
  | nil => rw [put, findExact_cons, hv]
  | cons k' rest ih =>
    rw [put, Number.beq_eq_decide hv]
    by_cases h : k'.frame.exactValue? = some v
    · rw [if_pos (decide_eq_true h), findExact_cons, findExact_cons, hv, h]
      split <;> rfl
    · rw [decide_eq_false h, if_neg Bool.false_ne_true, findExact_cons, ih, findExact_cons]
      refine ite_ite_comm _ _ _ _ ?_
      intro hw hvw
      exact h (hw.trans hvw.symm)

theorem length_put (hv : k.frame.exactValue? = some v) (l : List Keyframe) :
    (put k l).length = if (findExact v l).isSome then l.length else l.length + 1 := by
  induction l with
  | nil => rfl
  | cons k' rest ih =>
    rw [put, Number.beq_eq_decide hv, findExact_cons]
    by_cases h : k'.frame.exactValue? = some v
    · rw [if_pos (decide_eq_true h), if_pos h]
      rfl
    · rw [decide_eq_false h, if_neg Bool.false_ne_true, if_neg h, List.length_cons, ih]
      split <;> rfl

theorem findExact_editAt (hv : frame.exactValue? = some v) (hf : ∀ k, (f k).frame = k.frame)
    (l : List Keyframe) :
    findExact w (editAt frame f l) =
      if some v = some w then (findExact v l).map f else findExact w l := by
  induction l with
  | nil => simp [editAt, findExact]
  | cons k' rest ih =>
    rw [editAt, Number.beq_eq_decide hv]
    by_cases h : k'.frame.exactValue? = some v
    · rw [if_pos (decide_eq_true h), findExact_cons, findExact_cons, findExact_cons, hf, h]
      split <;> simp
    · rw [decide_eq_false h, if_neg Bool.false_ne_true, findExact_cons, ih, findExact_cons,
        findExact_cons, if_neg h]
      refine ite_ite_comm _ _ _ _ ?_
      intro hw hvw
      exact h (hw.trans hvw.symm)

theorem findExact_eraseP (hv : frame.exactValue? = some v) (hl : (exactFrames l).Nodup) :
    findExact w (l.eraseP (·.frame == frame)) =
      if some v = some w then none else findExact w l := by
  induction l with
  | nil => simp [findExact]
  | cons k' rest ih =>
    obtain ⟨hfirst, hrest⟩ := List.nodup_cons.1 hl
    rw [List.eraseP_cons, Number.beq_eq_decide hv]
    by_cases h : k'.frame.exactValue? = some v
    · replace hfirst : some v ∉ exactFrames rest := h ▸ hfirst
      rw [decide_eq_true h, cond_true, findExact_cons, h]
      split
      · rename_i hvw
        exact findExact_eq_none_iff.2 (hvw ▸ hfirst)
      · rfl
    · rw [decide_eq_false h, cond_false, findExact_cons, ih hrest, findExact_cons]
      refine ite_ite_comm _ _ _ _ ?_
      intro hw hvw
      exact h (hw.trans hvw.symm)

theorem findExact_map (hf : ∀ k, (f k).frame = k.frame) :
    findExact w (l.map f) = (findExact w l).map f := by
  simp only [findExact, List.find?_map, Function.comp_def, hf]

theorem exactFrames_put_of_mem (hv : k.frame.exactValue? = some v) (h : some v ∈ exactFrames l) :
    exactFrames (put k l) = exactFrames l := by
  induction l with
  | nil => cases h
  | cons k' rest ih =>
    rw [put, Number.beq_eq_decide hv]
    by_cases hk' : k'.frame.exactValue? = some v
    · rw [if_pos (decide_eq_true hk')]
      exact congrArg (· :: exactFrames rest) (hv.trans hk'.symm)
    · rw [decide_eq_false hk', if_neg Bool.false_ne_true]
      have hrest := (List.mem_cons.1 h).resolve_left (Ne.symm hk')
      exact congrArg (k'.frame.exactValue? :: ·) (ih hrest)

theorem exactFrames_put_of_not_mem (hv : k.frame.exactValue? = some v)
    (h : some v ∉ exactFrames l) : exactFrames (put k l) = exactFrames l ++ [some v] := by
  have hput : put k l = l ++ [k] := by
    refine put_of_forall_ne fun k' hk' => ?_
    rw [Number.beq_eq_decide hv]
    refine decide_eq_false fun hk'v => h ?_
    exact List.mem_map.2 ⟨k', hk', hk'v⟩
  rw [hput, exactFrames, List.map_append, List.map_singleton, hv]
  rfl

theorem exactFrames_editAt (hf : ∀ k, (f k).frame = k.frame) (l : List Keyframe) :
    exactFrames (editAt frame f l) = exactFrames l := by
  induction l with
  | nil => rfl
  | cons k' rest ih =>
    rw [editAt]
    split
    · exact congrArg (· :: exactFrames rest) (congrArg Number.exactValue? (hf k'))
    · exact congrArg (k'.frame.exactValue? :: ·) ih

/-- There is nothing at `nan` that could be edited. -/
theorem editAt_of_exactValue?_eq_none (hnone : frame.exactValue? = none) (l : List Keyframe) :
    editAt frame f l = l := by
  induction l with
  | nil => rfl
  | cons k' rest ih =>
    rw [editAt, Number.beq_eq_false_of_none hnone, if_neg Bool.false_ne_true, ih]

/-- There is nothing at `nan` that could be removed. -/
theorem eraseP_of_exactValue?_eq_none (hnone : frame.exactValue? = none) (l : List Keyframe) :
    l.eraseP (·.frame == frame) = l := by
  refine List.eraseP_of_forall_not fun k _ => ?_
  simp [Number.beq_eq_false_of_none hnone]

end List

/-! ## What a spline shows -/

/-- The map that a spline is. -/
def view (s : Spline) : FrameMap := ⟨s.defaultCurve, fun v => findExact v s.stored⟩

/-- Whether a spline shows a map: no exact frame stands twice, and what is found is in the map. -/
structure Shows (s : Spline) (m : FrameMap) : Prop where
  numeric : none ∉ exactFrames s.stored
  nodup : (exactFrames s.stored).Nodup
  view : s.view = m

/-- Whether a change writes at frames that are numbers, and no edit moves a keyframe. -/
def Change.Proper : Change → Prop
  | .add k => k.frame.isNaN = false
  | .addAll points _ => ∀ p ∈ points, p.1.isNaN = false
  | .set frame _ => frame.isNaN = false
  | .edit _ f => ∀ k, (f k).frame = k.frame
  | .applyCurve _ => True
  | .remove _ => True
  | .setColor _ => True

theorem shows_empty (name : String) (defaultCurve : Curve) (color : Option Color) :
    Shows { name, defaultCurve, color } (.empty defaultCurve) :=
  ⟨List.not_mem_nil, List.nodup_nil, rfl⟩

namespace Shows

variable {s : Spline} {m : FrameMap}

theorem get?_eq (h : s.Shows m) (frame : Number) : s.get? frame = m.get? frame := by
  rw [← h.view]
  unfold FrameMap.get? Spline.get?
  cases hv : frame.exactValue? with
  | none =>
    rw [Option.bind_none, List.find?_eq_none]
    simp [Number.beq_eq_false_of_none hv]
  | some v => exact find?_eq_findExact hv s.stored

/-- What is at one frame may be written without a look at the others. -/
theorem of_write {stored : List Keyframe} (h : s.Shows m) (frame : Number) (k : Option Keyframe)
    (hnumeric : none ∉ exactFrames stored) (hnodup : (exactFrames stored).Nodup)
    (hfind : ∀ w, findExact w stored =
      if frame.exactValue? = some w then k else findExact w s.stored) :
    Shows { s with stored } (m.write frame k) where
  numeric := hnumeric
  nodup := hnodup
  view := by
    rw [← h.view]
    exact congrArg (FrameMap.mk s.defaultCurve) (funext hfind)

theorem defaultCurve_eq (h : s.Shows m) : s.defaultCurve = m.defaultCurve :=
  congrArg FrameMap.defaultCurve h.view

theorem add (h : s.Shows m) {k : Keyframe} (hk : k.frame.isNaN = false) :
    (s.add k).Shows (m.add k) := by
  obtain ⟨v, hv⟩ := Number.exists_exactValue? hk
  unfold Spline.add FrameMap.add
  rw [← h.defaultCurve_eq]
  generalize hk' : ({ k with curve := some (k.curve.getD s.defaultCurve) } : Keyframe) = k'
  have hframe : k.frame = k'.frame := by rw [← hk']
  rw [hframe] at hv ⊢
  have hfind : ∀ w, findExact w (put k' s.stored) =
      if k'.frame.exactValue? = some w then some k' else findExact w s.stored := by
    intro w
    rw [findExact_put hv, hv]
  by_cases hmem : some v ∈ exactFrames s.stored
  · have hframes := exactFrames_put_of_mem hv hmem
    exact h.of_write _ _ (hframes ▸ h.numeric) (hframes ▸ h.nodup) hfind
  · have hframes := exactFrames_put_of_not_mem hv hmem
    refine h.of_write _ _ ?_ ?_ hfind
    · rw [hframes]
      simpa using h.numeric
    · rw [hframes]
      exact List.concat_eq_append ▸ h.nodup.concat hmem

theorem modify (h : s.Shows m) (frame : Number) {f : Keyframe → Keyframe}
    (hf : ∀ k, (f k).frame = k.frame) :
    (s.modify frame f).Shows (m.write frame ((m.get? frame).map f)) := by
  have hframes : exactFrames (editAt frame f s.stored) = exactFrames s.stored :=
    exactFrames_editAt hf s.stored
  refine h.of_write _ _ (hframes ▸ h.numeric) (hframes ▸ h.nodup) fun w => ?_
  cases hv : frame.exactValue? with
  | none => rw [editAt_of_exactValue?_eq_none hv, if_neg nofun]
  | some v => rw [findExact_editAt hv hf, ← h.get?_eq, Spline.get?, find?_eq_findExact hv]

theorem remove (h : s.Shows m) (frame : Number) : (s.remove frame).Shows (m.write frame none) := by
  have hsub : (exactFrames (s.stored.eraseP (·.frame == frame))).Sublist (exactFrames s.stored) :=
    List.eraseP_sublist.map _
  refine h.of_write _ _ (fun hnone => h.numeric (hsub.subset hnone)) (h.nodup.sublist hsub)
    fun w => ?_
  cases hv : frame.exactValue? with
  | none => rw [eraseP_of_exactValue?_eq_none hv, if_neg nofun]
  | some v => rw [findExact_eraseP hv h.nodup]

theorem set (h : s.Shows m) {frame : Number} (hframe : frame.isNaN = false)
    (value : KeyframeValue) : (s.set frame value).Shows (m.change (.set frame value)) := by
  simp only [Spline.set, FrameMap.change, h.get?_eq]
  cases hget : m.get? frame with
  | none => exact h.add (k := { frame, value }) hframe
  | some k =>
    have hmodify := h.modify frame (f := fun k => { k with value }) fun _ => rfl
    rw [hget] at hmodify
    exact hmodify

theorem applyCurve (h : s.Shows m) (curve : Curve) :
    (s.applyCurve curve).Shows (m.change (.applyCurve curve)) := by
  have hframes : exactFrames (s.applyCurve curve).stored = exactFrames s.stored := by
    unfold exactFrames Spline.applyCurve
    rw [List.map_map]
    rfl
  refine ⟨hframes ▸ h.numeric, hframes ▸ h.nodup, ?_⟩
  rw [← h.view]
  refine congrArg (FrameMap.mk curve) (funext fun v => ?_)
  exact findExact_map fun _ => rfl

theorem addAll (h : s.Shows m) {points : List (Number × KeyframeValue)}
    (hpoints : ∀ p ∈ points, p.1.isNaN = false) (curve : Option Curve) :
    (s.addAll points curve).Shows (m.change (.addAll points curve)) := by
  simp only [Spline.addAll, FrameMap.change, h.defaultCurve_eq]
  -- the curve is read off the spline as it was, whatever has been added since
  generalize curve.getD m.defaultCurve = c
  induction points generalizing s m with
  | nil => exact h
  | cons p rest ih =>
    refine ih (h.add ?_) fun q hq => hpoints q (List.mem_cons_of_mem p hq)
    exact hpoints p List.mem_cons_self

/-- **One change** of a spline is the change of the map. -/
theorem change (h : s.Shows m) {c : Change} (hc : c.Proper) : (s.change c).Shows (m.change c) := by
  cases c with
  | add k => exact h.add hc
  | addAll points curve => exact h.addAll hc curve
  | set frame value => exact h.set hc value
  | edit frame f => exact h.modify frame hc
  | applyCurve curve => exact h.applyCurve curve
  | remove frame => exact h.remove frame
  | setColor color => exact ⟨h.numeric, h.nodup, h.view⟩

theorem changeAll (h : s.Shows m) {changes : List Change} (hproper : ∀ c ∈ changes, c.Proper) :
    (s.changeAll changes).Shows (m.changeAll changes) := by
  induction changes generalizing s m with
  | nil => exact h
  | cons c rest ih =>
    refine ih (h.change ?_) fun c' hc' => hproper c' (List.mem_cons_of_mem c hc')
    exact hproper c List.mem_cons_self

/-! ## What follows -/

theorem framesApart (h : s.Shows m) : FramesApart (s.stored.map (·.frame)) where
  numeric f hf := by
    refine Bool.eq_false_iff.2 fun hnan => h.numeric ?_
    obtain ⟨k, hk, rfl⟩ := List.mem_map.1 hf
    exact List.mem_map.2 ⟨k, hk, Number.exactValue?_eq_none_iff.2 hnan⟩
  apart := by
    refine List.pairwise_map.2 ((List.pairwise_map.1 h.nodup).imp ?_)
    intro k k' hne
    refine Bool.eq_false_iff.2 fun hbeq => hne ?_
    obtain ⟨v, hk, hk'⟩ := Number.beq_iff_exactValue?.1 hbeq
    exact hk.trans hk'.symm

/-- A spline whose frames are apart shows a map. -/
theorem of_framesApart (h : FramesApart (s.stored.map (·.frame))) : s.Shows s.view where
  numeric hnone := by
    obtain ⟨k, hk, hnan⟩ := List.mem_map.1 hnone
    have hnumeric := h.numeric k.frame (List.mem_map_of_mem hk)
    rw [Number.exactValue?_eq_none_iff.1 hnan] at hnumeric
    cases hnumeric
  nodup := by
    refine List.pairwise_map.2 ((List.pairwise_map.1 h.apart).imp_of_mem ?_)
    intro k k' hk _ hne heq
    obtain ⟨v, hv⟩ := Number.exists_exactValue? (h.numeric k.frame (List.mem_map_of_mem hk))
    rw [Number.beq_iff_exactValue?.2 ⟨v, hv, heq ▸ hv⟩] at hne
    cases hne
  view := rfl

/-- The length is the number of frames with a keyframe. -/
theorem length_eq (h : s.Shows m) : s.length = m.domain.ncard := by
  have hdomain : some '' m.domain = (exactFrames s.stored).toFinset := by
    ext o
    rw [← h.view, Finset.mem_coe, List.mem_toFinset]
    cases o with
    | none => simpa using h.numeric
    | some v =>
      have hfind : (s.view.keyframe? v).isSome ↔ some v ∈ exactFrames s.stored := by
        show (findExact v s.stored).isSome ↔ _
        rw [Option.isSome_iff_ne_none, ne_eq, findExact_eq_none_iff, not_not]
      simpa [FrameMap.domain] using hfind
  rw [← Set.ncard_image_of_injective _ (Option.some_injective _), hdomain, Set.ncard_coe_finset,
    List.toFinset_card_of_nodup h.nodup, exactFrames, List.length_map, length]

/-- Adding at an occupied frame replaces, and at a free one there is one more keyframe. -/
theorem length_add (h : s.Shows m) {k : Keyframe} (hk : k.frame.isNaN = false) :
    (s.add k).length = if (m.get? k.frame).isSome then s.length else s.length + 1 := by
  obtain ⟨v, hv⟩ := Number.exists_exactValue? hk
  rw [← h.get?_eq, Spline.get?, find?_eq_findExact hv]
  exact length_put (k := { k with curve := some (k.curve.getD s.defaultCurve) }) hv s.stored

end Shows

/-- **A spline is a map from frames to keyframes**, whatever is done to it. Its frames are apart and
its length is the number of frames that have a keyframe; what is found at a frame is what the map
has at the exact value; one more keyframe is counted only if its frame is free; and the frames are
read in strictly ascending order. -/
theorem changeAll_frameMap (name : String) (defaultCurve : Curve) (color : Option Color)
    {changes : List Change} (h : ∀ c ∈ changes, c.Proper) :
    let s := ({ name, defaultCurve, color } : Spline).changeAll changes
    let m := (FrameMap.empty defaultCurve).changeAll changes
    FramesApart (s.stored.map (·.frame)) ∧ s.length = m.domain.ncard ∧
      s.defaultCurve = m.defaultCurve ∧ (∀ frame, s.get? frame = m.get? frame) ∧
      (∀ k : Keyframe, k.frame.isNaN = false → (s.add k).length =
        if (s.get? k.frame).isSome then s.length else s.length + 1) ∧
      Ascending s.frames ∧ s.frames.Perm (s.stored.map (·.frame)) := by
  intro s m
  have hshows : s.Shows m := (shows_empty name defaultCurve color).changeAll h
  refine ⟨hshows.framesApart, hshows.length_eq, hshows.defaultCurve_eq, hshows.get?_eq, ?_,
    frames_ascending hshows.framesApart, s.frames_perm⟩
  intro k hk
  rw [hshows.length_add hk, hshows.get?_eq]

/-- Changes that name the same frames as integers and as doubles. -/
def mixedFrames : List Change :=
  [.add { frame := .float (.ofQuotient 24 1), value := .number 1, right := some (30, 1) },
    .addAll [(0, .number 2), (24, .number 3)] none, .set (.float (.ofQuotient 0 1)) (.number 7),
    .set (.float (.ofQuotient 25 2)) (.text "half"),
    .edit 0 (fun k => { k with flags := { loop := some true } }),
    .applyCurve ⟨some (1, 0), none⟩, .remove (.float (.ofQuotient 25 2)),
    .set (.float (.ofQuotient 36 1)) (.number 9)]

theorem changeAll_frameMap_mixedFrames :
    let s := ({ name := "Zoom" } : Spline).changeAll mixedFrames
    let m := (FrameMap.empty .linear).changeAll mixedFrames
    (∀ c ∈ mixedFrames, c.Proper) ∧ m.domain.ncard = 3 ∧ s.get? 24 = m.get? 24 ∧
      (s.add { frame := .float (.ofQuotient 36 1), value := .number 0 }).length = 3 ∧
      Ascending s.frames := by
  intro s m
  have h : ∀ c ∈ mixedFrames, c.Proper := by
    simp only [mixedFrames, List.forall_mem_cons, Change.Proper]
    refine ⟨by decide +kernel, by decide +kernel, by decide +kernel, by decide +kernel,
      fun _ => trivial, trivial, trivial, by decide +kernel, List.forall_mem_nil _⟩
  obtain ⟨-, hlength, -, hget, hadd, hascending, -⟩ :=
    changeAll_frameMap "Zoom" .linear none h
  refine ⟨h, ?_, hget 24, ?_, hascending⟩
  · rw [← hlength]
    decide +kernel
  · rw [hadd { frame := .float (.ofQuotient 36 1), value := .number 0 } (by decide +kernel)]
    decide +kernel

end Spline

end SceneScript
