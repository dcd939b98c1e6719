import SceneScript.Proofs.InsertionOrder
import SceneScript.Proofs.KeyOrder
import SceneScript.Render
import SceneScript.Spline.Change

/-!
# The order of keyframes

A spline keeps its keyframes as they were written and sorts them when it is read. Where frames are
numbers and no two of them are equal, sorting has one result only: the frames ascend strictly, so
two keyframes cannot change places. What a spline shows is made from that list and from the default
curve, and so is its table, whose entries need no further sorting.

Main statements:

- `frames_ascending`: the frames of the sorted keyframes ascend strictly;
- `keyframes_eq_of_perm`: what is shown does not depend on the order in which keyframes are stored;
- `arranged_keyframeTable`: the table writes its entries in the order of the keyframes;
- `keyframes_foldl_add_of_perm`: keyframes may be added in any order.
-/

namespace SceneScript

/-- Whether all frames are numbers and no two of them are equal. -/
structure FramesApart (frames : List Number) : Prop where
  numeric : ∀ f ∈ frames, f.isNaN = false
  apart : frames.Pairwise fun f g => (f == g) = false

theorem FramesApart.perm {frames frames' : List Number} (h : FramesApart frames)
    (hperm : frames.Perm frames') : FramesApart frames' where
  numeric f hf := h.numeric f (hperm.mem_iff.2 hf)
  apart := by
    refine (hperm.pairwise_iff ?_).1 h.apart
    intro f g hne
    rw [BEq.comm, hne]

/-- Whether frames ascend strictly. -/
def Ascending (frames : List Number) : Prop := frames.Pairwise fun f g => f.compare? g = some .lt

namespace Number

theorem compare?_eq_lt_of_isLE {a b : Number} (ha : a.isNaN = false) (hb : b.isNaN = false)
    (hne : (a == b) = false) (hle : (a.totalCompare b).isLE) : a.compare? b = some .lt := by
  cases h : a.compare? b with
  | none =>
    rcases compare?_eq_none_iff.1 h with hnan | hnan
    · rw [ha] at hnan
      cases hnan
    · rw [hb] at hnan
      cases hnan
  | some o =>
    rw [totalCompare_of_compare? h] at hle
    cases o with
    | lt => rfl
    | eq =>
      have heq : (a == b) = true := decide_eq_true h
      rw [heq] at hne
      cases hne
    | gt => cases hle

theorem not_beq_of_compare?_eq_lt {a b : Number} (h : a.compare? b = some .lt) :
    (a == b) = false := by
  refine decide_eq_false ?_
  rw [h]
  simp

theorem compare?_asymm {a b : Number} (hab : a.compare? b = some .lt) :
    b.compare? a ≠ some .lt := by
  intro hba
  have hswap := totalCompare_swap a b
  rw [totalCompare_of_compare? hab, totalCompare_of_compare? hba] at hswap
  cases hswap

end Number

namespace Spline

variable {s s' : Spline}

/-! ## One order -/

theorem frames_perm (s : Spline) : s.frames.Perm (s.stored.map (·.frame)) :=
  s.sorted_perm.map _

theorem frames_inOrder (s : Spline) : s.frames.Pairwise fun f g => (f.totalCompare g).isLE := by
  have hsorted : s.sorted.Pairwise fun k k' => (k.frame.totalCompare k'.frame).isLE = true := by
    refine pairwise_sortBy (fun k₁ k₂ k₃ => ?_) (fun k k' => ?_) s.stored
    · exact Number.isLE_trans
    · exact Number.isLE_total k.frame k'.frame
  exact List.pairwise_map.2 hsorted

/-- The frames of the sorted keyframes ascend strictly. -/
theorem frames_ascending (h : FramesApart (s.stored.map (·.frame))) : Ascending s.frames := by
  have happart : FramesApart s.frames := h.perm s.frames_perm.symm
  refine (happart.apart.and s.frames_inOrder).imp_of_mem ?_
  rintro f g hf hg ⟨hne, hle⟩
  exact Number.compare?_eq_lt_of_isLE (happart.numeric f hf) (happart.numeric g hg) hne hle

/-- There is one ascending list of some keyframes only. -/
theorem eq_of_perm_of_ascending {l l' : List Keyframe} (h : Ascending (l.map (·.frame)))
    (h' : Ascending (l'.map (·.frame))) (hperm : l.Perm l') : l = l' := by
  refine List.Perm.eq_of_pairwise ?_ (List.pairwise_map.1 h) (List.pairwise_map.1 h') hperm
  intro k k' _ _ hlt hgt
  exact absurd hgt (Number.compare?_asymm hlt)

theorem sorted_eq_of_perm (h : FramesApart (s.stored.map (·.frame)))
    (hperm : s.stored.Perm s'.stored) : s.sorted = s'.sorted := by
  refine eq_of_perm_of_ascending (frames_ascending h) (frames_ascending (h.perm (hperm.map _))) ?_
  exact s.sorted_perm.trans (hperm.trans s'.sorted_perm.symm)

/-- All that resolving takes from a spline is its default curve. -/
theorem resolve_eq (hcurve : s.defaultCurve = s'.defaultCurve) : s.resolve = s'.resolve := by
  have hknot : s.knot = s'.knot := by
    funext k
    rw [knot, knot, hcurve]
  funext before k behind
  rw [resolve, resolve, hknot]

/-- What is shown does not depend on the order in which keyframes are stored. -/
theorem keyframes_eq_of_perm (h : FramesApart (s.stored.map (·.frame)))
    (hperm : s.stored.Perm s'.stored) (hcurve : s.defaultCurve = s'.defaultCurve) :
    s.keyframes = s'.keyframes := by
  rw [keyframes, keyframes, sorted_eq_of_perm h hperm, resolve_eq hcurve]

/-! ## The table -/

/-- Resolving handles leaves the frames as they are. -/
theorem map_frame_mapPart (before behind : Option Keyframe) (l : List Keyframe) :
    (mapPart s.resolve before behind l).map (·.frame) = l.map (·.frame) :=
  map_mapPart (f := s.resolve) (fun _ _ _ => rfl) l

theorem map_frame_keyframes (s : Spline) : s.keyframes.map (·.frame) = s.frames := by
  rw [keyframes, mapNeighbours_eq_mapPart, map_frame_mapPart, frames]

/-- The table writes its entries in the order of the keyframes. -/
theorem arranged_keyframeTable (h : FramesApart (s.stored.map (·.frame))) :
    s.keyframeTable.arranged = s.keyframes.map fun k => (.frame k.frame, .table k.table) := by
  have hascend : s.keyframes.Pairwise fun k k' => k.frame.compare? k'.frame = some .lt := by
    have hframes := frames_ascending h
    rw [← map_frame_keyframes] at hframes
    exact List.pairwise_map.1 hframes
  have happart : Entries.KeysApart (s.keyframes.map fun k =>
      ((.frame k.frame, .table k.table) : Key × Value)) := by
    refine List.pairwise_map.2 (hascend.imp ?_)
    intro k k' hlt
    show (k'.frame == k.frame) = false
    rw [BEq.comm, Number.not_beq_of_compare?_eq_lt hlt]
  unfold keyframeTable TableOf.arranged TableOf.arrange
  rw [Entries.toList_ofList happart]
  refine sortBy_of_pairwise (List.pairwise_map.2 (hascend.imp ?_))
  intro k k' hlt
  show (k.frame.totalCompare k'.frame).isLE = true
  rw [Number.totalCompare_of_compare? hlt]
  rfl

/-! ## Adding in any order -/

theorem put_of_forall_ne {k : Keyframe} {l : List Keyframe}
    (h : ∀ k' ∈ l, (k'.frame == k.frame) = false) : put k l = l ++ [k] := by
  induction l with
  | nil => rfl
  | cons k' rest ih =>
    have hfirst := h k' List.mem_cons_self
    rw [put, hfirst, if_neg Bool.false_ne_true, ih fun k hk => h k (List.mem_cons_of_mem _ hk)]
    rfl

/-- Keyframes at different frames are stored as they are added, each with a curve. -/
theorem foldl_add (s : Spline) {l : List Keyframe}
    (h : FramesApart ((s.stored ++ l).map (·.frame))) :
    l.foldl add s = { s with
      stored := s.stored ++
        l.map fun k => { k with curve := some (k.curve.getD s.defaultCurve) } } := by
  induction l generalizing s with
  | nil => rw [List.map_nil, List.append_nil, List.foldl_nil]
  | cons k rest ih =>
    have hadd : s.add k = { s with
        stored := s.stored ++ [{ k with curve := some (k.curve.getD s.defaultCurve) }] } := by
      refine congrArg (fun stored => { s with stored }) (put_of_forall_ne fun k' hk' => ?_)
      have hpairs := h.apart
      rw [List.map_append, List.pairwise_append] at hpairs
      exact hpairs.2.2 _ (List.mem_map_of_mem hk') _ List.mem_cons_self
    have hframes : FramesApart (((s.add k).stored ++ rest).map (·.frame)) := by
      rw [hadd, List.append_assoc]
      simpa using h
    rw [List.foldl_cons, ih (s.add k) hframes, hadd, List.append_assoc]
    rfl

/-- **Keyframes may be added in any order.** Two splines that are alike but for the order in which
keyframes at different frames are added show the same keyframes, in ascending order of these frames
and with the same handles, and are written as the same text or fail with the same error; the entries
of the table are in that order, too. -/
theorem keyframes_foldl_add_of_perm (name : String) (defaultCurve : Curve) (color : Option Color)
    {l l' : List Keyframe} (hperm : l.Perm l') (h : FramesApart (l.map (·.frame))) :
    let s := l.foldl add { name, defaultCurve, color }
    let s' := l'.foldl add { name, defaultCurve, color }
    s.keyframes = s'.keyframes ∧ s.table.render = s'.table.render ∧
      (s.keyframes.map (·.frame)).Perm (l.map (·.frame)) ∧ Ascending (s.keyframes.map (·.frame)) ∧
      s.keyframeTable.arranged = s.keyframes.map fun k => (.frame k.frame, .table k.table) := by
  intro s s'
  have hs := foldl_add { name, defaultCurve, color } (l := l) h
  have hs' := foldl_add { name, defaultCurve, color } (l := l') (h.perm (hperm.map _))
  have hframes : s.stored.map (·.frame) = l.map (·.frame) := by
    rw [show s = _ from hs, List.nil_append, List.map_map]
    rfl
  have happart : FramesApart (s.stored.map (·.frame)) := by
    rw [hframes]
    exact h
  have hstored : s.stored.Perm s'.stored := by
    rw [show s = _ from hs, show s' = _ from hs']
    exact hperm.map _
  have hcurve : s.defaultCurve = s'.defaultCurve := by rw [show s = _ from hs, show s' = _ from hs']
  have hcolor : s.color = s'.color := by rw [show s = _ from hs, show s' = _ from hs']
  have hkeyframes : s.keyframes = s'.keyframes := keyframes_eq_of_perm happart hstored hcurve
  refine ⟨hkeyframes, ?_, ?_, ?_, arranged_keyframeTable happart⟩
  · rw [table, table, keyframeTable, keyframeTable, hkeyframes, hcolor]
  · rw [map_frame_keyframes, ← hframes]
    exact s.frames_perm
  · rw [map_frame_keyframes]
    exact frames_ascending happart

/-- Three keyframes from the last to the first, one of them between whole frames. -/
def lastFirst : List Keyframe :=
  [{ frame := 24, value := .number 1, curve := some ⟨some (1, 0), none⟩ },
    { frame := .float (.ofQuotient 25 2), value := .number 5, right := some (20, 5) },
    { frame := 0, value := .text "start", flags := { loop := some true } }]

theorem keyframes_foldl_add_lastFirst :
    let s := lastFirst.foldl add { name := "Zoom" }
    let s' := lastFirst.reverse.foldl add { name := "Zoom" }
    lastFirst.Perm lastFirst.reverse ∧ FramesApart (lastFirst.map (·.frame)) ∧
      s.keyframes = s'.keyframes ∧ s.table.render = s'.table.render := by
  have hperm : lastFirst.Perm lastFirst.reverse := lastFirst.reverse_perm.symm
  have h : FramesApart (lastFirst.map (·.frame)) := ⟨by decide +kernel, by decide +kernel⟩
  obtain ⟨hkeyframes, hrender, -⟩ :=
    keyframes_foldl_add_of_perm "Zoom" .linear none hperm h
  exact ⟨hperm, h, hkeyframes, hrender⟩

end Spline

end SceneScript
