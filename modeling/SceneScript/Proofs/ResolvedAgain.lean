import SceneScript.Proofs.HandleRule

/-!
# Resolving again

The keyframes that a spline shows may be stored in another one. There the handles that were computed
are the keyframes' own, those that could not be computed are tried once more, and curves that were
missing have been filled in. Nothing comes of it: what handles are computed from, the `knot` of a
keyframe, is the same for a keyframe and for what is shown of it, so what is missing stays missing.

Main statements:

- `map_knot_keyframes`: what is shown has the knots of what is stored;
- `resolve_resolve`: between the same knots a resolved keyframe stays as it is;
- `keyframes_foldl_add_keyframes`: a spline of the keyframes of another shows the same.
-/

namespace SceneScript

namespace Spline

variable {s : Spline}

/-- The keyframe with the curve that it has in a spline. -/
def withCurve (s : Spline) (k : Keyframe) : Keyframe :=
  { k with curve := some (k.curve.getD s.defaultCurve) }

@[simp] theorem knot_withCurve (s : Spline) (k : Keyframe) : s.knot (s.withCurve k) = s.knot k :=
  rfl

/-- What is shown has the knots of what is stored. -/
theorem map_knot_keyframes (s : Spline) : s.keyframes.map s.knot = s.sorted.map s.knot := by
  rw [keyframes, mapNeighbours_eq_mapPart]
  exact map_mapPart (f := s.resolve) (fun _ _ _ => rfl) s.sorted

/-- A handle that was looked for once towards a neighbour is the same the next time. -/
theorem handle_again (neighbour? : Option Knot) (own : Option Handle)
    (compute : Knot → Option Handle) :
    (neighbour?.bind fun b => (neighbour?.bind fun b' => own.or (compute b')).or (compute b)) =
      neighbour?.bind fun b => own.or (compute b) := by
  cases neighbour? with
  | none => rfl
  | some b =>
    show (own.or (compute b)).or (compute b) = own.or (compute b)
    rw [Option.or_assoc, Option.or_self]

/-- All that resolving takes from the neighbours is their knots. -/
theorem resolve_eq_of_knots (s : Spline) (before behind : Option Keyframe) (k : Keyframe) :
    s.resolve before k behind =
      { k with
        left := (before.map s.knot).bind fun b => k.left.or ((s.knot k).leftHandle b)
        right := (behind.map s.knot).bind fun b => k.right.or ((s.knot k).rightHandle b) } := by
  rw [resolve, Option.bind_map, Option.bind_map]
  rfl

/-- Between the same knots a resolved keyframe stays as it is. -/
theorem resolve_resolve {before before' behind behind' : Option Keyframe} (k : Keyframe)
    (hbefore : before'.map s.knot = before.map s.knot)
    (hbehind : behind'.map s.knot = behind.map s.knot) :
    s.resolve before' (s.withCurve (s.resolve before k behind)) behind' =
      s.withCurve (s.resolve before k behind) := by
  have hknot : s.knot (s.resolve before k behind) = s.knot k := rfl
  rw [s.resolve_eq_of_knots before', hbefore, hbehind, knot_withCurve, hknot]
  simp only [withCurve, resolve_eq_of_knots, handle_again]

/-- The shown keyframes, stored as they are, are shown as they are. -/
theorem keyframes_of_sorted_eq {s' : Spline} (hcurve : s'.defaultCurve = s.defaultCurve)
    (hsorted : s'.sorted = s.keyframes.map s.withCurve) :
    s'.keyframes = s.keyframes.map s.withCurve := by
  have hneighbour : ∀ (side : Side) (i : Nat),
      (side.neighbour? (s.keyframes.map s.withCurve) i).map s.knot =
        (side.neighbour? s.sorted i).map s.knot := by
    intro side i
    rw [← Side.neighbour?_map, ← Side.neighbour?_map, ← map_knot_keyframes, List.map_map]
    rfl
  refine List.ext_getElem? fun i => ?_
  rw [getElem?_keyframes, hsorted, resolve_eq hcurve, List.getElem?_map, getElem?_keyframes]
  cases s.sorted[i]? with
  | none => rfl
  | some k =>
    exact congrArg some (resolve_resolve k (hneighbour .before i) (hneighbour .behind i))

/-- **Resolving again changes nothing.** A spline with the same default curve to which the shown
keyframes are added, in any order, shows the same frames, values, handles and flags, and beside them
the curves that were in use. -/
theorem keyframes_foldl_add_keyframes (h : FramesApart (s.stored.map (·.frame))) (name : String)
    (color : Option Color) {l : List Keyframe} (hperm : l.Perm s.keyframes) :
    let s' := l.foldl add { name, defaultCurve := s.defaultCurve, color }
    s'.keyframes.map (fun k => (k.frame, k.value, k.left, k.right, k.flags)) =
        s.keyframes.map (fun k => (k.frame, k.value, k.left, k.right, k.flags)) ∧
      s'.keyframes = s.keyframes.map fun k =>
        { k with curve := some (k.curve.getD s.defaultCurve) } := by
  intro s'
  have hframes : (l.map (·.frame)).Perm (s.stored.map (·.frame)) := by
    refine (hperm.map _).trans ?_
    rw [map_frame_keyframes]
    exact s.frames_perm
  have hadd : s' = _ :=
    foldl_add { name, defaultCurve := s.defaultCurve, color } (h.perm hframes.symm)
  have hstored : s'.stored.Perm (s.keyframes.map s.withCurve) := by
    rw [hadd]
    exact hperm.map _
  have happart : FramesApart (s'.stored.map (·.frame)) := by
    rw [hadd, List.nil_append, List.map_map]
    exact h.perm hframes.symm
  have hcurve : s'.defaultCurve = s.defaultCurve := by rw [hadd]
  have hascending : Ascending ((s.keyframes.map s.withCurve).map (·.frame)) := by
    rw [List.map_map]
    show Ascending (s.keyframes.map (·.frame))
    rw [map_frame_keyframes]
    exact frames_ascending h
  have hsorted : s'.sorted = s.keyframes.map s.withCurve :=
    eq_of_perm_of_ascending (frames_ascending happart) hascending
      (s'.sorted_perm.trans hstored)
  have hkeyframes := keyframes_of_sorted_eq hcurve hsorted
  refine ⟨?_, hkeyframes⟩
  rw [hkeyframes, List.map_map]
  rfl

/-- Four keyframes, not in the order of time: one has a handle of its own, one a curve of its own,
and one is a text. -/
def partlyOwn : Spline where
  name := "Zoom"
  defaultCurve := ⟨some (1, 2), some (1, 2)⟩
  stored := [{ frame := 24, value := .number 20, left := some (9, 9) },
    { frame := 36, value := .text "end" }, { frame := 0, value := .number 4 },
    { frame := 12, value := .number 6, curve := some ⟨none, some (2, 1)⟩ }]

theorem keyframes_foldl_add_keyframes_partlyOwn :
    FramesApart (partlyOwn.stored.map (·.frame)) ∧
      partlyOwn.keyframes.reverse.Perm partlyOwn.keyframes ∧
      (partlyOwn.keyframes.reverse.foldl add
          { name := "Again", defaultCurve := partlyOwn.defaultCurve }).keyframes.map
        (fun k => (k.frame, k.value, k.left, k.right, k.flags)) =
          partlyOwn.keyframes.map (fun k => (k.frame, k.value, k.left, k.right, k.flags)) := by
  have h : FramesApart (partlyOwn.stored.map (·.frame)) :=
    ⟨by decide +kernel, by decide +kernel⟩
  have hperm := List.reverse_perm partlyOwn.keyframes
  exact ⟨h, hperm, (keyframes_foldl_add_keyframes h "Again" none hperm).1⟩

end Spline

end SceneScript
