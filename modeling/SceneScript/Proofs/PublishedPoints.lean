import SceneScript.Proofs.NumberText
import SceneScript.Proofs.Registration
import SceneScript.Tool

/-!
# Published polylines

A polyline is published by two kinds of inputs: its own, whose table lists the names of its points,
and one for each point. All of them are added under names that may be there already, in whatever
order the tool has them. They do not get in each other's way, because the names of points end in
their numbers: they differ among themselves, and the name of the polyline ends in a letter.

Main statements:

- `nodup_names_publishedInputs`: all these names differ;
- `addPublishedPolyline_eq`: what is published is added in one row;
- `polyline_refers_to_points`: the polyline lists its points in order, each is found under its name,
  and other inputs are left alone.
-/

namespace SceneScript

namespace Tool

/-! ## Names of points -/

theorem pointName_injective (name : String) : Function.Injective (pointName name) :=
  fun _ _ h => Number.natText_injective ((String.append_right_inj name).1 h)

theorem pointName_ne_polyline (name : String) (i : Nat) : pointName name i ≠ "Polyline" :=
  Number.append_natText_ne (by decide) name i

/-- The names of the first `count` points. -/
def pointNames (name : String) (count : Nat) : List String :=
  (List.range count).map (pointName name)

theorem nodup_pointNames (name : String) (count : Nat) : (pointNames name count).Nodup :=
  List.nodup_range.map (pointName_injective name)

theorem polyline_not_mem_pointNames (name : String) (count : Nat) :
    "Polyline" ∉ pointNames name count := by
  intro hmem
  obtain ⟨i, -, hi⟩ := List.mem_map.1 hmem
  exact pointName_ne_polyline name i hi

theorem pointNames_eq (name : String) (points : List (Number × Number)) :
    pointNames name points.length = points.zipIdx.map fun e => pointName name e.2 := by
  rw [pointNames, List.range_eq_range', ← List.zipIdx_map_snd, List.map_map]
  rfl

/-! ## The inputs that are published -/

/-- The entry of a point in its polyline. -/
def pointEntry (name : String) : Table := .record "" [("PublishID", .text name)]

/-- The table of a polyline whose points have the given names. -/
def polyline (names : List String) : Table :=
  { TableOf.record "Polyline" [("Points", .sequence ((names.map pointEntry).map .table))] with
    forceIndent := true }

/-- The inputs of the points, from the first one. -/
def pointInputs (name : String) (points : List (Number × Number)) : List Input :=
  points.zipIdx.map fun e => .ofValue (pointName name e.2) (.point e.1)

/-- The polyline, and behind it its points. -/
def publishedInputs (name : String) (points : List (Number × Number)) : List Input :=
  .ofValue "Polyline" (.table (polyline (pointNames name points.length))) ::
    pointInputs name points

theorem names_pointInputs (name : String) (points : List (Number × Number)) :
    (pointInputs name points).map nameOf = pointNames name points.length := by
  rw [pointInputs, List.map_map, pointNames_eq]
  rfl

theorem values_pointInputs (name : String) (points : List (Number × Number)) :
    (pointInputs name points).map Input.value = points.map .point := by
  rw [pointInputs, List.map_map]
  conv_rhs => rw [← List.zipIdx_map_fst 0 points, List.map_map]
  rfl

theorem names_publishedInputs (name : String) (points : List (Number × Number)) :
    (publishedInputs name points).map nameOf = "Polyline" :: pointNames name points.length :=
  congrArg ("Polyline" :: ·) (names_pointInputs name points)

theorem nodup_names_publishedInputs (name : String) (points : List (Number × Number)) :
    ((publishedInputs name points).map nameOf).Nodup := by
  rw [names_publishedInputs, List.nodup_cons]
  exact ⟨polyline_not_mem_pointNames name _, nodup_pointNames name _⟩

/-! ## The tool that publishes them -/

theorem addInputs_eq (t : Tool) (is : List Input) :
    t.addInputs is = { t with inputs := t.inputs.putAll is } := by
  induction is generalizing t with
  | nil => rfl
  | cons i rest ih => exact ih (t.addInput i)

/-- What is published is added in one row. -/
theorem addPublishedPolyline_eq (t : Tool) (points : List (Number × Number)) (name : String) :
    t.addPublishedPolyline points name =
      { t with inputs := t.inputs.putAll (publishedInputs name points) } := by
  rw [← addInputs_eq, addPublishedPolyline, publishedInputs, pointNames_eq, polyline, List.map_map,
    List.map_map]
  rfl

theorem input?_addPublishedPolyline (t : Tool) {points : List (Number × Number)} {name : String}
    {i : Input} (hi : i ∈ publishedInputs name points) :
    (t.addPublishedPolyline points name).input? (nameOf i) = some i := by
  rw [addPublishedPolyline_eq]
  exact t.inputs.find?_putAll_of_mem (nodup_names_publishedInputs name points) hi

/-- Under the names of points, in their order, there are the points. -/
theorem values_input?_pointNames (t : Tool) (points : List (Number × Number)) (name : String) :
    (pointNames name points.length).map
        (fun id => ((t.addPublishedPolyline points name).input? id).map Input.value) =
      points.map fun p => some (.tuple [.number p.1, .number p.2]) := by
  have hvalues : ∀ i ∈ pointInputs name points,
      ((t.addPublishedPolyline points name).input? (nameOf i)).map Input.value = some i.value := by
    intro i hi
    rw [t.input?_addPublishedPolyline (List.mem_cons_of_mem _ hi)]
    rfl
  calc
    _ = (pointInputs name points).map fun i =>
        ((t.addPublishedPolyline points name).input? (nameOf i)).map Input.value := by
      rw [← names_pointInputs, List.map_map]
      rfl
    _ = (pointInputs name points).map fun i => some i.value := List.map_congr_left hvalues
    _ = ((pointInputs name points).map Input.value).map some := List.map_map.symm
    _ = points.map fun p => some (.tuple [.number p.1, .number p.2]) := by
      rw [values_pointInputs, List.map_map]
      rfl

/-- **A published polyline refers to its own points.** Whatever inputs a tool has, the names of
points, which are the given name and a number from zero on, differ and are not that of the polyline.
The value of the polyline lists these names, one table for each and in order; under each of them
there is an input whose value is the pair of the point's coordinates. Inputs of other names are as
they were and in their order, names that are new are behind, and nothing else of the tool has
changed. -/
theorem polyline_refers_to_points (t : Tool) (points : List (Number × Number)) (name : String) :
    let published := t.addPublishedPolyline points name
    let names := (List.range points.length).map fun i => name ++ toString i
    names.Nodup ∧ "Polyline" ∉ names ∧
      (∃ (line : Table) (entries : List Table),
        (published.input? "Polyline").map Input.value = some (.table line) ∧
        line.find? (.name "Points") = some (.sequence (entries.map .table)) ∧
        entries.map (·.find? (.name "PublishID")) = names.map fun id => some (.text id)) ∧
      names.map (fun id => (published.input? id).map Input.value) =
        points.map (fun p => some (.tuple [.number p.1, .number p.2])) ∧
      published.inputs.items.filter (fun i => i.name ∉ "Polyline" :: names) =
        t.inputs.items.filter (fun i => i.name ∉ "Polyline" :: names) ∧
      published.inputs.names = (t.inputs.names ++ "Polyline" :: names).eraseDups ∧
      published = { t with inputs := published.inputs } := by
  intro published names
  have hnames : names = pointNames name points.length := rfl
  have hpublished : published.inputs = t.inputs.putAll (publishedInputs name points) :=
    congrArg inputs (t.addPublishedPolyline_eq points name)
  rw [hnames]
  refine ⟨nodup_pointNames name _, polyline_not_mem_pointNames name _, ?_,
    t.values_input?_pointNames points name, ?_, ?_, ?_⟩
  · refine ⟨polyline names, names.map pointEntry, ?_, rfl, List.map_map⟩
    have hmem : Input.ofValue "Polyline" (.table (polyline names)) ∈ publishedInputs name points :=
      List.mem_cons_self
    rw [show published.input? "Polyline" = _ from t.input?_addPublishedPolyline hmem]
    rfl
  · rw [hpublished]
    refine t.inputs.filter_putAll
      (p := fun s => decide (s ∉ "Polyline" :: pointNames name points.length)) fun i hi => ?_
    have hmem : nameOf i ∈ "Polyline" :: pointNames name points.length :=
      names_publishedInputs name points ▸ List.mem_map_of_mem hi
    exact decide_eq_false (not_not_intro hmem)
  · rw [hpublished, Registry.names_putAll, names_publishedInputs]
  · rw [hpublished]
    exact t.addPublishedPolyline_eq points name

/-- A mask that has published two points before, the second of which has been connected since. -/
def publishedBefore : Tool :=
  let mask : Tool := { id := "PolylineMask", name := "Mask" }
  ((mask.addPublishedPolyline [(8, 8), (9, 9)] "P").setInput "SoftEdge" (.number 3)).connect
    "P1" "Tracker" "Value"

theorem polyline_refers_to_points_publishedBefore :
    let points : List (Number × Number) :=
      [(1, 2), (.float (.ofQuotient 1 2), 3), (.integer (-4), 0)]
    let published := publishedBefore.addPublishedPolyline points "P"
    published.inputs.names = ["Polyline", "P0", "P1", "SoftEdge", "P2"] ∧
      (∃ (line : Table) (entries : List Table),
        (published.input? "Polyline").map Input.value = some (.table line) ∧
        line.find? (.name "Points") = some (.sequence (entries.map .table)) ∧
        entries.map (·.find? (.name "PublishID")) =
          [some (.text "P0"), some (.text "P1"), some (.text "P2")]) ∧
      ["P0", "P1", "P2"].map (fun id => (published.input? id).map Input.value) =
        [some (.tuple [.number 1, .number 2]),
          some (.tuple [.number (.float (.ofQuotient 1 2)), .number 3]),
          some (.tuple [.number (.integer (-4)), .number 0])] ∧
      published.input? "SoftEdge" = some (.ofValue "SoftEdge" (.number 3)) := by
  intro points published
  obtain ⟨-, -, hline, hvalues, -, hnames, -⟩ :=
    polyline_refers_to_points publishedBefore points "P"
  exact ⟨hnames, hline, hvalues, rfl⟩

end Tool

end SceneScript
