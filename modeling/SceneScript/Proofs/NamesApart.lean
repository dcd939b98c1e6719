import Mathlib.Data.List.Nodup
import Mathlib.Data.List.Pairwise
import SceneScript.Proofs.References

/-!
# Names that meet in a scene

Nodes and modifiers have names of their own kind, and the splines of a path have names that no
registry knows; in the scene they all stand in one table. Where two of them have the same name only
the table written last is left, which is never that of a node. The names of modifiers are put
together from the name of a tool and that of its input, so this can happen to names that look well
chosen.

Main statements:

- `find?_toolTable`: under each name the table written last is found;
- `nodup_tableNames_iff`: all names in a scene differ exactly if no modifier and no spline of a path
  has the name of a node, and no spline of a path that of a modifier;
- `writesAll_iff_namesApart`: exactly then the scene has all tables, and the own table of every
  node.
-/

namespace SceneScript

namespace Modifier

/-- The names of the splines that come with a path. -/
def splineNames : Modifier → List String
  | .path p => [p.x.name, p.y.name]
  | _ => []

/-- The names under which a modifier is written. -/
def tableNames (m : Modifier) : List String := m.name :: m.splineNames

theorem map_fst_tables (m : Modifier) (options : Options) :
    (m.tables options).map Prod.fst = m.tableNames := by
  cases m <;> rfl

theorem length_tableNames (m : Modifier) :
    m.tableNames.length = 1 + 2 * (if m.path?.isSome then 1 else 0) := by
  cases m <;> rfl

/-! ## Names of splines -/

theorem append_x_ne_append_y (s t : String) : s ++ "X" ≠ t ++ "Y" := by
  intro h
  simpa using congrArg String.toList h

theorem name_ne_append {s t : String} (ht : t.length ≠ 0) : s ≠ s ++ t := by
  intro h
  have hlength := congrArg String.length h
  rw [String.length_append] at hlength
  omega

theorem splineNames_of_regular {p : XYPath} (hp : (Modifier.path p).Regular) :
    (Modifier.path p).splineNames = [p.name ++ "X", p.name ++ "Y"] := by
  obtain ⟨hx, hy⟩ := hp
  rw [splineNames, hx, hy]

theorem nodup_tableNames {m : Modifier} (hm : m.Regular) : m.tableNames.Nodup := by
  cases m with
  | tool t => exact List.nodup_singleton _
  | spline s => exact List.nodup_singleton _
  | path p =>
    have hx : p.name ≠ p.name ++ "X" := name_ne_append (by decide)
    have hy : p.name ≠ p.name ++ "Y" := name_ne_append (by decide)
    rw [tableNames, splineNames_of_regular hm]
    simp [Modifier.name, hx, hy]

/-- Splines of two paths have the same name only if the paths have. -/
theorem name_eq_of_mem_splineNames {m m' : Modifier} (hm : m.Regular) (hm' : m'.Regular)
    {name : String} (h : name ∈ m.splineNames) (h' : name ∈ m'.splineNames) : m.name = m'.name := by
  cases m with
  | tool t => cases h
  | spline s => cases h
  | path p =>
    cases m' with
    | tool t => cases h'
    | spline s => cases h'
    | path q =>
      rw [splineNames_of_regular hm, List.mem_cons, List.mem_singleton] at h
      rw [splineNames_of_regular hm', List.mem_cons, List.mem_singleton] at h'
      rcases h with rfl | rfl <;> rcases h' with h | h
      · exact (String.append_left_inj "X").1 h
      · exact absurd h (append_x_ne_append_y _ _)
      · exact absurd h.symm (append_x_ne_append_y _ _)
      · exact (String.append_left_inj "Y").1 h

end Modifier

namespace Composition

variable (c : Composition)

/-- The number of paths. -/
def pathCount : Nat := c.modifiers.items.countP (·.path?.isSome)

/-- The names under which everything is written. -/
def tableNames : List String := c.operators.names ++ c.modifiers.items.flatMap Modifier.tableNames

/-- Whether the scene has one table for each node and modifier and two more for each path, and under
the name of each node its own table. -/
structure WritesAll : Prop where
  size : c.toolTable.size = c.operators.size + c.modifiers.size + 2 * c.pathCount
  own : ∀ o ∈ c.operators.items,
    c.toolTable.find? (.name o.name) = some (.table (o.table c.options))

/-- Whether no modifier and no spline of a path has the name of a node, and no spline of a path that
of a modifier. -/
structure NamesApart : Prop where
  nodes : ∀ m ∈ c.modifiers.items, ∀ name ∈ m.tableNames, c.operators.contains name = false
  splines : ∀ m ∈ c.modifiers.items, ∀ name ∈ m.splineNames, c.modifiers.contains name = false

/-! ## One table for all -/

theorem map_fst_tables : c.tables.map Prod.fst = c.tableNames := by
  unfold tables tableNames
  rw [List.map_append, List.map_map, List.map_flatMap]
  simp only [Modifier.map_fst_tables]
  rfl

theorem length_tableNames :
    c.tableNames.length = c.operators.size + c.modifiers.size + 2 * c.pathCount := by
  have hmodifiers : ∀ l : List Modifier, (l.flatMap Modifier.tableNames).length =
      l.length + 2 * l.countP (·.path?.isSome) := by
    intro l
    induction l with
    | nil => rfl
    | cons m rest ih =>
      rw [List.flatMap_cons, List.length_append, ih, m.length_tableNames, List.countP_cons,
        List.length_cons]
      omega
  rw [tableNames, List.length_append, hmodifiers, Registry.names, List.length_map]
  exact (Nat.add_assoc _ _ _).symm

/-- The entries of the table of all nodes, as they are written. -/
def toolEntries : List (Key × Value) := c.tables.map fun e => (.name e.1, .table e.2)

theorem keysApart_toolEntries : Entries.KeysApart c.toolEntries ↔ c.tableNames.Nodup := by
  rw [← map_fst_tables]
  exact Entries.keysApart_names_iff

/-- Under each name the table written last is found. -/
theorem find?_toolTable (name : String) :
    c.toolTable.find? (.name name) = (c.tables.reverse.lookup name).map Value.table := by
  refine (Entries.find?_ofList c.toolEntries (.name name)).trans ?_
  rw [toolEntries, ← List.map_reverse]
  induction c.tables.reverse with
  | nil => rfl
  | cons e rest ih =>
    rw [List.map_cons, List.lookup_cons, List.lookup_cons, ih, Key.beq_name]
    cases name == e.1 <;> rfl

/-! ## When names differ -/

variable {c}

theorem contains_of_mem {m : Modifier} (hm : m ∈ c.modifiers.items) :
    c.modifiers.contains m.name = true :=
  Registry.mem_names_iff_contains.1 (List.mem_map_of_mem hm)

/-- Two modifiers are written under different names if no spline of a path has the name of a
modifier. -/
theorem disjoint_tableNames (hregular : ∀ m ∈ c.modifiers.items, m.Regular)
    (hsplines : ∀ m ∈ c.modifiers.items, ∀ name ∈ m.splineNames, c.modifiers.contains name = false)
    {m m' : Modifier} (hm : m ∈ c.modifiers.items) (hm' : m' ∈ c.modifiers.items) (hne : m ≠ m') :
    m.tableNames.Disjoint m'.tableNames := by
  have hdiffer : m.name ≠ m'.name := fun h => hne (Registry.eq_of_nameOf_eq hm hm' h)
  intro name h h'
  -- on either side the name is that of the modifier or that of one of its splines
  rcases List.mem_cons.1 h with rfl | h <;> rcases List.mem_cons.1 h' with h' | h'
  · exact hdiffer h'
  · have hnone := hsplines m' hm' _ h'
    rw [contains_of_mem hm] at hnone
    cases hnone
  · have hnone := hsplines m hm _ h
    rw [h', contains_of_mem hm'] at hnone
    cases hnone
  · exact hdiffer (Modifier.name_eq_of_mem_splineNames (hregular m hm) (hregular m' hm') h h')

/-- The names of modifiers and of splines of paths all differ exactly if no spline has the name of a
modifier. -/
theorem nodup_modifierNames_iff (hregular : ∀ m ∈ c.modifiers.items, m.Regular) :
    (c.modifiers.items.flatMap Modifier.tableNames).Nodup ↔
      ∀ m ∈ c.modifiers.items, ∀ name ∈ m.splineNames, c.modifiers.contains name = false := by
  rw [List.nodup_flatMap]
  constructor
  · rintro ⟨hnodup, hpairs⟩ m hm name hname
    by_contra hsome
    obtain ⟨m', hm', rfl⟩ := List.mem_map.1
      (Registry.mem_names_iff_contains.2 (Bool.of_not_eq_false hsome))
    -- the modifier of that name is another one, since no spline has the name of its own path
    have hne : m ≠ m' := by
      rintro rfl
      exact (List.nodup_cons.1 (hnodup m hm)).1 hname
    have : Std.Symm (Function.onFun List.Disjoint Modifier.tableNames) :=
      ⟨fun _ _ h _ hx hy => h hy hx⟩
    exact hpairs.forall hm hm' hne (List.mem_cons_of_mem _ hname) List.mem_cons_self
  · intro hsplines
    refine ⟨fun m hm => Modifier.nodup_tableNames (hregular m hm), ?_⟩
    refine (List.Nodup.of_map _ c.modifiers.nodup).pairwise_of_forall_ne ?_
    intro m hm m' hm' hne
    exact disjoint_tableNames hregular hsplines hm hm' hne

theorem nodup_tableNames_iff (hregular : ∀ m ∈ c.modifiers.items, m.Regular) :
    c.tableNames.Nodup ↔ c.NamesApart := by
  rw [tableNames, List.nodup_append, nodup_modifierNames_iff hregular]
  have hnodes : (∀ a ∈ c.operators.names, ∀ b ∈ c.modifiers.items.flatMap Modifier.tableNames,
      a ≠ b) ↔
        ∀ m ∈ c.modifiers.items, ∀ name ∈ m.tableNames, c.operators.contains name = false := by
    simp only [List.mem_flatMap, Registry.mem_names_iff_contains, ← Bool.not_eq_true]
    constructor
    · intro h m hm name hname hcontains
      exact h name hcontains name ⟨m, hm, hname⟩ rfl
    · rintro h a ha b ⟨m, hm, hb⟩ rfl
      exact h m hm a hb ha
  rw [hnodes]
  constructor
  · rintro ⟨-, hsplines, hnodes⟩
    exact ⟨hnodes, hsplines⟩
  · rintro ⟨hnodes, hsplines⟩
    exact ⟨c.operators.nodup, hsplines, hnodes⟩

/-! ## What the scene has -/

theorem size_toolTable_eq_iff : c.toolTable.size = c.tableNames.length ↔ c.tableNames.Nodup := by
  have hlength : c.tableNames.length = c.toolEntries.length := by
    rw [← map_fst_tables, List.length_map, toolEntries, List.length_map]
  rw [hlength, ← keysApart_toolEntries]
  exact Entries.size_ofList_eq_length_iff c.toolEntries

/-- If all names differ, everything is found under its name. -/
theorem find?_toolTable_of_mem (h : c.tableNames.Nodup) {e : String × Table} (he : e ∈ c.tables) :
    c.toolTable.find? (.name e.1) = some (.table e.2) :=
  Entries.find?_ofList_of_mem ((keysApart_toolEntries c).2 h)
    (e := (.name e.1, .table e.2)) (beq_self_eq_true e.1) (List.mem_map.2 ⟨e, he, rfl⟩)

/-- Nothing is missing in the scene exactly if the names of all that is written are apart. -/
theorem writesAll_iff (hregular : ∀ m ∈ c.modifiers.items, m.Regular) :
    c.WritesAll ↔ c.NamesApart := by
  rw [← nodup_tableNames_iff hregular, ← size_toolTable_eq_iff, length_tableNames]
  constructor
  · intro h
    exact h.size
  · intro hsize
    have hnodup : c.tableNames.Nodup := size_toolTable_eq_iff.1 (by rw [hsize, length_tableNames])
    exact ⟨hsize, fun o ho => find?_toolTable_of_mem hnodup (mem_tables_of_operator ho)⟩

/-- **Tables of a scene.** What a session has made is rendered with one table for all, in which the
table written last stands under each name. None is missing, and every node has its own, exactly if
names are apart. No edit checks that they are. -/
theorem writesAll_iff_namesApart (options : Options) (session : List Command) :
    let c := performAll { options } session
    (c.isEmpty = false → ∃ scene, c.render.value = .ok scene ∧
      scene.find? (.name "Tools") = some (.table c.toolTable)) ∧
    (∀ name, c.toolTable.find? (.name name) = (c.tables.reverse.lookup name).map Value.table) ∧
    (c.WritesAll ↔ c.NamesApart) := by
  intro c
  refine ⟨?_, c.find?_toolTable, writesAll_iff (performAll_regular options session)⟩
  intro h
  refine ⟨.record "" [("Tools", .table c.toolTable), ("ActiveTool", .ofOption .text c.activeTool)],
    ?_, rfl⟩
  unfold render
  rw [h]
  rfl

/-- The spline that drives the input `B` of `A` has the name of the tool `AB`. -/
theorem not_writesAll_splineOverTool :
    ¬ (performAll {} [.addTool { id := "Background", name := "A" },
      .addTool { id := "Blur", name := "AB" }, .animate "A" "B" none]).WritesAll := by
  intro h
  exact absurd h.size (by decide)

end Composition

end SceneScript
