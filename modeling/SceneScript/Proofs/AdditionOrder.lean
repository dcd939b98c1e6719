import SceneScript.Proofs.NamesApart
import SceneScript.Proofs.StandingNodes

/-!
# The order of a scene

A scene is written in the order in which its names were first used, nodes before modifiers, and the
splines of a path right behind it. Adding a node again, or animating an input again, replaces what
has the name where it stands, so the order is that of the commands that succeeded, each name counted
where it comes first. Neither the kinds of commands nor how they are mixed matter.

The invariant is on the two registries apart: the names of each are those that the commands so far
have used for it, without repetitions. One command uses one name for each at most, which is added
behind the others unless it is there. What stands at the place of a node is another matter, since it
is decided by the last command that adds one of its name (`SceneScript.Proofs.StandingNodes`).

Main statements:

- `names_perform`: the names after one command;
- `Recalls.performAll`: the names after a session;
- `keys_render`: the keys of a scene, and what it has under those of nodes.
-/

namespace SceneScript

namespace Command

/-- The name of the node that there is when a command has succeeded. -/
def introduces : Command → Option String
  | .addTool t => some t.name
  | .addMacro m => some m.name
  | .addMerge name _ _ _ => some name
  | .animateTool t _ _ => some t.name
  | _ => none

end Command

namespace Composition

open Edit (isOk_iff_succeeds state_ignore succeeds_of_ignore)

variable {c c' : Composition}

/-! ## One command -/

/-- Whether the names after a command are those before it and the ones that it uses. -/
structure NamesAfter (command : Command) (c c' : Composition) : Prop where
  nodes : c'.operators.names = withName c.operators.names command.introduces
  modifiers : c'.modifiers.names = withName c.modifiers.names command.puts

theorem WiresOnly.operator_names {w : Wire} {made : Option String} (h : WiresOnly w made c c') :
    c'.operators.names = c.operators.names := by
  obtain ⟨t, t', before, behind, -, -, hrewired, hitems, hitems'⟩ := h.tool
  have hname : (Operator.tool t').name = (Operator.tool t).name := hrewired.name
  rw [Registry.names, Registry.names, hitems, hitems', List.map_append, List.map_append]
  exact congrArg (_ ++ · :: _) hname

theorem WiresOnly.modifier_names {w : Wire} {made : Option String} (h : WiresOnly w made c c') :
    c'.modifiers.names = withName c.modifiers.names made := by
  cases made with
  | none => exact congrArg Registry.names h.modifiers
  | some name =>
    obtain ⟨m, rfl, hplaced⟩ := h.modifiers
    exact Registry.names_of_placed hplaced

theorem WiresOnly.namesAfter {w : Wire} {command : Command}
    (h : WiresOnly w command.puts c c') (hnode : command.introduces = none) :
    NamesAfter command c c' where
  nodes := by
    rw [hnode]
    exact h.operator_names
  modifiers := h.modifier_names

/-- A wire uses the name of the modifier that it comes from, if it makes one. -/
theorem namesAfter_of_wire? {command : Command} {w : Wire} (hw : command.wire? = some w)
    (hnode : command.introduces = none) (h : command.edit.Succeeds c) :
    NamesAfter command c (c.perform command) :=
  (draws_perform hw h).wiresOnly.namesAfter hnode

theorem namesAfter_addMerge {name : String} {background foreground : Option String}
    {position : Number × Number}
    (h : (addMerge name background foreground position).Succeeds c) :
    NamesAfter (.addMerge name background foreground position) c
      ((addMerge name background foreground position).run c).state := by
  rw [state_addMerge h]
  refine ⟨(c.operators.names_put _).trans ?_, rfl⟩
  exact congrArg (fun n => withName _ (some n)) (c.name_mergeTool _ _ _ _)

/-- Whether the tool is there already makes no difference to the names. -/
theorem namesAfter_animateTool {t : Tool} {input : String} {curve : Option Curve}
    (h : (animateTool t input curve).Succeeds c) :
    NamesAfter (.animateTool t input curve) c ((animateTool t input curve).run c).state := by
  have hwires := (draws_run_animateTool h).wiresOnly
  refine ⟨hwires.operator_names.trans ?_, ?_⟩
  · show _ = withName c.operators.names (some t.name)
    cases ht : c.operators.contains t.name with
    | true => exact (withName_of_mem (Registry.mem_names_iff_contains.2 ht)).symm
    | false => exact c.operators.names_put (.tool t)
  · rw [hwires.modifier_names]
    split <;> rfl

/-- A change of what drives inputs keeps its name. -/
theorem namesAfter_change {command : Command} {m m' : Modifier} (hm : m ∈ c.modifiers.items)
    (hname : m'.name = m.name) (hnode : command.introduces = none) (hputs : command.puts = none) :
    NamesAfter command c (c.putModifier m') where
  nodes := by rw [hnode]; rfl
  modifiers := by
    have hmem : m.name ∈ c.modifiers.names := List.mem_map_of_mem hm
    rw [← hname] at hmem
    rw [hputs]
    exact (c.modifiers.names_put m').trans (withName_of_mem hmem)

theorem namesAfter_refl {command : Command} (hnode : command.introduces = none)
    (hputs : command.puts = none) : NamesAfter command c c where
  nodes := by rw [hnode]; rfl
  modifiers := by rw [hputs]; rfl

theorem namesAfter_changeSpline (c : Composition) (name : String) (change : Spline.Change) :
    NamesAfter (.changeSpline name change) c
      ((modifySpline name (·.change change)).run c).state := by
  rcases c.modifySpline_cases name change with hsame | ⟨s, hs, hput⟩
  · rw [hsame]
    exact namesAfter_refl rfl rfl
  · rw [hput]
    exact namesAfter_change hs (s.name_change change) rfl rfl

theorem namesAfter_changePath (c : Composition) (name : String) (change : XYPath.Change) :
    NamesAfter (.changePath name change) c ((modifyPath name (·.change change)).run c).state := by
  rcases c.modifyPath_cases name change with hsame | ⟨p, hp, hput⟩
  · rw [hsame]
    exact namesAfter_refl rfl rfl
  · rw [hput]
    exact namesAfter_change hp (congrArg Prod.fst (p.names_change change)) rfl rfl

/-- **The names after one command** that succeeds are those before it, and behind them the ones that
the command uses and that are new. -/
theorem names_perform {command : Command} (h : command.edit.Succeeds c) :
    NamesAfter command c (c.perform command) := by
  cases command with
  | addTool t => exact ⟨c.operators.names_put (.tool t), rfl⟩
  | addMacro m => exact ⟨c.operators.names_put (.group m), rfl⟩
  | addMerge name background foreground position => exact namesAfter_addMerge h
  | setActive name =>
    rw [perform, Command.edit, run_setActive]
    split <;> exact ⟨rfl, rfl⟩
  | animateTool t input curve =>
    rw [perform, Command.edit, state_ignore]
    exact namesAfter_animateTool (succeeds_of_ignore h)
  | animatePath tool input method xCurve yCurve =>
    cases method with
    | path => obtain ⟨a, ⟨⟩⟩ := h
    | xyPath => exact namesAfter_of_wire? rfl rfl h
  | connect | connectPublished | animate | animatePosition | publish =>
    exact namesAfter_of_wire? rfl rfl h
  | changeSpline name change => exact c.namesAfter_changeSpline name change
  | changePath name change => exact c.namesAfter_changePath name change

/-! ## A session -/

/-- The commands of a session that succeed, in their order. -/
def succeeded (c : Composition) : List Command → List Command
  | [] => []
  | command :: rest =>
    if (command.edit.run c).result.isOk then command :: (c.perform command).succeeded rest
    else (c.perform command).succeeded rest

/-- Whether the names are those that commands have used, each where it was used first. -/
structure Recalls (c : Composition) (commands : List Command) : Prop where
  nodes : c.operators.names = (commands.filterMap Command.introduces).eraseDups
  modifiers : c.modifiers.names = (commands.filterMap Command.puts).eraseDups

theorem Recalls.perform {commands : List Command} (h : c.Recalls commands) {command : Command}
    (hsucceeds : command.edit.Succeeds c) :
    (c.perform command).Recalls (commands ++ [command]) := by
  have hafter := names_perform hsucceeds
  constructor
  · rw [hafter.nodes, h.nodes, eraseDups_filterMap_concat]
  · rw [hafter.modifiers, h.modifiers, eraseDups_filterMap_concat]

/-- **The names after a session** are those that its successful commands have used. -/
theorem Recalls.performAll {commands : List Command} (h : c.Recalls commands)
    (session : List Command) :
    (c.performAll session).Recalls (commands ++ c.succeeded session) := by
  induction session generalizing c commands with
  | nil => rwa [succeeded, List.append_nil]
  | cons command rest ih =>
    show ((c.perform command).performAll rest).Recalls _
    by_cases hsucceeds : command.edit.Succeeds c
    · rw [succeeded, if_pos (isOk_iff_succeeds.2 hsucceeds), List.append_cons]
      exact ih (h.perform hsucceeds)
    · rw [succeeded, if_neg (mt isOk_iff_succeeds.1 hsucceeds)]
      rw [perform_of_not_succeeds hsucceeds]
      exact ih h

/-! ## The scene -/

/-- The names under which a modifier is written, by its own. -/
def writtenNames (c : Composition) (name : String) : List String :=
  if (c.path? name).isSome then [name, name ++ "X", name ++ "Y"] else [name]

theorem writtenNames_eq {m : Modifier} (hm : m ∈ c.modifiers.items) (hregular : m.Regular) :
    c.writtenNames m.name = m.tableNames := by
  have hfind : c.path? m.name = m.path? :=
    congrArg (Option.bind · Modifier.path?) (Registry.mem_items_iff.1 hm)
  unfold writtenNames
  rw [hfind]
  cases m with
  | tool t => rfl
  | spline s => rfl
  | path p => exact congrArg (p.name :: ·) (Modifier.splineNames_of_regular hregular).symm

/-- All names of a scene, from those of its nodes and modifiers. -/
theorem tableNames_eq (hregular : ∀ m ∈ c.modifiers.items, m.Regular) :
    c.tableNames = c.operators.names ++ c.modifiers.names.flatMap c.writtenNames := by
  rw [tableNames, Registry.names, Registry.names, List.flatMap_map]
  exact congrArg _ (List.flatMap_congr fun m hm => (writtenNames_eq hm (hregular m hm)).symm)

theorem keys_toolTable (h : c.tableNames.Nodup) :
    c.toolTable.entries.keys = c.tableNames.map Key.name := by
  have hkeys : c.toolTable.entries.toList = c.toolEntries :=
    Entries.toList_ofList ((keysApart_toolEntries c).2 h)
  rw [Entries.keys, hkeys, toolEntries, ← map_fst_tables, List.map_map, List.map_map]
  rfl

/-- If all names differ, a node is found under its name in the scene, too. -/
theorem find?_toolTable_of_find? (h : c.tableNames.Nodup) {name : String} {o : Operator}
    (ho : c.operators.find? name = some o) :
    c.toolTable.find? (.name name) = some (.table (o.table c.options)) := by
  obtain rfl : o.name = name := Registry.nameOf_of_find? ho
  exact find?_toolTable_of_mem h (mem_tables_of_operator (List.mem_of_find?_eq_some ho))

theorem isEmpty_iff_tableNames : c.isEmpty = true ↔ c.tableNames = [] := by
  have hpaths : c.pathCount ≤ c.modifiers.size := List.countP_le_length
  rw [← List.length_eq_zero_iff, length_tableNames, isEmpty, size, beq_iff_eq]
  omega

/-- **The order of a scene is the order of first use.** In a session that starts from nothing, let
the names of nodes be those that its successful commands have added, and the names of modifiers
those that they have made, each where it came first. If all names of nodes, modifiers and splines of
paths differ in the end, the entries of the scene are under the names of nodes and then under those
of modifiers, in this order, with the two splines of each path right behind it, and they are written
as they are stored. There is no scene if nothing was added. -/
theorem keys_render (options : Options) (session : List Command) :
    let c := performAll { options } session
    let commands := succeeded { options } session
    let names := (commands.filterMap Command.introduces).eraseDups ++
      (commands.filterMap Command.puts).eraseDups.flatMap c.writtenNames
    c.tableNames.Nodup →
      (names = [] → c.render.value = .error .emptyComposition) ∧
      (names ≠ [] → ∃ scene tools, c.render.value = .ok scene ∧
        scene.find? (.name "Tools") = some (.table tools) ∧ tools.ordered = false ∧
        tools.entries.keys = names.map Key.name ∧
        ∀ name ∈ commands.filterMap Command.introduces, ∃ o,
          NodeChange.standing name (nodeChanges { options } session) = some o ∧
            tools.find? (.name name) = some (.table (o.table options))) := by
  intro c commands names hnodup
  have hfresh : Recalls { options } [] := ⟨rfl, rfl⟩
  have hrecalls : c.Recalls commands := hfresh.performAll session
  have hnames : c.tableNames = names := by
    rw [tableNames_eq (performAll_regular options session), hrecalls.nodes, hrecalls.modifiers]
  rw [← hnames]
  constructor
  · intro h
    rw [render, isEmpty_iff_tableNames.2 h]
    rfl
  · intro h
    have hempty : c.isEmpty = false := Bool.eq_false_iff.2 (mt isEmpty_iff_tableNames.1 h)
    refine ⟨.record "" [("Tools", .table c.toolTable),
      ("ActiveTool", .ofOption .text c.activeTool)], c.toolTable, ?_, rfl, rfl,
      keys_toolTable hnodup, fun name hname => ?_⟩
    · rw [render, hempty]
      rfl
    · have hmem : name ∈ c.operators.names := hrecalls.nodes ▸ List.mem_eraseDups.2 hname
      obtain ⟨o, ho⟩ := Option.isSome_iff_exists.1 (Registry.mem_names_iff_contains.1 hmem)
      refine ⟨o, (find?_performAll options session name).symm.trans ho, ?_⟩
      rw [← options_performAll options session]
      exact find?_toolTable_of_find? hnodup ho

/-- A session in which nodes are added again and an input is animated again; two commands fail. -/
def repeatedAdditions : List Command :=
  [.addTool { id := "Background", name := "Back" }, .addMacro { name := "Group" },
    .animatePosition "Gone" "Center" none none, .addTool { id := "Blur", name := "Soft" },
    .animatePosition "Soft" "Center" none none, .animate "Back" "Depth" none,
    .addMerge "Over" (some "Back") (some "Gone") (0, 0), .publish "Soft" "Size" (.number 3),
    .addTool { id := "Glow", name := "Back" }, .animatePosition "Soft" "Center" none none,
    .animateTool { id := "Text", name := "Title" } "Size" none,
    .addMerge "Over" (some "Back") (some "Soft") (1, 0)]

theorem keys_render_repeatedAdditions :
    let c := performAll {} repeatedAdditions
    c.tableNames.Nodup ∧ ∃ scene tools, c.render.value = .ok scene ∧
      scene.find? (.name "Tools") = some (.table tools) ∧ tools.ordered = false ∧
      tools.entries.keys = ["Back", "Group", "Soft", "Title", "Over", "SoftCenterXYPath",
        "SoftCenterXYPathX", "SoftCenterXYPathY", "BackDepth", "PublishSoftSize",
        "TitleSize"].map Key.name ∧
      tools.find? (.name "Back") =
        some (.table ({ id := "Glow", name := "Back" : Tool }.table {})) := by
  intro c
  have hnodup : c.tableNames.Nodup := by decide
  obtain ⟨scene, tools, hrender, htools, hordered, hkeys, hstanding⟩ :=
    (keys_render {} repeatedAdditions hnodup).2 (by decide)
  obtain ⟨o, ho, hback⟩ := hstanding "Back" (by decide)
  -- the wire to the first node of the name went with it
  obtain rfl : Operator.tool { id := "Glow", name := "Back" } = o := Option.some.inj ho
  exact ⟨hnodup, scene, tools, hrender, htools, hordered, hkeys, hback⟩

end Composition

end SceneScript
