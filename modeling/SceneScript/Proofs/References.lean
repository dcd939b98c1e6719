import SceneScript.Composition.Scene
import SceneScript.Proofs.CompositionEdits
import SceneScript.Proofs.InsertionOrder

/-!
# References of a composition

Inputs of tools refer to nodes and modifiers by name, and so does the active node. Edits write names
that are there at the time, and nothing is ever removed, so what is referred to stays. The two
splines of a path are not modifiers of their own; they are there in the scene because the path
brings them.

Main statements:

- `Linked`: every reference of a composition is to something in it;
- `Linked.step`: each step keeps this, if nodes that are brought along refer to nothing themselves;
- `references_resolve`: so no session leaves a dangling reference, in the composition or in its
  scene.
-/

namespace SceneScript

/-- Whether no input of a node is connected; exposed inputs of a macro stay within the macro. -/
def Operator.Unwired : Operator → Prop
  | .tool t => t.Unwired
  | .group _ => True

instance (o : Operator) : Decidable o.Unwired :=
  match o with
  | .tool t => inferInstanceAs (Decidable t.Unwired)
  | .group _ => inferInstanceAs (Decidable True)

/-! ## References in tables -/

namespace TableOf

/-- What the inputs of a table refer to. -/
def sourceOps (t : TableOf Value) : List String :=
  match t.table? (.name "Inputs") with
  | some inputs => inputs.entries.values.filterMap fun v =>
    v.table?.bind fun input => (input.find? (.name "SourceOp")).bind Value.text?
  | none => []

end TableOf

theorem Input.sourceOp_table (i : Input) :
    (i.table.find? (.name "SourceOp")).bind Value.text? = i.sourceOp := by
  obtain ⟨name, value, expression, sourceOp, source⟩ := i
  cases sourceOp <;> rfl

theorem Tool.sourceOps_table (t : Tool) (options : Options) :
    (t.table options).sourceOps = t.inputs.items.filterMap (·.sourceOp) := by
  have hinputs : (t.table options).table? (.name "Inputs") = some t.inputTable := rfl
  unfold TableOf.sourceOps
  rw [hinputs]
  simp only [inputTable, TableOf.record, Entries.values, List.map_map, List.filterMap_map]
  exact congrArg (List.filterMap · t.inputs.items) (funext Input.sourceOp_table)

theorem Spline.sourceOps_table (s : Spline) : s.table.sourceOps = [] := rfl

theorem XYPath.sourceOps_table (p : XYPath) : p.table.sourceOps = [p.x.name, p.y.name] := rfl

theorem Tool.Unwired.sourceOps_table {t : Tool} (ht : t.Unwired) (options : Options) :
    (t.table options).sourceOps = [] := by
  rw [Tool.sourceOps_table, List.filterMap_eq_nil_iff]
  exact ht

theorem Modifier.exists_table (m : Modifier) (options : Options) :
    ∃ t, (m.name, t) ∈ m.tables options := by
  cases m <;> exact ⟨_, List.mem_cons_self⟩

namespace Composition

/-! ## The table of all nodes -/

variable {c c' : Composition}

theorem contains_toolTable (c : Composition) (name : String) :
    c.toolTable.contains (.name name) = c.tables.any (name == ·.1) := by
  refine (Entries.contains_ofList _ _).trans ?_
  rw [List.any_map]
  rfl

theorem contains_toolTable_of_mem {e : String × Table} (h : e ∈ c.tables) :
    c.toolTable.contains (.name e.1) = true := by
  rw [contains_toolTable, List.any_eq_true]
  exact ⟨e, h, beq_self_eq_true e.1⟩

theorem exists_of_mem_toolTable {e : Key × Value} (h : e ∈ c.toolTable.entries.toList) :
    ∃ e' ∈ c.tables, e.2 = .table e'.2 := by
  obtain ⟨e', he', hvalue⟩ := Entries.exists_of_mem_ofList h
  obtain ⟨e'', he'', rfl⟩ := List.mem_map.1 he'
  exact ⟨e'', he'', hvalue.symm⟩

theorem mem_tables_of_operator {o : Operator} (ho : o ∈ c.operators.items) :
    (o.name, o.table c.options) ∈ c.tables :=
  List.mem_append_left _ (List.mem_map.2 ⟨o, ho, rfl⟩)

theorem mem_tables_of_modifier {m : Modifier} (hm : m ∈ c.modifiers.items) {e : String × Table}
    (he : e ∈ m.tables c.options) : e ∈ c.tables :=
  List.mem_append_right _ (List.mem_flatMap.2 ⟨m, hm, he⟩)

/-- Whatever has a name in the composition has it in the scene. -/
theorem contains_toolTable_of_contains {name : String} (h : c.contains name = true) :
    c.toolTable.contains (.name name) = true := by
  rcases Bool.or_eq_true_iff.1 h with ho | hm
  · obtain ⟨o, hmem, rfl⟩ := List.mem_map.1 (Registry.mem_names_iff_contains.2 ho)
    exact contains_toolTable_of_mem (mem_tables_of_operator hmem)
  · obtain ⟨m, hmem, rfl⟩ := List.mem_map.1 (Registry.mem_names_iff_contains.2 hm)
    obtain ⟨t, ht⟩ := m.exists_table c.options
    exact contains_toolTable_of_mem (mem_tables_of_modifier hmem ht)

/-! ## The invariant -/

/-- Every reference of a composition is to something in it, and what was added last is known unless
nothing was added. -/
structure Linked (c : Composition) : Prop where
  inputs : ∀ t, .tool t ∈ c.operators.items → c.Feeds t
  active : ∀ name, c.active = some name → c.operators.contains name = true
  lastAdded : ∀ name, c.lastAdded = some name → c.operators.contains name = true
  added : c.lastAdded = none → c.operators.items = []
  driven : c.operators.items = [] → c.modifiers.items = []

theorem linked_empty (options : Options) : Linked { options } where
  inputs t ht := by cases ht
  active name h := by cases h
  lastAdded name h := by cases h
  added _ := rfl
  driven _ := rfl

theorem contains_add (o : Operator) (name : String) :
    (c.add o).contains name = (decide (name = o.name) || c.contains name) :=
  (congrArg (· || c.modifiers.contains name) (c.operators.contains_put o name)).trans
    (Bool.or_assoc _ _ _)

theorem contains_putModifier (m : Modifier) (name : String) :
    (c.putModifier m).contains name = (decide (name = m.name) || c.contains name) := by
  simp only [contains, putModifier, Registry.contains_put, Bool.or_left_comm]
  rfl

theorem Feeds.mono {t : Tool} (h : ∀ name, c.contains name = true → c'.contains name = true)
    (ht : c.Feeds t) : c'.Feeds t :=
  fun i hi s hs => h s (ht i hi s hs)

theorem contains_put_of_contains {r : Registry Operator} (o : Operator) {name : String}
    (h : r.contains name = true) : (r.put o).contains name = true := by
  rw [Registry.contains_put, h, Bool.or_true]

theorem items_ne_nil_of_contains {r : Registry Operator} {name : String}
    (h : r.contains name = true) : r.items ≠ [] := by
  intro hnil
  have hmem := Registry.mem_names_iff_contains.2 h
  rw [Registry.names, hnil] at hmem
  cases hmem

/-- A tool that is found is among the nodes. -/
theorem mem_of_tool? {name : String} {t : Tool} (h : c.tool? name = some t) :
    .tool t ∈ c.operators.items ∧ c.operators.contains t.name = true := by
  have hmem : .tool t ∈ c.operators.items := List.mem_of_find?_eq_some (c.tool?_eq_some_iff.1 h)
  exact ⟨hmem, Registry.mem_names_iff_contains.1 (List.mem_map_of_mem hmem)⟩

namespace Linked

/-- What the inputs of tools refer to stays when a node is put, and so it is for the node itself. -/
theorem inputs_put (hc : Linked c) {o : Operator} (ho : ∀ t, o = .tool t → c.Feeds t) :
    ∀ t, .tool t ∈ (c.operators.put o).items → (c.add o).Feeds t := by
  have hmono : ∀ name, c.contains name = true → (c.add o).contains name = true := by
    intro name h
    rw [contains_add, h, Bool.or_true]
  intro t ht
  rcases Registry.mem_items_put ht with htool | ht
  · exact (ho t htool.symm).mono hmono
  · exact (hc.inputs t ht).mono hmono

/-- A node may be added if it refers to what is there. -/
theorem add (hc : Linked c) {o : Operator} (ho : ∀ t, o = .tool t → c.Feeds t) :
    Linked (c.add o) := by
  have hself : (c.operators.put o).contains o.name = true :=
    (c.operators.contains_put o o.name).trans (by simp [nameOf])
  refine ⟨hc.inputs_put ho, fun name h => contains_put_of_contains o (hc.active name h), ?_, ?_, ?_⟩
  · rintro name ⟨⟩
    exact hself
  · intro h
    cases h
  · intro h
    exact absurd h (items_ne_nil_of_contains hself)

theorem activate (hc : Linked c) {name : String} (h : c.operators.contains name = true) :
    Linked { c with active := some name } := by
  refine ⟨hc.inputs, ?_, hc.lastAdded, hc.added, hc.driven⟩
  rintro _ ⟨⟩
  exact h

/-- A tool may be changed if it still refers to what is there. -/
theorem putTool (hc : Linked c) {t : Tool} (hname : c.operators.contains t.name = true)
    (ht : c.Feeds t) : Linked (c.putTool t) := by
  have hnodes : ∀ name, c.operators.contains name = true →
      (c.putTool t).operators.contains name = true :=
    fun _ h => contains_put_of_contains (.tool t) h
  refine ⟨hc.inputs_put ?_, fun name h => hnodes name (hc.active name h),
    fun name h => hnodes name (hc.lastAdded name h), ?_, ?_⟩
  · rintro _ ⟨⟩
    exact ht
  · intro h
    exact absurd (hc.added h) (items_ne_nil_of_contains hname)
  · intro h
    exact absurd h (items_ne_nil_of_contains (hnodes t.name hname))

/-- Anything may be put to drive inputs once there is a node. -/
theorem putModifier (hc : Linked c) (hne : c.operators.items ≠ []) (m : Modifier) :
    Linked (c.putModifier m) := by
  have hmono : ∀ name, c.contains name = true → (c.putModifier m).contains name = true := by
    intro name h
    rw [contains_putModifier, h, Bool.or_true]
  exact ⟨fun t ht => (hc.inputs t ht).mono hmono, hc.active, hc.lastAdded, hc.added,
    fun h => absurd h hne⟩

/-- **Every step keeps references intact.** What drives an input might as well be put before the
input is connected to it, so each part of the step finds what it refers to. -/
theorem step (hc : Linked c) (h : Step Operator.Unwired c c') : Linked c' := by
  cases h with
  | add ho =>
    refine hc.add ?_
    rintro t rfl i hi s hs
    rw [ho i hi] at hs
    cases hs
  | merge ht =>
    refine hc.add ?_
    rintro _ ⟨⟩
    exact ht
  | activate h => exact hc.activate h
  | connect ht input output hs =>
    obtain ⟨hmem, hname⟩ := mem_of_tool? ht
    exact hc.putTool hname ((hc.inputs _ hmem).connect hs input output)
  | @drive _ t ht input m hm =>
    obtain ⟨hmem, hname⟩ := mem_of_tool? ht
    -- nodes and modifiers are put in different registries, so the order of the two does not matter
    have hput : Linked (c.putModifier m) := hc.putModifier (items_ne_nil_of_contains hname) m
    have hself : (c.putModifier m).contains m.name = true := by
      rw [contains_putModifier, decide_eq_true rfl, Bool.true_or]
    exact hput.putTool hname ((hput.inputs t hmem).connect hself input "Value")
  | change hm h =>
    refine hc.putModifier ?_ _
    intro hnil
    rw [hc.driven hnil] at hm
    cases hm

/-- The active node is one of the composition. -/
theorem contains_activeTool (hc : Linked c) {name : String} (h : c.activeTool = some name) :
    c.operators.contains name = true := by
  unfold activeTool at h
  cases hactive : c.active with
  | some other =>
    rw [hactive] at h
    cases h
    exact hc.active name hactive
  | none =>
    rw [hactive] at h
    exact hc.lastAdded name h

/-- Nothing is active exactly in an empty composition. -/
theorem isEmpty_iff (hc : Linked c) : c.isEmpty = true ↔ c.activeTool = none := by
  have hitems : c.isEmpty = true ↔ c.operators.items = [] ∧ c.modifiers.items = [] := by
    simp [isEmpty, size, Registry.size]
  constructor
  · intro h
    cases hname : c.activeTool with
    | none => rfl
    | some name =>
      exact absurd (hitems.1 h).1 (items_ne_nil_of_contains (hc.contains_activeTool hname))
  · intro h
    have hadded : c.lastAdded = none := (Option.or_eq_none_iff.1 h).2
    exact hitems.2 ⟨hc.added hadded, hc.driven (hc.added hadded)⟩

end Linked

/-! ## The scene -/

/-- What a scene refers to is in it: the inputs of its tools and of everything that drives them, and
the active node. The exposed inputs of a macro refer to the tools in the macro. -/
structure SceneResolves (c : Composition) (tools : Table) (activeTool : String) : Prop where
  tool : ∀ t, .tool t ∈ c.operators.items → ∀ s ∈ (t.table c.options).sourceOps,
    tools.contains (.name s) = true
  modifier : ∀ m ∈ c.modifiers.items, ∀ e ∈ m.tables c.options, ∀ s ∈ e.2.sourceOps,
    tools.contains (.name s) = true
  entry : ∀ e ∈ tools.entries.toList,
    (∃ m, .group m ∈ c.operators.items ∧ e.2 = .table (m.table c.options)) ∨
      ∃ t, e.2 = .table t ∧ ∀ s ∈ t.sourceOps, tools.contains (.name s) = true
  active : tools.contains (.name activeTool) = true

/-- No reference dangles: what the inputs of tools refer to is in the composition, and so is the
active node unless there is nothing at all; and if there is something it has a scene, in which all
this is so again. -/
structure Resolves (c : Composition) : Prop where
  inputs : ∀ t, .tool t ∈ c.operators.items → ∀ i ∈ t.inputs.items, ∀ s, i.sourceOp = some s →
    c.contains s = true
  isEmpty_iff_activeTool : c.isEmpty = true ↔ c.activeTool = none
  isEmpty_iff_render : c.isEmpty = true ↔ c.render.value = .error .emptyComposition
  scene : c.isEmpty = false → ∃ scene tools name, c.render.value = .ok scene ∧
    scene.find? (.name "Tools") = some (.table tools) ∧
    scene.find? (.name "ActiveTool") = some (.text name) ∧
    c.activeTool = some name ∧ c.operators.contains name = true ∧ c.SceneResolves tools name

/-- The only references of a modifier are those of a path to its two splines, which come with it. -/
theorem contains_toolTable_of_modifier {m : Modifier} (hm : m ∈ c.modifiers.items)
    (hregular : m.Regular) {e : String × Table} (he : e ∈ m.tables c.options) {s : String}
    (hs : s ∈ e.2.sourceOps) : c.toolTable.contains (.name s) = true := by
  cases m with
  | tool t =>
    obtain rfl := List.mem_singleton.1 he
    rw [Tool.Unwired.sourceOps_table hregular] at hs
    cases hs
  | spline sp =>
    obtain rfl := List.mem_singleton.1 he
    rw [Spline.sourceOps_table] at hs
    cases hs
  | path p =>
    have hx : (p.x.name, p.x.table) ∈ c.tables :=
      mem_tables_of_modifier hm (List.mem_cons_of_mem _ List.mem_cons_self)
    have hy : (p.y.name, p.y.table) ∈ c.tables :=
      mem_tables_of_modifier hm (List.mem_cons_of_mem _ (List.mem_cons_of_mem _ List.mem_cons_self))
    rw [Modifier.tables, List.mem_cons, List.mem_cons, List.mem_singleton] at he
    rcases he with rfl | rfl | rfl
    · rw [XYPath.sourceOps_table, List.mem_cons, List.mem_singleton] at hs
      rcases hs with rfl | rfl
      · exact contains_toolTable_of_mem hx
      · exact contains_toolTable_of_mem hy
    · cases hs
    · cases hs

theorem Linked.sceneResolves (hc : Linked c) (hregular : ∀ m ∈ c.modifiers.items, m.Regular)
    {name : String} (hname : c.operators.contains name = true) :
    c.SceneResolves c.toolTable name := by
  have htool : ∀ t, .tool t ∈ c.operators.items → ∀ s ∈ (t.table c.options).sourceOps,
      c.toolTable.contains (.name s) = true := by
    intro t ht s hs
    rw [Tool.sourceOps_table] at hs
    obtain ⟨i, hi, hsource⟩ := List.mem_filterMap.1 hs
    exact contains_toolTable_of_contains (hc.inputs t ht i hi s hsource)
  have hmodifier : ∀ m ∈ c.modifiers.items, ∀ e ∈ m.tables c.options, ∀ s ∈ e.2.sourceOps,
      c.toolTable.contains (.name s) = true :=
    fun m hm e he s hs => contains_toolTable_of_modifier hm (hregular m hm) he hs
  refine ⟨htool, hmodifier, ?_,
    contains_toolTable_of_contains (by rw [contains, hname, Bool.true_or])⟩
  intro e he
  obtain ⟨written, hwritten, hvalue⟩ := exists_of_mem_toolTable he
  rcases List.mem_append.1 hwritten with hnode | hdriving
  · obtain ⟨o, ho, rfl⟩ := List.mem_map.1 hnode
    cases o with
    | tool t => exact .inr ⟨_, hvalue, htool t ho⟩
    | group m => exact .inl ⟨m, ho, hvalue⟩
  · obtain ⟨m, hm, hmem⟩ := List.mem_flatMap.1 hdriving
    exact .inr ⟨_, hvalue, hmodifier m hm written hmem⟩

/-- A composition whose references are intact has a scene whose references are. -/
theorem Linked.resolves (hc : Linked c) (hregular : ∀ m ∈ c.modifiers.items, m.Regular) :
    c.Resolves where
  inputs := hc.inputs
  isEmpty_iff_activeTool := hc.isEmpty_iff
  isEmpty_iff_render := by
    unfold render
    cases c.isEmpty <;> simp
  scene h := by
    have hactive : c.activeTool ≠ none := by
      rw [ne_eq, ← hc.isEmpty_iff, h]
      exact Bool.false_ne_true
    obtain ⟨name, hname⟩ := Option.ne_none_iff_exists'.1 hactive
    have hnode : c.operators.contains name = true := hc.contains_activeTool hname
    refine ⟨.record "" [("Tools", .table c.toolTable), ("ActiveTool", .text name)], c.toolTable,
      name, ?_, rfl, rfl, hname, hnode, hc.sceneResolves hregular hnode⟩
    unfold render
    rw [h, hname]
    rfl

/-- **No session leaves a dangling reference**, whatever is done in whatever order and whatever of
it fails, if the tools that are brought along are not connected to anything yet. -/
theorem references_resolve (options : Options) (session : List Command)
    (h : ∀ command ∈ session, ∀ o ∈ command.brought, o.Unwired) :
    (performAll { options } session).Resolves := by
  have hlinked : Linked (performAll { options } session) :=
    performAll_induction (fun _ _ hstep hc => hc.step hstep) h (linked_empty options)
  exact hlinked.resolves (performAll_regular options session)

/-- A session of which two commands fail. -/
theorem references_resolve_animatedMerge :
    let session : List Command := [
      .addTool { id := "Background", name := "Back" }, .addTool { id := "Blur", name := "Soft" },
      .addMerge "Over" (some "Back") (some "Soft") (1, 0),
      .addMerge "Over" (some "Gone") none (1, 0), .animatePosition "Over" "Center" none none,
      .publish "Soft" "Size" (.number 3), .connectPublished "PublishSoftSize" "Back" "Depth",
      .setActive "Gone"]
    (∀ command ∈ session, ∀ o ∈ command.brought, o.Unwired) ∧
      (performAll {} session).isEmpty = false ∧ (performAll {} session).Resolves :=
  ⟨by decide, rfl, references_resolve {} _ (by decide)⟩

end Composition

end SceneScript
