import SceneScript.Composition.Basic
import SceneScript.Proofs.InsertionOrder
import SceneScript.Proofs.MacroCommands
import SceneScript.Proofs.NumberText

/-!
# The outputs of a macro

The outputs that are exposed are numbered from one, and the first goes without its number. So no
name is used twice, and in the table of a macro there is an entry for each output. While nothing is
exposed, the last tool stands in with its output, under the name that the first one would have; what
others connect to is called the same before and after.

The invariant counts the commands that have succeeded: outputs are only added, and tools are only
replaced by others of their names, so whatever an output or an input stands for stays there.

Main statements:

- `outputName_injective`: outputs of different numbers have different names;
- `Recounts.performAll`: tools and outputs are those of the commands that have succeeded;
- `outputs_numbered`: the outputs of a macro after a session, and what it shows of them.
-/

namespace SceneScript

namespace Macro

/-! ## Names of outputs -/

theorem outputName_injective : Function.Injective outputName := by
  intro n n' h
  have hplain (n : Nat) : "Output" ++ Number.natText n ≠ "Output" :=
    Number.append_natText_ne (by decide) "Output" n
  unfold outputName at h
  -- the plain name is apart from all numbered ones, and these are apart by their numbers
  split at h <;> split at h
  · omega
  · exact absurd h.symm (hplain _)
  · exact absurd h (hplain _)
  · have hnumber : n + 1 = n' + 1 := Number.natText_injective ((String.append_right_inj _).1 h)
    omega

/-- The names of the first `count` outputs. -/
def outputNames (count : Nat) : List String := (List.range count).map outputName

theorem nodup_outputNames (count : Nat) : (outputNames count).Nodup :=
  List.nodup_range.map outputName_injective

theorem outputNames_succ (count : Nat) :
    outputNames (count + 1) = outputNames count ++ [outputName count] := by
  rw [outputNames, List.range_succ, List.map_append]
  rfl

/-! ## One command -/

variable {m : Macro} {command : Command} {commands : List Command}

/-- A command that succeeds exposes the output of a tool that is there, or none. -/
theorem declaring_cases (h : command.edit.Succeeds m) :
    (∃ t, m.tools.find? t.name = some t ∧ command.outputs = [t.name] ∧
      m.declaring command = m.declared ++ [⟨outputName m.declared.length, t.name, t.output⟩]) ∨
    command.outputs = [] ∧ m.declaring command = m.declared := by
  cases command with
  | exposeOutput tool =>
    obtain ⟨t, ht⟩ := Option.isSome_iff_exists.1 (succeeds_iff.1 h tool rfl)
    obtain rfl : t.name = tool := Registry.nameOf_of_find? ht
    refine .inl ⟨t, ht, rfl, ?_⟩
    rw [declaring, ht]
    rfl
  | _ => exact .inr ⟨rfl, rfl⟩

theorem contains_tools_perform {name : String} (hname : m.tools.contains name = true)
    (h : command.edit.Succeeds m) : (m.perform command).tools.contains name = true := by
  rw [perform_of_succeeds h, Registry.contains_putAll, hname, Bool.or_true]

/-! ## The invariant -/

/-- Whether the tools and outputs of a macro are those that commands have added, and no output or
input stands for one of a tool that is not there. -/
structure Recounts (m : Macro) (commands : List Command) : Prop where
  tools : m.tools.names = ((commands.flatMap Command.tools).map nameOf).eraseDups
  sources : m.declared.map (·.sourceOp) = commands.flatMap Command.outputs
  names : m.declared.map (·.name) = outputNames m.declared.length
  outputs : ∀ o ∈ m.declared, m.tools.contains o.sourceOp = true
  inputs : ∀ i ∈ m.inputs.items, m.tools.contains i.sourceOp = true

theorem Recounts.perform (h : m.Recounts commands) (hsucceeds : command.edit.Succeeds m) :
    (m.perform command).Recounts (commands ++ [command]) := by
  have hdeclared : (m.perform command).declared = m.declaring command := by
    rw [perform_of_succeeds hsucceeds]
  constructor
  case tools =>
    rw [perform_of_succeeds hsucceeds, Registry.names_putAll_of_eraseDups h.tools,
      List.flatMap_append, List.map_append, List.flatMap_singleton]
  case sources =>
    rw [hdeclared, List.flatMap_append, List.flatMap_singleton, ← h.sources]
    rcases declaring_cases hsucceeds with ⟨t, -, houtputs, hdeclaring⟩ | ⟨houtputs, hdeclaring⟩
    · rw [houtputs, hdeclaring, List.map_append]
      rfl
    · rw [houtputs, hdeclaring, List.append_nil]
  case names =>
    rw [hdeclared]
    rcases declaring_cases hsucceeds with ⟨t, -, -, hdeclaring⟩ | ⟨-, hdeclaring⟩
    · rw [hdeclaring, List.map_append, h.names, List.length_append, List.length_singleton,
        outputNames_succ]
      rfl
    · rw [hdeclaring]
      exact h.names
  case outputs =>
    rw [hdeclared]
    -- tools are only added or replaced, so those of earlier outputs are still there
    have hbefore : ∀ o ∈ m.declared, (m.perform command).tools.contains o.sourceOp = true :=
      fun o ho => contains_tools_perform (h.outputs o ho) hsucceeds
    rcases declaring_cases hsucceeds with ⟨t, ht, -, hdeclaring⟩ | ⟨-, hdeclaring⟩
    · have hcontains : m.tools.contains t.name = true := Option.isSome_iff_exists.2 ⟨t, ht⟩
      rw [hdeclaring, List.forall_mem_append]
      exact ⟨hbefore, List.forall_mem_singleton.2 (contains_tools_perform hcontains hsucceeds)⟩
    · rw [hdeclaring]
      exact hbefore
  case inputs =>
    intro i hi
    refine contains_tools_perform ?_ hsucceeds
    rcases mem_inputs_perform hsucceeds hi with hi | hi | ⟨i', hi', hconfigures⟩
    · exact h.inputs i hi
    · exact succeeds_iff.1 hsucceeds _ (Command.needs_of_mem_inputs hi).1
    · -- settings do not touch the tool
      cases hconfigures <;> exact h.inputs i' hi'

theorem Recounts.performAll (h : m.Recounts commands) (session : List Command) :
    (m.performAll session).Recounts (commands ++ m.succeeded session) :=
  succeeded_induction (P := Recounts) (fun _ _ _ h hsucceeds => h.perform hsucceeds) session h

theorem recounts_new {m : Macro} (htools : m.tools = ∅) (hinputs : m.inputs = ∅)
    (hdeclared : m.declared = []) : m.Recounts [] where
  tools := by rw [htools]; rfl
  sources := by rw [hdeclared]; rfl
  names := by rw [hdeclared]; rfl
  outputs := by rw [hdeclared]; exact nofun
  inputs := by rw [hinputs]; exact nofun

/-! ## The outputs of a macro -/

theorem outputs_of_ne_nil (h : m.declared ≠ []) : m.outputs = m.declared := by
  rw [outputs, List.isEmpty_eq_false_iff.2 h]
  rfl

/-- As long as nothing is exposed there is the output of the last tool. -/
theorem outputs_of_nil (h : m.declared = []) {last : String}
    (hlast : m.tools.names.getLast? = some last) :
    ∃ t, m.tools.find? last = some t ∧ m.outputs = [⟨"Output", last, t.output⟩] := by
  rw [Registry.names, List.getLast?_map] at hlast
  obtain ⟨t, ht, rfl⟩ := Option.map_eq_some_iff.1 hlast
  refine ⟨t, Registry.mem_items_iff.1 (List.mem_of_getLast? ht), ?_⟩
  rw [outputs, h, ht]
  rfl

/-- The names of outputs, with that of the output that stands in for them. -/
theorem names_outputs (h : m.declared.map (·.name) = outputNames m.declared.length) :
    m.outputs.map (·.name) = outputNames m.outputs.length := by
  by_cases hnil : m.declared = []
  · rw [outputs, hnil]
    cases m.tools.items.getLast? <;> rfl
  · rw [outputs_of_ne_nil hnil, h]

theorem output_of_names (h : m.outputs.map (·.name) = outputNames m.outputs.length) :
    m.output = "Output" := by
  rw [output, ← List.head?_map, h, outputNames, List.head?_map, List.head?_range]
  split <;> rfl

/-- **Outputs of a macro are neither lost nor misnamed.** In a session that starts with a new macro
the outputs are those that commands have exposed with success, in their order and one for each, also
if the same tool is exposed again. The first is called by the plain name and others by their number
in addition, so names differ, and the macro shows an entry for each output in order. What outputs and
inputs stand for are tools that are there. If nothing is exposed, the only output is that of the tool
whose name was the last to be added first. Whatever happened, the output that others connect to has
the plain name. -/
theorem outputs_numbered (name : String) (position : Number × Number) (tileColor : Option Color)
    (options : Options) (session : List Command) :
    let new : Macro := { name, position, tileColor }
    let m := new.performAll session
    let commands := new.succeeded session
    let exposed := commands.flatMap Command.outputs
    let added := ((commands.flatMap Command.tools).map nameOf).eraseDups
    m.declared.map (·.sourceOp) = exposed ∧
      m.declared.map (·.name) = (List.range exposed.length).map (fun i =>
        if i = 0 then "Output" else "Output" ++ Number.natText (i + 1)) ∧
      (m.outputs.map (·.name)).Nodup ∧
      (∃ outputs, (m.table options).table? (.name "Outputs") = some outputs ∧
        outputs.entries.toList = m.outputs.map fun o => (.name o.name, .table o.table)) ∧
      (exposed ≠ [] → m.outputs = m.declared) ∧
      (exposed = [] → ∀ last, added.getLast? = some last →
        ∃ t, m.tools.find? last = some t ∧ m.outputs = [⟨"Output", last, t.output⟩]) ∧
      (∀ o ∈ m.declared, m.tools.contains o.sourceOp = true) ∧
      (∀ i ∈ m.inputs.items, m.tools.contains i.sourceOp = true) ∧
      m.output = "Output" ∧ (Operator.group m).output = "Output" := by
  intro new m commands exposed added
  have hrecounts : m.Recounts commands :=
    (recounts_new (m := new) rfl rfl rfl).performAll session
  have hnames := names_outputs hrecounts.names
  have hnodup : (m.outputs.map (·.name)).Nodup := hnames ▸ nodup_outputNames _
  have houtput : m.output = "Output" := output_of_names hnames
  have hsources : m.declared.map (·.sourceOp) = exposed := hrecounts.sources
  have hlength : m.declared.length = exposed.length := by
    rw [← hsources, List.length_map]
  have hnil : exposed = [] ↔ m.declared = [] := by
    rw [← hsources, List.map_eq_nil_iff]
  refine ⟨hsources, ?_, hnodup, ?_, ?_, ?_, hrecounts.outputs, hrecounts.inputs, houtput,
    houtput⟩
  · rw [← hlength]
    exact hrecounts.names
  · exact ⟨m.outputTable, rfl, Entries.toList_ofList (Entries.keysApart_names_iff.2 hnodup)⟩
  · exact fun h => outputs_of_ne_nil (mt hnil.2 h)
  · intro h last hlast
    exact outputs_of_nil (hnil.1 h) (hrecounts.tools ▸ hlast)

/-- A session that exposes one output twice and another one, replaces a tool, and fails once. -/
def exposedTwice : List Command :=
  [.addTool { id := "Background", name := "Back" }, .addTool { id := "Blur", name := "Soft" },
    .exposeOutput "Soft", .exposeOutput "Gone", .exposeInput "Back" "Depth", .exposeOutput "Back",
    .addTool { id := "Glow", name := "Back" }, .exposeOutput "Soft"]

theorem outputs_numbered_exposedTwice :
    let m := performAll { name := "Group" } exposedTwice
    let before := performAll { name := "Group" } (exposedTwice.take 2)
    m.outputs = m.declared ∧ m.declared.map (·.name) = ["Output", "Output2", "Output3"] ∧
      ∃ t, before.tools.find? "Soft" = some t ∧ before.outputs = [⟨"Output", "Soft", t.output⟩] := by
  intro m before
  obtain ⟨-, hnames, -, -, hexposed, -⟩ :=
    outputs_numbered "Group" (0, 0) none {} exposedTwice
  obtain ⟨-, -, -, -, -, hplain, -⟩ :=
    outputs_numbered "Group" (0, 0) none {} (exposedTwice.take 2)
  exact ⟨hexposed (by decide), hnames, hplain (by decide) "Soft" (by decide)⟩

end Macro

end SceneScript
