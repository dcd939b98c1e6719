import SceneScript.Macro.Command
import SceneScript.Proofs.FailedEdits

/-!
# What the commands of a macro do

A command of a macro fails exactly if it looks for a tool that is not there. One that succeeds adds
to the tools, to the exposed inputs and to the outputs, and may edit an input in place.

Main statements:

- `succeeds_iff`: which commands succeed;
- `perform_of_succeeds`, `perform_of_not_succeeds`: the macro after a command;
- `mem_inputs_perform`: where its exposed inputs come from;
- `succeeded_induction`: what holds of a new macro and is kept by commands that succeed holds after
  every session, of the commands that have succeeded.
-/

namespace SceneScript

namespace Macro

/-! ## What a command adds -/

namespace Command

/-- The tool that a command looks for. -/
def needs : Command → Option String
  | .exposeInput tool _ | .exposeColor tool _ _ _ _ | .exposeOutput tool => some tool
  | _ => none

/-- The tools that a command adds. -/
def tools : Command → List Tool
  | .addTool t => [t]
  | _ => []

/-- The inputs that a command exposes, with what it sets on them. -/
def inputs : Command → List InstanceInput
  | .exposeInput tool input => [.fresh tool input]
  | .exposeColor tool group before behind properties =>
    channelInputs tool group before behind properties
  | _ => []

/-- An input that a command exposes is one of the tool that it looks for. -/
theorem needs_of_mem_inputs {command : Command} {i : InstanceInput} (hi : i ∈ command.inputs) :
    command.needs = some i.sourceOp ∧ i.name = i.sourceOp ++ i.source := by
  cases command with
  | exposeInput tool input =>
    obtain rfl := List.mem_singleton.1 hi
    exact ⟨rfl, rfl⟩
  | exposeColor tool group before behind properties =>
    obtain ⟨e, -, rfl⟩ := List.mem_map.1 hi
    obtain ⟨hsourceOp, hsource⟩ := Prod.mk.inj
      (origin_setChannel group properties e.2 (.fresh tool (before ++ e.1 ++ behind)))
    rw [name_setChannel, hsourceOp, hsource]
    exact ⟨rfl, rfl⟩
  | _ => cases hi

/-- The tools whose outputs a command exposes. -/
def outputs : Command → List String
  | .exposeOutput tool => [tool]
  | _ => []

/-- The inputs after a command that edits one of them in place. -/
def configured : Command → Registry InstanceInput → Registry InstanceInput
  | .setDefault name value, inputs => inputs.modify name (·.setDefault value)
  | .setProperty name property value, inputs => inputs.modify name (·.setProperty property value)
  | _, inputs => inputs

end Command

/-- The outputs that are exposed after a command. -/
def declaring (m : Macro) : Command → List InstanceOutput
  | .exposeOutput tool => m.declared ++ (m.tools.find? tool).toList.map fun t =>
    ⟨outputName m.declared.length, tool, t.output⟩
  | _ => m.declared

/-! ## One command -/

/-- A command that finds its tool succeeds. It adds what it adds and then edits an input if it
does. -/
theorem run_edit_of_contains {command : Command} {m : Macro}
    (h : ∀ tool ∈ command.needs, m.tools.contains tool = true) :
    command.edit.run m = ⟨.ok (), { m with
      tools := m.tools.putAll command.tools
      inputs := command.configured (m.inputs.putAll command.inputs)
      declared := m.declaring command }, []⟩ := by
  cases command with
  | addTool t => rfl
  | exposeInput tool input => exact Edit.run_bind_ok (run_exposeInput_of_contains input (h tool rfl))
  | exposeColor tool group before behind properties =>
    exact run_exposeColor (h tool rfl) group before behind properties
  | exposeOutput tool =>
    obtain ⟨t, ht⟩ := Option.isSome_iff_exists.1 (h tool rfl)
    rw [Command.edit, run_exposeOutput, declaring, ht]
    rfl
  | setDefault name value => rfl
  | setProperty name property value => rfl

/-- A command that does not find its tool fails and leaves the macro as it is. -/
theorem run_edit_of_not_contains {command : Command} {m : Macro} {tool : String}
    (hneeds : command.needs = some tool) (h : m.tools.contains tool = false) :
    command.edit.run m = ⟨.error (.unknownTool tool), m, []⟩ := by
  cases command with
  | exposeInput _ input =>
    cases hneeds
    refine Edit.run_bind_error ?_
    rw [run_exposeInput, h]
    rfl
  | exposeColor _ group before behind properties =>
    cases hneeds
    exact run_exposeColor_of_not_contains h group before behind properties
  | exposeOutput _ =>
    cases hneeds
    rw [Command.edit, run_exposeOutput, Option.not_isSome_iff_eq_none.1 (Bool.eq_false_iff.1 h)]
  | addTool _ | setDefault _ _ | setProperty _ _ _ => cases hneeds

theorem succeeds_iff {command : Command} {m : Macro} :
    command.edit.Succeeds m ↔ ∀ tool ∈ command.needs, m.tools.contains tool = true := by
  constructor
  · rintro ⟨a, ha⟩ tool hneeds
    by_contra hcontains
    rw [run_edit_of_not_contains hneeds (Bool.eq_false_iff.2 hcontains)] at ha
    cases ha
  · intro h
    exact ⟨(), by rw [run_edit_of_contains h]⟩

theorem perform_of_succeeds {command : Command} {m : Macro} (h : command.edit.Succeeds m) :
    m.perform command = { m with
      tools := m.tools.putAll command.tools
      inputs := command.configured (m.inputs.putAll command.inputs)
      declared := m.declaring command } := by
  rw [perform, run_edit_of_contains (succeeds_iff.1 h)]

theorem perform_of_not_succeeds {command : Command} {m : Macro} (h : ¬ command.edit.Succeeds m) :
    m.perform command = m := by
  rw [succeeds_iff] at h
  push Not at h
  obtain ⟨tool, hneeds, hcontains⟩ := h
  rw [perform, run_edit_of_not_contains hneeds (Bool.eq_false_iff.2 hcontains)]

/-- Whether a command makes an exposed input into another. -/
inductive Command.Configures : Command → InstanceInput → InstanceInput → Prop
  | setDefault (i : InstanceInput) (value : Value) :
    Configures (.setDefault i.name value) i (i.setDefault value)
  | setProperty (i : InstanceInput) (property : String) (value : Value) :
    Configures (.setProperty i.name property value) i (i.setProperty property value)

/-- An input that is exposed after a command was exposed before it, or is exposed by it, or is what
it has made of one that was. -/
theorem mem_inputs_perform {command : Command} {m : Macro} (h : command.edit.Succeeds m)
    {i : InstanceInput} (hi : i ∈ (m.perform command).inputs.items) :
    i ∈ m.inputs.items ∨ i ∈ command.inputs ∨
      ∃ i' ∈ m.inputs.items, command.Configures i' i := by
  rw [perform_of_succeeds h] at hi
  cases command with
  | addTool t => exact .inl hi
  | exposeInput tool input => exact (Registry.mem_items_putAll hi).symm.imp_right .inl
  | exposeColor tool group before behind properties =>
    exact (Registry.mem_items_putAll hi).symm.imp_right .inl
  | exposeOutput tool => exact .inl hi
  | setDefault name value =>
    rcases Registry.mem_items_modify hi with hi | ⟨i', hi', rfl, rfl⟩
    · exact .inl hi
    · exact .inr (.inr ⟨i', hi', .setDefault i' value⟩)
  | setProperty name property value =>
    rcases Registry.mem_items_modify hi with hi | ⟨i', hi', rfl, rfl⟩
    · exact .inl hi
    · exact .inr (.inr ⟨i', hi', .setProperty i' property value⟩)

/-! ## A session -/

/-- What is kept by commands that succeed, of them and the macro, is kept by a session. -/
theorem succeeded_induction {P : Macro → List Command → Prop}
    (hstep : ∀ m commands command, P m commands → command.edit.Succeeds m →
      P (m.perform command) (commands ++ [command]))
    (session : List Command) {m : Macro} {commands : List Command} (h : P m commands) :
    P (m.performAll session) (commands ++ m.succeeded session) := by
  induction session generalizing m commands with
  | nil => rwa [succeeded, List.append_nil]
  | cons command rest ih =>
    show P ((m.perform command).performAll rest) _
    by_cases hsucceeds : command.edit.Succeeds m
    · rw [succeeded, if_pos (Edit.isOk_iff_succeeds.2 hsucceeds), List.append_cons]
      exact ih (hstep m commands command h hsucceeds)
    · -- a command that fails counts as not given
      rw [succeeded, if_neg (mt Edit.isOk_iff_succeeds.1 hsucceeds),
        perform_of_not_succeeds hsucceeds]
      exact ih h

end Macro

end SceneScript
