import SceneScript.Proofs.CompositionEdits
import SceneScript.Proofs.Registration

/-!
# Failed edits leave no trace

An edit keeps its state through a failure, so an edit that changes something and fails afterwards
would leave a change half made. None does. For a composition this is `Command.run_cases`: every
look-up that can fail comes before the first change, and the look-up at the end of an animation
finds what was put there. For a macro it is about the four channels of a color, which are exposed
one after the other: if the tool is there for the first it is there for all, since exposing does not
touch the tools.

Main statements:

- `Composition.succeeds_animate_iff`, `succeeds_publish_iff`, `succeeds_animateTool_iff`: which
  edits succeed;
- `Edit.run_forM_of_modify`: edits that change the state under an invariant, and keep it, do so in a
  row;
- `Macro.run_exposeColor`: the channels of a color are registered in one row;
- `failed_edits_change_nothing`: an edit that fails leaves everything as it was; animating an input
  fails exactly if there is no tool of the name, and animating a tool that may be missing exactly if
  its name is that of a macro.
-/

namespace SceneScript

namespace Edit

variable {σ α : Type}

/-- Whether a failure leaves the state as it was, from whatever state the edit starts. -/
def Atomic (x : Edit σ α) : Prop := ∀ s e, (x.run s).result = .error e → (x.run s).state = s

theorem FailsOrSteps.atomic {P : Operator → Prop} {x : Edit Composition α}
    (h : ∀ c, x.FailsOrSteps P c) : x.Atomic := by
  intro c e he
  rcases h c with ⟨e', es, hfail⟩ | ⟨a, c', es, hok, -⟩
  · rw [hfail]
  · rw [hok] at he
    cases he

/-- Whether an edit ends with an answer. -/
def Succeeds (x : Edit σ α) (s : σ) : Prop := ∃ a, (x.run s).result = .ok a

theorem isOk_iff_succeeds {x : Edit σ α} {s : σ} :
    (x.run s).result.isOk = true ↔ x.Succeeds s := by
  unfold Succeeds
  cases (x.run s).result <;> simp [Except.isOk, Except.toBool]

/-- Whoever does not wait for an answer leaves the same state. -/
theorem state_ignore (x : Edit σ α) (s : σ) :
    ((do let _ ← x : Edit σ Unit).run s).state = (x.run s).state := by
  rw [run_bind]
  cases (x.run s).result <;> rfl

/-- Whoever does not wait for an answer succeeds only with the edit itself. -/
theorem succeeds_of_ignore {x : Edit σ α} {s : σ} (h : (do let _ ← x : Edit σ Unit).Succeeds s) :
    x.Succeeds s := by
  obtain ⟨⟨⟩, h⟩ := h
  rw [run_bind] at h
  cases hx : (x.run s).result with
  | ok a => exact ⟨a, hx⟩
  | error e =>
    rw [hx] at h
    cases h

/-- Edits that come to a change of the state each, as long as an invariant holds, come to all these
changes in a row. -/
theorem run_forM_of_modify (Inv : σ → Prop) {f : α → Edit σ Unit} {g : α → σ → σ}
    (h : ∀ a s, Inv s → (f a).run s = ⟨.ok (), g a s, []⟩ ∧ Inv (g a s)) (l : List α) {s : σ}
    (hs : Inv s) : (l.forM f).run s = ⟨.ok (), l.foldl (fun s a => g a s) s, []⟩ := by
  induction l generalizing s with
  | nil => rfl
  | cons a rest ih =>
    obtain ⟨hfirst, hnext⟩ := h a s hs
    exact (run_bind_ok hfirst).trans (by rw [ih hnext]; rfl)

end Edit

/-! ## Macros -/

namespace InstanceInput

/-- An input of a tool that has just been exposed. -/
def fresh (tool input : String) : InstanceInput := ⟨tool ++ input, tool, input, none, ∅⟩

/-- The tool and its input that an exposed input stands for. -/
def origin (i : InstanceInput) : String × String := (i.sourceOp, i.source)

end InstanceInput

namespace Macro

theorem run_exposeInput (tool input : String) (m : Macro) :
    (exposeInput tool input).run m =
      if m.tools.contains tool then
        ⟨.ok (tool ++ input),
          { m with inputs := m.inputs.put ⟨tool ++ input, tool, input, none, ∅⟩ }, []⟩
      else ⟨.error (.unknownTool tool), m, []⟩ := by
  unfold exposeInput
  cases h : m.tools.contains tool <;> simp [Edit.run_bind, h]

theorem run_exposeOutput (tool : String) (m : Macro) :
    (exposeOutput tool).run m =
      match m.tools.find? tool with
      | some t => ⟨.ok (), { m with
          declared := m.declared ++ [⟨outputName m.declared.length, tool, t.output⟩] }, []⟩
      | none => ⟨.error (.unknownTool tool), m, []⟩ := by
  unfold exposeOutput
  cases h : m.tools.find? tool <;> simp [Edit.run_bind, Edit.orFail, h]

/-- What exposing a color sets on a channel: the first one carries its name. -/
def setChannel (group : Int64) (properties : Table) (i : Nat) (input : InstanceInput) :
    InstanceInput :=
  let named := if i = 0 then input.setProperty "Name" (.text "Color") else input
  let grouped := named.setProperty "ControlGroup" (.int group)
  { grouped with properties := grouped.properties.insertMany properties.entries.toList }

/-- The exposed channels of a color. -/
def channelInputs (tool : String) (group : Int64) (before behind : String) (properties : Table) :
    List InstanceInput :=
  channels.zipIdx.map fun e =>
    setChannel group properties e.2 (.fresh tool (before ++ e.1 ++ behind))

theorem name_setChannel (group : Int64) (properties : Table) (i : Nat) (input : InstanceInput) :
    (setChannel group properties i input).name = input.name := by
  unfold setChannel
  split <;> rfl

theorem origin_setChannel (group : Int64) (properties : Table) (i : Nat) (input : InstanceInput) :
    (setChannel group properties i input).origin = input.origin := by
  unfold setChannel
  split <;> rfl

/-- The macro with inputs exposed. -/
def exposing (m : Macro) (is : List InstanceInput) : Macro :=
  { m with inputs := m.inputs.putAll is }

theorem run_exposeInput_of_contains {tool : String} (input : String) {m : Macro}
    (h : m.tools.contains tool = true) :
    (exposeInput tool input).run m =
      ⟨.ok (tool ++ input), m.exposing [.fresh tool input], []⟩ := by
  rw [run_exposeInput, h]
  rfl

theorem foldl_exposing {α : Type} (f : α → InstanceInput) (l : List α) (m : Macro) :
    l.foldl (fun m a => m.exposing [f a]) m = m.exposing (l.map f) := by
  induction l generalizing m with
  | nil => rfl
  | cons a rest ih => exact ih (m.exposing [f a])

/-- An exposed input that gets its settings at once might have been exposed with them. -/
theorem run_exposeInput_bind_configure {tool : String} (input : String) {m : Macro}
    (h : m.tools.contains tool = true) {f : InstanceInput → InstanceInput}
    (hf : ∀ i, (f i).name = i.name) :
    (exposeInput tool input >>= fun name => configure name f).run m =
      ⟨.ok (), m.exposing [f (.fresh tool input)], []⟩ := by
  have hput : (m.inputs.put (.fresh tool input)).modify (tool ++ input) f =
      m.inputs.put (f (.fresh tool input)) :=
    m.inputs.modify_put_self (a := .fresh tool input) (hf _)
  refine (Edit.run_bind_ok (run_exposeInput_of_contains input h)).trans ?_
  exact congrArg (fun inputs => Outcome.mk (.ok ()) { m with inputs } []) hput

/-- The channels of a color are registered in one row. -/
theorem run_exposeColor {tool : String} {m : Macro} (h : m.tools.contains tool = true)
    (group : Int64) (before behind : String) (properties : Table) :
    (exposeColor tool group before behind properties).run m =
      ⟨.ok (), m.exposing (channelInputs tool group before behind properties), []⟩ := by
  rw [channelInputs, ← foldl_exposing]
  unfold exposeColor
  refine Edit.run_forM_of_modify (fun m : Macro => m.tools.contains tool = true) ?_ _ h
  rintro ⟨channel, i⟩ m hm
  -- exposing leaves the tools alone, so the tool is there for the next channel
  exact ⟨run_exposeInput_bind_configure _ hm (name_setChannel group properties i), hm⟩

/-- Of the four channels the first is the one that fails, before anything is exposed. -/
theorem run_exposeColor_of_not_contains {tool : String} {m : Macro}
    (h : m.tools.contains tool = false) (group : Int64) (before behind : String)
    (properties : Table) :
    (exposeColor tool group before behind properties).run m =
      ⟨.error (.unknownTool tool), m, []⟩ := by
  refine Edit.run_bind_error (Edit.run_bind_error ?_)
  rw [run_exposeInput, h]
  rfl

theorem atomic_exposeInput (tool input : String) : (exposeInput tool input).Atomic := by
  intro m e he
  rw [run_exposeInput] at he ⊢
  cases h : m.tools.contains tool with
  | false => rfl
  | true =>
    rw [h] at he
    cases he

theorem atomic_exposeOutput (tool : String) : (exposeOutput tool).Atomic := by
  intro m e he
  rw [run_exposeOutput] at he ⊢
  cases h : m.tools.find? tool with
  | none => rfl
  | some t =>
    rw [h] at he
    cases he

/-- Exposing a color fails at its first channel or not at all. -/
theorem atomic_exposeColor (tool : String) (group : Int64) (before behind : String)
    (properties : Table) : (exposeColor tool group before behind properties).Atomic := by
  intro m e he
  cases h : m.tools.contains tool with
  | false => rw [run_exposeColor_of_not_contains h]
  | true =>
    rw [run_exposeColor h] at he
    cases he

end Macro

/-! ## Which edits succeed -/

namespace Composition

/-- Whether there is a tool of the name, not a macro. -/
def IsTool (c : Composition) (name : String) : Prop := ∃ t, c.tool? name = some t

/-- Whether there is a macro of the name. -/
def IsMacro (c : Composition) (name : String) : Prop := ∃ m, c.group? name = some m

/-- The values that can be published. -/
inductive Publishable : Value → Prop
  | number (n : Number) : Publishable (.number n)
  | text (s : String) : Publishable (.text s)
  | tuple (items : List Value) : Publishable (.tuple items)
  | fuId (s : String) : Publishable (.fuId s)

theorem publishable_iff {v : Value} : Publishable v ↔ ∃ id, publisher? v = some id := by
  constructor
  · rintro ⟨⟩ <;> exact ⟨_, rfl⟩
  · rintro ⟨id, hid⟩
    cases v with
    | number n => exact .number n
    | text s => exact .text s
    | tuple items => exact .tuple items
    | fuId s => exact .fuId s
    | _ => cases hid

variable (c : Composition)

/-- A name is that of a tool, or that of a macro, or not that of a node. -/
theorem node_cases (name : String) :
    c.IsTool name ∧ ¬ c.IsMacro name ∨ ¬ c.IsTool name ∧ c.IsMacro name ∨
      ¬ c.IsTool name ∧ ¬ c.IsMacro name ∧ c.operators.contains name = false := by
  unfold IsTool IsMacro tool? group? Registry.contains
  cases c.operators.find? name with
  | none => simp
  | some o => cases o <;> simp [Operator.tool?, Operator.group?]

theorem succeeds_animate_iff (tool input : String) (curve : Option Curve) :
    (animate tool input curve).Succeeds c ↔ c.IsTool tool := by
  unfold Edit.Succeeds IsTool
  rw [run_animate]
  cases c.tool? tool <;> simp

theorem succeeds_animatePath_iff (tool input : String) (method : PathMethod)
    (xCurve yCurve : Option Curve) :
    (animatePath tool input method xCurve yCurve).Succeeds c ↔
      method = .xyPath ∧ c.IsTool tool := by
  unfold Edit.Succeeds IsTool
  cases method with
  | path => simp [run_animatePath_path]
  | xyPath =>
    rw [run_animatePath_xyPath]
    cases c.tool? tool <;> simp

theorem succeeds_publish_iff (tool input : String) (value : Value) :
    (publish tool input value).Succeeds c ↔ Publishable value ∧ c.IsTool tool := by
  rw [publishable_iff]
  unfold Edit.Succeeds IsTool
  rw [run_publish]
  cases publisher? value <;> cases c.tool? tool <;> simp

/-- Only a macro is in the way of a tool that is to be animated. -/
theorem succeeds_animateTool_iff (t : Tool) (input : String) (curve : Option Curve) :
    (animateTool t input curve).Succeeds c ↔ ¬ c.IsMacro t.name := by
  cases h : c.operators.contains t.name with
  | true =>
    unfold Edit.Succeeds
    rw [run_animateTool_of_contains c h]
    refine (c.succeeds_animate_iff t.name input curve).trans ?_
    rcases c.node_cases t.name with ⟨htool, hmacro⟩ | ⟨htool, hmacro⟩ | ⟨-, -, hnone⟩
    · exact iff_of_true htool hmacro
    · exact iff_of_false htool (not_not_intro hmacro)
    · rw [h] at hnone
      cases hnone
  | false =>
    refine iff_of_true ⟨_, by rw [run_animateTool_of_not_contains c h]⟩ ?_
    rintro ⟨m, hm⟩
    obtain ⟨o, ho, -⟩ := Option.bind_eq_some_iff.1 hm
    rw [Registry.contains, ho] at h
    cases h

/-- A merge that succeeds adds its tool. -/
theorem state_addMerge {c : Composition} {name : String} {background foreground : Option String}
    {position : Number × Number} (h : (addMerge name background foreground position).Succeeds c) :
    ((addMerge name background foreground position).run c).state =
      c.add (.tool (c.mergeTool name background foreground position)) := by
  obtain ⟨a, ha⟩ := h
  rcases c.addMerge_cases name background foreground position with ⟨e, he⟩ | ⟨hadds, -⟩
  · rw [he] at ha
    cases ha
  · rw [hadds]

/-- A command that fails leaves the composition as it was. -/
theorem perform_of_not_succeeds {c : Composition} {command : Command}
    (h : ¬ command.edit.Succeeds c) : c.perform command = c := by
  rcases command.run_cases (P := fun _ => True) (fun _ _ => trivial) c with
    ⟨e, es, he⟩ | ⟨a, c', es, ha, -⟩
  · exact congrArg Outcome.state he
  · exact absurd ⟨a, congrArg Outcome.result ha⟩ h

end Composition

open SceneScript.Composition in
/-- **A failed edit leaves everything as it was**, of a composition and of a macro. Animating an
input succeeds exactly if there is a tool of the name, and so does publishing a value that can be
published; animating a tool that may not be there yet fails exactly if its name is taken by a
macro. -/
theorem failed_edits_change_nothing :
    (∀ command : Command, command.edit.Atomic) ∧
    ((∀ tool input, (Macro.exposeInput tool input).Atomic) ∧
      (∀ tool group before behind properties,
        (Macro.exposeColor tool group before behind properties).Atomic) ∧
      ∀ tool, (Macro.exposeOutput tool).Atomic) ∧
    ∀ (c : Composition) (tool input : String),
      (∀ curve, (animate tool input curve).Succeeds c ↔ c.IsTool tool) ∧
      (∀ xCurve yCurve,
        (animatePath tool input .xyPath xCurve yCurve).Succeeds c ↔ c.IsTool tool) ∧
      (∀ value, (publish tool input value).Succeeds c ↔ Publishable value ∧ c.IsTool tool) ∧
      ∀ (t : Tool) curve, ¬ (animateTool t input curve).Succeeds c ↔ c.IsMacro t.name := by
  refine ⟨?_, ⟨Macro.atomic_exposeInput, Macro.atomic_exposeColor, Macro.atomic_exposeOutput⟩, ?_⟩
  · intro command
    exact Edit.FailsOrSteps.atomic (P := fun _ => True) fun c =>
      command.run_cases (fun _ _ => trivial) c
  · intro c tool input
    refine ⟨c.succeeds_animate_iff tool input, ?_, c.succeeds_publish_iff tool input, ?_⟩
    · intro xCurve yCurve
      simpa using c.succeeds_animatePath_iff tool input .xyPath xCurve yCurve
    · intro t curve
      rw [c.succeeds_animateTool_iff t input curve, Classical.not_not]

end SceneScript
