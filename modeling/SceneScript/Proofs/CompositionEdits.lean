import Mathlib.Logic.Relation
import SceneScript.Composition.Command

/-!
# What the edits of a composition do

Every edit looks up the names that it is given and then changes the composition in one of few ways.
The `run_` lemmas say for each edit how it ends, in which state, and with which records. `Step`
lists the ways in which a composition changes at all, and `Command.run_cases` is the one statement
on all commands from which invariants follow: a command fails and leaves the composition alone, or
it succeeds and has taken some steps.

Main statements:

- `run_animate`, `run_animatePath`, `run_publish`: an input of a tool is driven exactly if the tool
  is there, and what drives it is then found under its name;
- `Command.run_cases`: a failed command changes nothing, any other one takes steps;
- `performAll_steps`: so a session takes steps only.
-/

namespace SceneScript

namespace Tool

/-- Whether no input of a tool is connected. -/
def Unwired (t : Tool) : Prop := ∀ i ∈ t.inputs.items, i.sourceOp = none

instance (t : Tool) : Decidable t.Unwired :=
  inferInstanceAs (Decidable (∀ i ∈ t.inputs.items, i.sourceOp = none))

theorem Unwired.setInput {t : Tool} (ht : t.Unwired) (name : String) (value : Value) :
    (t.setInput name value).Unwired := by
  unfold Tool.setInput
  split
  · rename_i i hi
    intro j hj
    rcases Registry.mem_items_put hj with rfl | hj
    · exact ht i (List.mem_of_find?_eq_some hi)
    · exact ht j hj
  · intro j hj
    rcases Registry.mem_items_put hj with rfl | hj
    · rfl
    · exact ht j hj

theorem unwired_modifier (id name : String) : (modifier id name).Unwired := by
  intro i hi
  cases hi

end Tool

namespace Modifier

/-- What is true of everything that edits put in place to drive an input: a published value is not
connected itself, and the splines of a path are named after it. -/
def Regular : Modifier → Prop
  | .tool t => t.Unwired
  | .spline _ => True
  | .path p => p.x.name = p.name ++ "X" ∧ p.y.name = p.name ++ "Y"

/-- A spline or path before and after a change. -/
inductive Changed : Modifier → Modifier → Prop
  | spline (s : Spline) (change : Spline.Change) : Changed (.spline s) (.spline (s.change change))
  | path (p : XYPath) (change : XYPath.Change) : Changed (.path p) (.path (p.change change))

theorem Changed.regular {m m' : Modifier} (h : Changed m m') (hm : m.Regular) : m'.Regular := by
  cases h with
  | spline s change => trivial
  | path p change =>
    obtain ⟨hx, hy⟩ := hm
    obtain ⟨hname, hxname, hyname⟩ : _ ∧ _ ∧ _ := by
      simpa only [XYPath.names, Prod.mk.injEq] using p.names_change change
    exact ⟨by rw [hxname, hname, hx], by rw [hyname, hname, hy]⟩

end Modifier

namespace Composition

/-! ## Ways to change -/

/-- The composition with a node added last. -/
def add (c : Composition) (o : Operator) : Composition :=
  { c with operators := c.operators.put o, lastAdded := some o.name }

/-- The composition with an input of a tool connected to a modifier. -/
def driven (c : Composition) (t : Tool) (input : String) (m : Modifier) : Composition :=
  (c.putTool (t.connect input m.name "Value")).putModifier m

/-- Whether everything is there that the inputs of a tool are connected to. -/
def Feeds (c : Composition) (t : Tool) : Prop :=
  ∀ i ∈ t.inputs.items, ∀ s, i.sourceOp = some s → c.contains s = true

/-- The ways in which a composition changes. Nodes that come from outside satisfy `P`. -/
inductive Step (P : Operator → Prop) (c : Composition) : Composition → Prop
  | add {o : Operator} (ho : P o) : Step P c (c.add o)
  | merge {t : Tool} (ht : c.Feeds t) : Step P c (c.add (.tool t))
  | activate {name : String} (h : c.operators.contains name = true) :
    Step P c { c with active := some name }
  | connect {tool : String} {t : Tool} (ht : c.tool? tool = some t) (input output : String)
    {sourceOp : String} (hs : c.contains sourceOp = true) :
    Step P c (c.putTool (t.connect input sourceOp output))
  | drive {tool : String} {t : Tool} (ht : c.tool? tool = some t) (input : String) {m : Modifier}
    (hm : m.Regular) : Step P c (c.driven t input m)
  | change {m m' : Modifier} (hm : m ∈ c.modifiers.items) (h : m.Changed m') :
    Step P c (c.putModifier m')

/-- Any number of changes. -/
abbrev Steps (P : Operator → Prop) : Composition → Composition → Prop :=
  Relation.ReflTransGen (Step P)

theorem Steps.one {P : Operator → Prop} {c c' : Composition} (h : Step P c c') : Steps P c c' :=
  .single h

/-! ## How each edit ends -/

variable (c : Composition)

theorem tool?_eq_some_iff {name : String} {t : Tool} :
    c.tool? name = some t ↔ c.operators.find? name = some (.tool t) := by
  unfold tool?
  cases c.operators.find? name with
  | none => simp
  | some o => cases o <;> simp [Operator.tool?]

/-- A spline that was just put is found under its name. -/
theorem spline?_putModifier {s : Spline} {name : String} (h : s.name = name) :
    (c.putModifier (.spline s)).spline? name = some s := by
  subst h
  exact congrArg (Option.bind · Modifier.spline?) (c.modifiers.find?_put_self (.spline s))

/-- A path that was just put is found under its name. -/
theorem path?_putModifier {p : XYPath} {name : String} (h : p.name = name) :
    (c.putModifier (.path p)).path? name = some p := by
  subst h
  exact congrArg (Option.bind · Modifier.path?) (c.modifiers.find?_put_self (.path p))

@[simp] theorem name_newSpline (name : String) (curve : Option Curve) :
    (c.newSpline name curve).name = name := rfl

@[simp] theorem name_newPath (name : String) (xCurve yCurve : Option Curve) :
    (c.newPath name xCurve yCurve).name = name := rfl

theorem regular_newPath (name : String) (xCurve yCurve : Option Curve) :
    (Modifier.path (c.newPath name xCurve yCurve)).Regular := ⟨rfl, rfl⟩

theorem run_drive (tool input sourceOp source : String) :
    (drive tool input sourceOp source).run c =
      match c.tool? tool with
      | some t => ⟨.ok (), c.putTool (t.connect input sourceOp source), []⟩
      | none => ⟨.error (.unknownTool tool), c, []⟩ := by
  unfold drive
  cases h : c.tool? tool <;> simp [Edit.run_bind, Edit.orFail, h]

theorem run_setActive (name : String) :
    (setActive name).run c =
      if c.operators.contains name then ⟨.ok (), { c with active := some name }, []⟩
      else ⟨.error (.unknownTool name), c, []⟩ := by
  unfold setActive
  cases h : c.operators.contains name <;> simp [Edit.run_bind, h]

theorem run_connect (sourceOp tool output input : String) :
    (connect sourceOp tool output input).run c =
      if c.contains sourceOp then (drive tool input sourceOp output).run c
      else ⟨.error (.unknownTool sourceOp), c, []⟩ := by
  unfold connect
  cases h : c.contains sourceOp <;> simp [Edit.run_bind, h]

theorem run_connectPublished (published tool input : String) :
    (connectPublished published tool input).run c =
      if c.modifiers.contains published then (connect published tool "Value" input).run c
      else ⟨.error (.unknownTool published), c, []⟩ := by
  unfold connectPublished
  cases h : c.modifiers.contains published <;> simp [Edit.run_bind, h]

/-- The look-up at the end of an animation finds what was put there just before. -/
theorem run_animate (tool input : String) (curve : Option Curve) :
    (animate tool input curve).run c =
      match c.tool? tool with
      | some t => ⟨.ok (tool ++ input),
          c.driven t input (.spline (c.newSpline (tool ++ input) curve)),
          [.animated tool input .spline (tool ++ input)]⟩
      | none => ⟨.error (.unknownTool tool), c, []⟩ := by
  unfold animate
  cases h : c.tool? tool with
  | none => simp [Edit.run_bind, run_drive, h]
  | some t =>
    simp only [Edit.run_bind, run_drive, h, Edit.run_log, Edit.run_modify, Edit.run_get,
      spline?_putModifier _ (name_newSpline _ _ _), Edit.orFail, Edit.run_pure, name_newSpline]
    rfl

theorem run_animatePath_path (tool input : String) (xCurve yCurve : Option Curve) :
    (animatePath tool input .path xCurve yCurve).run c =
      ⟨.error (.notImplemented .pathModifier), c, []⟩ := rfl

theorem run_animatePath_xyPath (tool input : String) (xCurve yCurve : Option Curve) :
    (animatePath tool input .xyPath xCurve yCurve).run c =
      match c.tool? tool with
      | some t => ⟨.ok (tool ++ input ++ "XYPath"),
          c.driven t input (.path (c.newPath (tool ++ input ++ "XYPath") xCurve yCurve)),
          [.animated tool input .path (tool ++ input ++ "XYPath")]⟩
      | none => ⟨.error (.unknownTool tool), c, []⟩ := by
  unfold animatePath
  cases h : c.tool? tool with
  | none => simp [Edit.run_bind, run_drive, h]
  | some t =>
    simp only [Edit.run_bind, run_drive, h, Edit.run_log, Edit.run_modify, Edit.run_get,
      path?_putModifier _ (name_newPath _ _ _ _), Edit.orFail, Edit.run_pure, name_newPath]
    rfl

theorem tool?_add_self (t : Tool) : (c.add (.tool t)).tool? t.name = some t :=
  congrArg (Option.bind · Operator.tool?) (c.operators.find?_put_self (.tool t))

theorem run_animateTool_of_contains {t : Tool} (h : c.operators.contains t.name = true)
    (input : String) (curve : Option Curve) :
    (animateTool t input curve).run c = (animate t.name input curve).run c := by
  unfold animateTool
  simp [Edit.run_bind, h]

/-- A tool that is not there is added first, so that its input can be driven in any case. -/
theorem run_animateTool_of_not_contains {t : Tool} (h : c.operators.contains t.name = false)
    (input : String) (curve : Option Curve) :
    (animateTool t input curve).run c =
      ⟨.ok (t.name ++ input),
        (c.add (.tool t)).driven t input (.spline (c.newSpline (t.name ++ input) curve)),
        [.addedToAnimate t.name, .added t.name,
          .animated t.name input .spline (t.name ++ input)]⟩ := by
  have hadd : (addTool t).run c = ⟨.ok (), c.add (.tool t), [.added t.name]⟩ := rfl
  have hanimate := run_animate (c.add (.tool t)) t.name input curve
  rw [tool?_add_self] at hanimate
  unfold animateTool
  simp only [Edit.run_bind, Edit.run_get, h, Bool.false_eq_true, if_false, Edit.run_log, hadd,
    hanimate]
  rfl

theorem run_publish (tool input : String) (value : Value) :
    (publish tool input value).run c =
      match publisher? value, c.tool? tool with
      | some id, some t => ⟨.ok (), c.driven t input
          (.tool ((Tool.modifier id ("Publish" ++ tool ++ input)).setInput "Value" value)), []⟩
      | some _, none => ⟨.error (.unknownTool tool), c, []⟩
      | none, _ => ⟨.error (.unsupported (.published value)), c, []⟩ := by
  unfold publish
  cases hid : publisher? value with
  | none => simp [Edit.run_bind, Edit.orFail]
  | some id =>
    cases h : c.tool? tool with
    | none => simp [Edit.run_bind, Edit.orFail, run_drive, h]
    | some t =>
      simp only [Edit.run_bind, Edit.orFail, Edit.run_pure, run_drive, h, Edit.run_modify]
      rfl

/-! ## Merges -/

variable {c}

theorem feeds_of_no_inputs {t : Tool} (h : t.inputs = ∅) : c.Feeds t := by
  intro i hi
  rw [h] at hi
  cases hi

theorem Feeds.connect {t : Tool} (ht : c.Feeds t) {sourceOp : String}
    (hs : c.contains sourceOp = true) (input output : String) :
    c.Feeds (t.connect input sourceOp output) := by
  intro i hi s hsource
  rcases Registry.mem_items_put hi with rfl | hi
  · cases hsource
    exact hs
  · exact ht i hi s hsource

/-- The output that others connect to under a name: that of the node, or else that of a modifier. -/
def outputName (c : Composition) (name : String) : String :=
  ((c.operators.find? name).map Operator.output).getD "Value"

/-- A merge with an input connected to what it takes in, if anything. -/
def mergeFrom (c : Composition) (input : String) (source : Option String) (merge : Tool) : Tool :=
  match source with
  | none => merge
  | some name => merge.connect input name (c.outputName name)

/-- The tool that is added to merge a foreground over a background. -/
def mergeTool (c : Composition) (name : String) (background foreground : Option String)
    (position : Number × Number) : Tool :=
  c.mergeFrom "Foreground" foreground
    (c.mergeFrom "Background" background { id := "Merge", name, position := some position })

theorem name_mergeFrom (c : Composition) (input : String) (source : Option String)
    (merge : Tool) : (c.mergeFrom input source merge).name = merge.name := by
  cases source <;> rfl

theorem name_mergeTool (c : Composition) (name : String) (background foreground : Option String)
    (position : Number × Number) :
    (c.mergeTool name background foreground position).name = name :=
  (c.name_mergeFrom _ _ _).trans (c.name_mergeFrom _ _ _)

theorem outputOf_cases (c : Composition) (name : String) :
    (∃ e, (outputOf name).run c = ⟨.error e, c, []⟩) ∨
      c.contains name = true ∧ (outputOf name).run c = ⟨.ok (c.outputName name), c, []⟩ := by
  unfold outputOf outputName contains Registry.contains
  cases ho : c.operators.find? name with
  | some o => exact .inr ⟨rfl, by simp [Edit.run_bind, ho]⟩
  | none =>
    cases hm : c.modifiers.find? name with
    | some m => exact .inr ⟨rfl, by simp [Edit.run_bind, ho, hm]⟩
    | none => exact .inl ⟨.unknownTool name, by simp [Edit.run_bind, ho, hm]⟩

/-- A merge is connected to what is there, or not at all. -/
theorem mergeInput_cases {merge : Tool} (hmerge : c.Feeds merge) (input : String)
    (source : Option String) :
    (∃ e, (mergeInput input source merge).run c = ⟨.error e, c, []⟩) ∨
      (mergeInput input source merge).run c = ⟨.ok (c.mergeFrom input source merge), c, []⟩ ∧
        c.Feeds (c.mergeFrom input source merge) := by
  cases source with
  | none => exact .inr ⟨rfl, hmerge⟩
  | some name =>
    unfold mergeInput
    rcases c.outputOf_cases name with ⟨e, he⟩ | ⟨hname, ho⟩
    · exact .inl ⟨e, Edit.run_bind_error he⟩
    · exact .inr ⟨Edit.run_bind_ok ho, hmerge.connect hname input _⟩

/-- Both inputs of a merge are looked up before anything is added. -/
theorem addMerge_cases (c : Composition) (name : String) (background foreground : Option String)
    (position : Number × Number) :
    (∃ e, (addMerge name background foreground position).run c = ⟨.error e, c, []⟩) ∨
      (addMerge name background foreground position).run c =
          ⟨.ok (), c.add (.tool (c.mergeTool name background foreground position)),
            [.added name]⟩ ∧
        c.Feeds (c.mergeTool name background foreground position) := by
  have hmerge : c.Feeds { id := "Merge", name, position := some position } :=
    feeds_of_no_inputs rfl
  unfold addMerge
  rcases mergeInput_cases hmerge "Background" background with ⟨e, he⟩ | ⟨hback, hfeeds⟩
  · exact .inl ⟨e, Edit.run_bind_error he⟩
  · rcases mergeInput_cases hfeeds "Foreground" foreground with ⟨e, he⟩ | ⟨hfront, hfeeds⟩
    · -- the background is connected by now, but only in the merge, which is not there yet
      refine .inl ⟨e, (Edit.run_bind_ok hback).trans ?_⟩
      simp [Edit.run_bind_error he]
    · have hadd : ∀ t : Tool, (addTool t).run c = ⟨.ok (), c.add (.tool t), [.added t.name]⟩ :=
        fun _ => rfl
      refine .inr ⟨(Edit.run_bind_ok hback).trans ?_, hfeeds⟩
      simp [Edit.run_bind_ok hfront, hadd, mergeTool, name_mergeFrom]

/-! ## Changes -/

theorem modifySpline_cases (c : Composition) (name : String) (change : Spline.Change) :
    (modifySpline name (·.change change)).run c = ⟨.ok (), c, []⟩ ∨
      ∃ s, .spline s ∈ c.modifiers.items ∧
        (modifySpline name (·.change change)).run c =
          ⟨.ok (), c.putModifier (.spline (s.change change)), []⟩ := by
  unfold modifySpline
  cases h : c.spline? name with
  | none => exact .inl (by simp [h])
  | some s =>
    obtain ⟨m, hm, hs⟩ := Option.bind_eq_some_iff.1 h
    refine .inr ⟨s, ?_, by simp [h]⟩
    cases m <;> cases hs
    exact List.mem_of_find?_eq_some hm

theorem modifyPath_cases (c : Composition) (name : String) (change : XYPath.Change) :
    (modifyPath name (·.change change)).run c = ⟨.ok (), c, []⟩ ∨
      ∃ p, .path p ∈ c.modifiers.items ∧
        (modifyPath name (·.change change)).run c =
          ⟨.ok (), c.putModifier (.path (p.change change)), []⟩ := by
  unfold modifyPath
  cases h : c.path? name with
  | none => exact .inl (by simp [h])
  | some p =>
    obtain ⟨m, hm, hp⟩ := Option.bind_eq_some_iff.1 h
    refine .inr ⟨p, ?_, by simp [h]⟩
    cases m <;> cases hp
    exact List.mem_of_find?_eq_some hm

end Composition

/-! ## Commands -/

/-- How an edit may end: it fails and leaves the composition alone, or it takes some steps. -/
def Edit.FailsOrSteps {α : Type} (P : Operator → Prop) (c : Composition)
    (x : Edit Composition α) : Prop :=
  (∃ e es, x.run c = ⟨.error e, c, es⟩) ∨
    ∃ a c' es, x.run c = ⟨.ok a, c', es⟩ ∧ Composition.Steps P c c'

namespace Composition

variable {P : Operator → Prop} {c : Composition}

theorem failsOrSteps_ignore {α : Type} {x : Edit Composition α} (h : x.FailsOrSteps P c) :
    (do let _ ← x : Edit Composition Unit).FailsOrSteps P c := by
  rcases h with ⟨e, es, he⟩ | ⟨a, c', es, ha, hsteps⟩
  · exact .inl ⟨e, es, Edit.run_bind_error he⟩
  · exact .inr ⟨(), c', es ++ [], Edit.run_bind_ok ha, hsteps⟩

theorem failsOrSteps_connect (sourceOp tool output input : String) :
    (connect sourceOp tool output input).FailsOrSteps P c := by
  unfold Edit.FailsOrSteps
  rw [run_connect]
  cases hs : c.contains sourceOp with
  | false => exact .inl ⟨_, _, rfl⟩
  | true =>
    simp only [if_true]
    rw [run_drive]
    cases h : c.tool? tool with
    | none => exact .inl ⟨_, _, rfl⟩
    | some t => exact .inr ⟨_, _, _, rfl, .one (.connect h input output hs)⟩

theorem failsOrSteps_connectPublished (published tool input : String) :
    (connectPublished published tool input).FailsOrSteps P c := by
  unfold Edit.FailsOrSteps
  rw [run_connectPublished]
  cases c.modifiers.contains published with
  | false => exact .inl ⟨_, _, rfl⟩
  | true => exact failsOrSteps_connect published tool "Value" input

theorem failsOrSteps_setActive (name : String) : (setActive name).FailsOrSteps P c := by
  unfold Edit.FailsOrSteps
  rw [run_setActive]
  cases h : c.operators.contains name with
  | false => exact .inl ⟨_, _, rfl⟩
  | true => exact .inr ⟨_, _, _, rfl, .one (.activate h)⟩

theorem failsOrSteps_addMerge (name : String) (background foreground : Option String)
    (position : Number × Number) :
    (addMerge name background foreground position).FailsOrSteps P c := by
  rcases c.addMerge_cases name background foreground position with ⟨e, he⟩ | ⟨hadds, hfeeds⟩
  · exact .inl ⟨e, _, he⟩
  · exact .inr ⟨_, _, _, hadds, .one (.merge hfeeds)⟩

theorem failsOrSteps_animate (tool input : String) (curve : Option Curve) :
    (animate tool input curve).FailsOrSteps P c := by
  unfold Edit.FailsOrSteps
  rw [run_animate]
  cases h : c.tool? tool with
  | none => exact .inl ⟨_, _, rfl⟩
  | some t => exact .inr ⟨_, _, _, rfl, .one (.drive h input trivial)⟩

theorem failsOrSteps_animateTool {t : Tool} (ht : P (.tool t)) (input : String)
    (curve : Option Curve) : (animateTool t input curve).FailsOrSteps P c := by
  cases h : c.operators.contains t.name with
  | true =>
    unfold Edit.FailsOrSteps
    rw [run_animateTool_of_contains c h]
    exact failsOrSteps_animate t.name input curve
  | false =>
    -- two steps: the tool is added, and the one just added is the one that is driven
    refine .inr ⟨_, _, _, run_animateTool_of_not_contains c h input curve, ?_⟩
    exact (Steps.one (.add ht)).tail (.drive (c.tool?_add_self t) input trivial)

theorem failsOrSteps_animatePath (tool input : String) (method : PathMethod)
    (xCurve yCurve : Option Curve) :
    (animatePath tool input method xCurve yCurve).FailsOrSteps P c := by
  cases method with
  | path => exact .inl ⟨_, _, run_animatePath_path c tool input xCurve yCurve⟩
  | xyPath =>
    unfold Edit.FailsOrSteps
    rw [run_animatePath_xyPath]
    cases h : c.tool? tool with
    | none => exact .inl ⟨_, _, rfl⟩
    | some t => exact .inr ⟨_, _, _, rfl, .one (.drive h input (c.regular_newPath _ _ _))⟩

theorem failsOrSteps_modifySpline (name : String) (change : Spline.Change) :
    (modifySpline name (·.change change)).FailsOrSteps P c := by
  rcases c.modifySpline_cases name change with hsame | ⟨s, hs, hput⟩
  · exact .inr ⟨_, _, _, hsame, .refl⟩
  · exact .inr ⟨_, _, _, hput, .one (.change hs (.spline s change))⟩

theorem failsOrSteps_modifyPath (name : String) (change : XYPath.Change) :
    (modifyPath name (·.change change)).FailsOrSteps P c := by
  rcases c.modifyPath_cases name change with hsame | ⟨p, hp, hput⟩
  · exact .inr ⟨_, _, _, hsame, .refl⟩
  · exact .inr ⟨_, _, _, hput, .one (.change hp (.path p change))⟩

theorem failsOrSteps_publish (tool input : String) (value : Value) :
    (publish tool input value).FailsOrSteps P c := by
  unfold Edit.FailsOrSteps
  rw [run_publish]
  cases publisher? value with
  | none => exact .inl ⟨_, _, rfl⟩
  | some id =>
    cases h : c.tool? tool with
    | none => exact .inl ⟨_, _, rfl⟩
    | some t =>
      have hm := (Tool.unwired_modifier id ("Publish" ++ tool ++ input)).setInput "Value" value
      exact .inr ⟨_, _, _, rfl, .one (.drive h input hm)⟩

end Composition

open SceneScript.Composition in
/-- **What a command can do**: if it fails, the composition is as it was; if not, it has taken steps
in which only nodes come from outside that the command brings along. -/
theorem Command.run_cases {P : Operator → Prop} {command : Command}
    (h : ∀ o ∈ command.brought, P o) (c : Composition) : command.edit.FailsOrSteps P c := by
  cases command with
  | addTool t => exact .inr ⟨_, _, _, rfl, .one (.add (h _ List.mem_cons_self))⟩
  | addMacro m => exact .inr ⟨_, _, _, rfl, .one (.add (h _ List.mem_cons_self))⟩
  | addMerge name background foreground position =>
    exact failsOrSteps_addMerge name background foreground position
  | setActive name => exact failsOrSteps_setActive name
  | connect sourceOp tool output input => exact failsOrSteps_connect sourceOp tool output input
  | connectPublished published tool input =>
    exact failsOrSteps_connectPublished published tool input
  | animate tool input curve => exact failsOrSteps_ignore (failsOrSteps_animate tool input curve)
  | animateTool t input curve =>
    exact failsOrSteps_ignore (failsOrSteps_animateTool (h _ List.mem_cons_self) input curve)
  | animatePosition tool input xCurve yCurve =>
    exact failsOrSteps_ignore (failsOrSteps_animatePath tool input .xyPath xCurve yCurve)
  | animatePath tool input method xCurve yCurve =>
    exact failsOrSteps_ignore (failsOrSteps_animatePath tool input method xCurve yCurve)
  | publish tool input value => exact failsOrSteps_publish tool input value
  | changeSpline name change => exact failsOrSteps_modifySpline name change
  | changePath name change => exact failsOrSteps_modifyPath name change

namespace Composition

theorem perform_steps {P : Operator → Prop} {command : Command}
    (h : ∀ o ∈ command.brought, P o) (c : Composition) : Steps P c (c.perform command) := by
  unfold perform
  rcases command.run_cases h c with ⟨e, es, he⟩ | ⟨a, c', es, ha, hsteps⟩
  · rw [he]
  · rw [ha]
    exact hsteps

/-- **A session takes steps only**, whatever fails in it. -/
theorem performAll_steps {P : Operator → Prop} {session : List Command}
    (h : ∀ command ∈ session, ∀ o ∈ command.brought, P o) (c : Composition) :
    Steps P c (c.performAll session) := by
  induction session generalizing c with
  | nil => exact .refl
  | cons command rest ih =>
    have hfirst := perform_steps (h command List.mem_cons_self) c
    exact hfirst.trans (ih (fun next hnext => h next (List.mem_cons_of_mem _ hnext)) _)

/-- What every step keeps, every session keeps. -/
theorem performAll_induction {P : Operator → Prop} {Inv : Composition → Prop}
    (hstep : ∀ c c', Step P c c' → Inv c → Inv c') {session : List Command}
    (h : ∀ command ∈ session, ∀ o ∈ command.brought, P o) {c : Composition} (hc : Inv c) :
    Inv (c.performAll session) := by
  -- the induction is on the steps and not on the commands, since a command may take two
  have hsteps := performAll_steps h c
  generalize c.performAll session = c' at hsteps ⊢
  induction hsteps with
  | refl => exact hc
  | tail _ hlast ih => exact hstep _ _ hlast ih

theorem Step.regular {c' : Composition} (h : Step P c c')
    (hc : ∀ m ∈ c.modifiers.items, m.Regular) : ∀ m ∈ c'.modifiers.items, m.Regular := by
  cases h with
  | add _ => exact hc
  | merge _ => exact hc
  | activate _ => exact hc
  | connect _ _ _ _ => exact hc
  | drive _ _ hm =>
    intro m hmem
    rcases Registry.mem_items_put hmem with rfl | hmem
    · exact hm
    · exact hc m hmem
  | change hold hchange =>
    intro m hmem
    rcases Registry.mem_items_put hmem with rfl | hmem
    · exact hchange.regular (hc _ hold)
    · exact hc m hmem

/-- Whatever the edits are, all modifiers are regular. -/
theorem performAll_regular (options : Options) (session : List Command) :
    ∀ m ∈ (performAll { options } session).modifiers.items, m.Regular :=
  performAll_induction (P := fun _ => True) (fun _ _ h hc => h.regular hc) (fun _ _ _ _ => trivial)
    (fun _ hm => by cases hm)

/-- No edit touches the options. -/
theorem options_performAll (options : Options) (session : List Command) :
    (performAll { options } session).options = options := by
  have hstep : ∀ c c', Step (fun _ => True) c c' → c.options = options → c'.options = options := by
    intro c c' h hc
    cases h <;> exact hc
  exact performAll_induction hstep (fun _ _ _ _ => trivial) rfl

end Composition

end SceneScript
