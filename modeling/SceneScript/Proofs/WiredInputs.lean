import SceneScript.Proofs.AnimatedInputs
import SceneScript.Proofs.Registration

/-!
# What the wiring of an input leaves alone

Five edits connect an input of a tool: to any output, to a modifier that is there, or to one that
they make and name after the input. Each looks names up, replaces one input within one tool, and may
put one modifier. Of the registries it is only used where they place a thing (`Registry.Placed`): at
either level the others are the same list before and behind.

Main statements:

- `draws_perform`: the two states in which wiring ends;
- `wiresOnly_perform`: an edit that wires an input and succeeds changes that input, the modifier of
  the name that it makes, and nothing else.
-/

namespace SceneScript

/-! ## Wires -/

/-- A connection from an output to an input of a tool. -/
structure Wire where
  tool : String
  input : String
  sourceOp : String
  source : String

namespace Wire

/-- The input at the end of a wire: it has no value and no expression. -/
def endpoint (w : Wire) : Input where
  name := w.input
  value := .null
  expression := none
  sourceOp := some w.sourceOp
  source := some w.source

end Wire

namespace Command

/-- The wire that a command draws if it succeeds. What makes a modifier draws it from there. -/
def wire? : Command → Option Wire
  | .connect sourceOp tool output input => some ⟨tool, input, sourceOp, output⟩
  | .connectPublished published tool input => some ⟨tool, input, published, "Value"⟩
  | .publish tool input _ => some ⟨tool, input, "Publish" ++ tool ++ input, "Value"⟩
  | .animate tool input _ => some ⟨tool, input, tool ++ input, "Value"⟩
  | .animatePosition tool input _ _ => some ⟨tool, input, tool ++ input ++ "XYPath", "Value"⟩
  | .animatePath tool input .xyPath _ _ => some ⟨tool, input, tool ++ input ++ "XYPath", "Value"⟩
  | _ => none

end Command

/-- Whether a tool differs from another in one input at most, which is at its old place or last. -/
structure Tool.RewiredAt (i : Input) (t t' : Tool) : Prop where
  id : t'.id = t.id
  name : t'.name = t.name
  position : t'.position = t.position
  output : t'.output = t.output
  userControls : t'.userControls = t.userControls
  inputs : Registry.Placed i t.inputs.items t'.inputs.items

theorem Tool.rewiredAt_connect (t : Tool) (w : Wire) :
    t.RewiredAt w.endpoint (t.connect w.input w.sourceOp w.source) where
  id := rfl
  name := rfl
  position := rfl
  output := rfl
  userControls := rfl
  inputs := t.inputs.placed_put w.endpoint

namespace Composition

open Edit (state_ignore succeeds_of_ignore)

/-- Whether a composition differs from another by a wire: in the input at its end, and in the
modifier of the name `made` if there is one. -/
structure WiresOnly (w : Wire) (made : Option String) (c c' : Composition) : Prop where
  tool : ∃ t t' before behind, c.tool? w.tool = some t ∧ c'.tool? w.tool = some t' ∧
    t.RewiredAt w.endpoint t' ∧ c.operators.items = before ++ Operator.tool t :: behind ∧
    c'.operators.items = before ++ Operator.tool t' :: behind
  modifiers : match made with
    | none => c'.modifiers = c.modifiers
    | some name => ∃ m : Modifier, m.name = name ∧
      Registry.Placed m c.modifiers.items c'.modifiers.items
  options : c'.options = c.options
  active : c'.active = c.active
  lastAdded : c'.lastAdded = c.lastAdded

variable {c : Composition} {w : Wire} {t : Tool}

/-- Whether a composition comes from another by drawing a wire, from a modifier that is put with it
or from what is there. -/
inductive Draws (w : Wire) (c : Composition) : Option String → Composition → Prop
  | connected {t : Tool} (ht : c.tool? w.tool = some t) :
    Draws w c none (c.putTool (t.connect w.input w.sourceOp w.source))
  | driven {t : Tool} (ht : c.tool? w.tool = some t) (m : Modifier) :
    Draws w c (some m.name) ((c.putTool (t.connect w.input w.sourceOp w.source)).putModifier m)

theorem draws_driven {tool input name : String} {m : Modifier} (ht : c.tool? tool = some t)
    (hname : m.name = name) :
    Draws ⟨tool, input, name, "Value"⟩ c (some name) (c.driven t input m) := by
  subst hname
  exact .driven (w := ⟨tool, input, m.name, "Value"⟩) ht m

/-- A tool that is put back with an input connected stands where it stood. -/
theorem wiresOnly_connect (ht : c.tool? w.tool = some t) :
    WiresOnly w none c (c.putTool (t.connect w.input w.sourceOp w.source)) where
  tool := by
    have hname : t.name = w.tool := name_of_tool? ht
    have hfind : c.operators.find? t.name = some (.tool t) :=
      c.tool?_eq_some_iff.1 (hname.symm ▸ ht)
    obtain ⟨before, behind, hitems, hput⟩ := Registry.exists_put_eq
      (b := Operator.tool (t.connect w.input w.sourceOp w.source)) hfind
    refine ⟨t, _, before, behind, ht, ?_, t.rewiredAt_connect w, hitems, hput⟩
    rw [tool?_putTool]
    exact if_pos hname.symm
  modifiers := rfl
  options := rfl
  active := rfl
  lastAdded := rfl

/-- Nodes do not notice that a modifier is put. -/
theorem Draws.wiresOnly {made : Option String} {c' : Composition} (h : Draws w c made c') :
    WiresOnly w made c c' := by
  cases h with
  | connected ht => exact wiresOnly_connect ht
  | driven ht m =>
    have hconnect := wiresOnly_connect ht
    exact { hconnect with modifiers := ⟨m, rfl, c.modifiers.placed_put m⟩ }

/-! ## Edits that draw a wire -/

theorem draws_run_connect (h : (connect w.sourceOp w.tool w.source w.input).Succeeds c) :
    Draws w c none ((connect w.sourceOp w.tool w.source w.input).run c).state := by
  obtain ⟨a, ha⟩ := h
  rw [run_connect, run_drive] at ha ⊢
  cases hsource : c.contains w.sourceOp with
  | false =>
    rw [hsource] at ha
    cases ha
  | true =>
    cases ht : c.tool? w.tool with
    | none =>
      rw [hsource, ht] at ha
      cases ha
    | some t => exact .connected ht

theorem draws_run_connectPublished {published tool input : String}
    (h : (connectPublished published tool input).Succeeds c) :
    Draws ⟨tool, input, published, "Value"⟩ c none
      ((connectPublished published tool input).run c).state := by
  unfold Edit.Succeeds at h
  rw [run_connectPublished] at h ⊢
  cases hpublished : c.modifiers.contains published with
  | false =>
    rw [hpublished] at h
    obtain ⟨a, ⟨⟩⟩ := h
  | true =>
    rw [hpublished] at h
    exact draws_run_connect (w := ⟨tool, input, published, "Value"⟩) h

theorem draws_run_publish {tool input : String} {value : Value}
    (h : (publish tool input value).Succeeds c) :
    Draws ⟨tool, input, "Publish" ++ tool ++ input, "Value"⟩ c
      (some ("Publish" ++ tool ++ input)) ((publish tool input value).run c).state := by
  obtain ⟨hpublishable, t, ht⟩ := (c.succeeds_publish_iff tool input value).1 h
  obtain ⟨id, hid⟩ := publishable_iff.1 hpublishable
  rw [run_publish, hid, ht]
  exact draws_driven ht rfl

theorem draws_run_animate {tool input : String} {curve : Option Curve}
    (h : (animate tool input curve).Succeeds c) :
    Draws ⟨tool, input, tool ++ input, "Value"⟩ c (some (tool ++ input))
      ((animate tool input curve).run c).state := by
  obtain ⟨t, ht⟩ := (c.succeeds_animate_iff tool input curve).1 h
  rw [run_animate, ht]
  exact draws_driven ht rfl

/-- A tool that is not there yet is added first. -/
theorem draws_run_animateTool {t : Tool} {input : String} {curve : Option Curve}
    (h : (animateTool t input curve).Succeeds c) :
    Draws ⟨t.name, input, t.name ++ input, "Value"⟩
      (if c.operators.contains t.name then c else c.add (.tool t)) (some (t.name ++ input))
      ((animateTool t input curve).run c).state := by
  cases ht : c.operators.contains t.name with
  | true =>
    unfold Edit.Succeeds at h
    rw [run_animateTool_of_contains c ht] at h ⊢
    exact draws_run_animate h
  | false =>
    rw [run_animateTool_of_not_contains c ht]
    exact draws_driven (c.tool?_add_self t) rfl

theorem draws_run_animatePath {tool input : String} {xCurve yCurve : Option Curve}
    (h : (animatePath tool input .xyPath xCurve yCurve).Succeeds c) :
    Draws ⟨tool, input, tool ++ input ++ "XYPath", "Value"⟩ c (some (tool ++ input ++ "XYPath"))
      ((animatePath tool input .xyPath xCurve yCurve).run c).state := by
  obtain ⟨-, t, ht⟩ := (c.succeeds_animatePath_iff tool input .xyPath xCurve yCurve).1 h
  rw [run_animatePath_xyPath, ht]
  exact draws_driven ht rfl

/-- A command that draws a wire and succeeds does so, and puts the modifier that it makes. -/
theorem draws_perform {command : Command} (hw : command.wire? = some w)
    (hsucceeds : command.edit.Succeeds c) : Draws w c command.puts (c.perform command) := by
  cases command with
  | connect sourceOp tool output input =>
    cases hw
    exact draws_run_connect (w := ⟨tool, input, sourceOp, output⟩) hsucceeds
  | connectPublished published tool input =>
    cases hw
    exact draws_run_connectPublished hsucceeds
  | publish tool input value =>
    cases hw
    exact draws_run_publish hsucceeds
  | animate tool input curve =>
    cases hw
    rw [perform, Command.edit, state_ignore]
    exact draws_run_animate (succeeds_of_ignore hsucceeds)
  | animatePosition tool input xCurve yCurve =>
    cases hw
    rw [perform, Command.edit, state_ignore]
    exact draws_run_animatePath (succeeds_of_ignore hsucceeds)
  | animatePath tool input method xCurve yCurve =>
    cases method with
    | path => cases hw
    | xyPath =>
      cases hw
      rw [perform, Command.edit, state_ignore]
      exact draws_run_animatePath (succeeds_of_ignore hsucceeds)
  | _ => cases hw

/-- **Wiring touches one input and one modifier only.** Whatever a composition is like, an edit that
wires an input of a tool and succeeds leaves that input connected and nothing else of it. The input
is at its old place, or last if it is new. All other inputs, everything else of the tool, all other
nodes in their order, the options and the active node are as they were. Of the modifiers only the
one that the edit makes and names has been put: in the place of the one of its name, or last. -/
theorem wiresOnly_perform (c : Composition) {command : Command} {w : Wire}
    (hw : command.wire? = some w) (hsucceeds : command.edit.Succeeds c) :
    WiresOnly w command.puts c (c.perform command) :=
  (draws_perform hw hsucceeds).wiresOnly

/-- A tool between others, whose second input has a value and an expression, and a spline that has
the name already that animating this input makes. -/
def takenName : Composition :=
  performAll {} [.addTool { id := "Background", name := "So" },
    .addTool (({ id := "Blur", name := "Soft" : Tool }).addInputs
      [.ofValue "Blend" (.number 1),
        { name := "Size", value := .number 3, expression := some "time" },
        .connected "Input" "So" "Output"]),
    .addMacro { name := "Group" }, .animate "So" "ftSize" none, .publish "So" "Depth" (.number 8)]

theorem wiresOnly_perform_takenName :
    (Command.animate "Soft" "Size" none).wire? = some ⟨"Soft", "Size", "SoftSize", "Value"⟩ ∧
      (Command.animate "Soft" "Size" none).edit.Succeeds takenName ∧
      WiresOnly ⟨"Soft", "Size", "SoftSize", "Value"⟩ (some "SoftSize") takenName
        (takenName.perform (.animate "Soft" "Size" none)) := by
  have hsucceeds : (Command.animate "Soft" "Size" none).edit.Succeeds takenName := ⟨(), rfl⟩
  exact ⟨rfl, hsucceeds, wiresOnly_perform takenName rfl hsucceeds⟩

end Composition

end SceneScript
