import SceneScript.Proofs.FailedEdits

/-!
# Animated inputs beside each other

An input is animated as long as it is connected to a spline that is found under its name. Commands
that connect another input, put a modifier of another name and leave the tool in its place keep it
so, and the spline with it, but for the changes that are meant for the spline itself. The name of a
spline is made from those of the tool and the input with nothing in between. Animating another input
is such a command exactly if its name comes out different, which it does for every other input of
the same tool, but not of every other tool.

Main statements:

- `Animated.perform`: what one command does to an animated input that it spares;
- `Animated.performAll`: and what a session does;
- `animate_spares_iff`: animating another input leaves an animated input alone exactly if the two
  names differ.
-/

namespace SceneScript

/-! ## What commands write -/

namespace Command

/-- The name of the node that a command adds, whatever is there; animating a tool adds it only if no
node has its name. -/
def adds : Command → Option String
  | .addTool t => some t.name
  | .addMacro m => some m.name
  | .addMerge name _ _ _ => some name
  | _ => none

/-- The input that a command connects, with its tool. -/
def connects : Command → Option (String × String)
  | .connect _ tool _ input => some (tool, input)
  | .connectPublished _ tool input => some (tool, input)
  | .animate tool input _ => some (tool, input)
  | .animateTool t input _ => some (t.name, input)
  | .animatePosition tool input _ _ => some (tool, input)
  | .animatePath tool input _ _ _ => some (tool, input)
  | .publish tool input _ => some (tool, input)
  | _ => none

/-- The name of the modifier that a command puts, in place of the one that has it. -/
def puts : Command → Option String
  | .animate tool input _ => some (tool ++ input)
  | .animateTool t input _ => some (t.name ++ input)
  | .animatePosition tool input _ _ => some (tool ++ input ++ "XYPath")
  | .animatePath tool input _ _ _ => some (tool ++ input ++ "XYPath")
  | .publish tool input _ => some ("Publish" ++ tool ++ input)
  | _ => none

/-- The changes that a command makes to a spline as such. -/
def changesOf (name : String) : Command → List Spline.Change
  | .changeSpline name' change => if name' = name then [change] else []
  | _ => []

/-- Whether a command leaves an input and the modifier that drives it in their places. -/
structure Spares (tool input name : String) (command : Command) : Prop where
  adds : command.adds ≠ some tool
  connects : command.connects ≠ some (tool, input)
  puts : command.puts ≠ some name

end Command

namespace Composition

open Edit (state_ignore)

variable {c : Composition}

/-- What an input of a tool is connected to. -/
def sourceOf (c : Composition) (tool input : String) : Option String :=
  (c.tool? tool).bind fun t => (t.input? input).bind Input.sourceOp

/-- Whether a spline animates an input: the input is connected to it, and it is found. -/
structure Animated (c : Composition) (tool input : String) (s : Spline) : Prop where
  source : c.sourceOf tool input = some s.name
  spline : c.spline? s.name = some s

/-! ## States after a command -/

theorem name_of_tool? {name : String} {t : Tool} (h : c.tool? name = some t) : t.name = name :=
  Registry.nameOf_of_find? (c.tool?_eq_some_iff.1 h)

theorem tool?_putTool (c : Composition) (t : Tool) (name : String) :
    (c.putTool t).tool? name = if name = t.name then some t else c.tool? name := by
  unfold tool? putTool
  rw [Registry.find?_put]
  show Option.bind (if name = t.name then _ else _) _ = _
  split <;> rfl

theorem sourceOf_connect {tool' : String} {t : Tool} (ht : c.tool? tool' = some t)
    (input' sourceOp source tool input : String) :
    (c.putTool (t.connect input' sourceOp source)).sourceOf tool input =
      if (tool', input') = (tool, input) then some sourceOp else c.sourceOf tool input := by
  obtain rfl := name_of_tool? ht
  unfold sourceOf
  rw [tool?_putTool]
  by_cases htool : tool = t.name
  · subst htool
    rw [if_pos (show t.name = (t.connect input' sourceOp source).name from rfl), ht]
    show ((t.connect input' sourceOp source).input? input).bind Input.sourceOp = _
    by_cases hinput : input = input'
    · subst hinput
      rw [Tool.input?_connect_self, if_pos rfl]
      rfl
    · rw [Tool.input?_connect_of_ne t sourceOp source hinput,
        if_neg fun h => hinput (congrArg Prod.snd h).symm]
      rfl
  · rw [if_neg (show ¬ tool = (t.connect input' sourceOp source).name from htool),
      if_neg fun h => htool (congrArg Prod.fst h).symm]

theorem spline?_putModifier_of_ne (c : Composition) {m : Modifier} {name : String}
    (h : name ≠ m.name) : (c.putModifier m).spline? name = c.spline? name :=
  congrArg (Option.bind · Modifier.spline?) (c.modifiers.find?_put_of_ne h)

theorem name_of_spline? {name : String} {s : Spline} (h : c.spline? name = some s) :
    s.name = name := by
  obtain ⟨m, hm, hs⟩ := Option.bind_eq_some_iff.1 h
  cases m <;> cases hs
  exact Registry.nameOf_of_find? hm

theorem name_of_path? {name : String} {p : XYPath} (h : c.path? name = some p) :
    p.name = name := by
  obtain ⟨m, hm, hp⟩ := Option.bind_eq_some_iff.1 h
  cases m <;> cases hp
  exact Registry.nameOf_of_find? hm

theorem path?_eq_none_of_spline? {name : String} {s : Spline} (h : c.spline? name = some s) :
    c.path? name = none := by
  obtain ⟨m, hm, hs⟩ := Option.bind_eq_some_iff.1 h
  cases m <;> cases hs
  rw [path?, hm]
  rfl

theorem perform_animate (c : Composition) (tool input : String) (curve : Option Curve) :
    c.perform (.animate tool input curve) =
      match c.tool? tool with
      | some t => c.driven t input (.spline (c.newSpline (tool ++ input) curve))
      | none => c := by
  refine (state_ignore _ c).trans ?_
  rw [run_animate]
  cases c.tool? tool <;> rfl

namespace Animated

variable {tool input : String} {s : Spline}

theorem add (h : c.Animated tool input s) {o : Operator} (ho : o.name ≠ tool) :
    (c.add o).Animated tool input s where
  source := by
    have htool : (c.add o).tool? tool = c.tool? tool :=
      congrArg (Option.bind · Operator.tool?) (c.operators.find?_put_of_ne (Ne.symm ho))
    unfold sourceOf
    rw [htool]
    exact h.source
  spline := h.spline

theorem connect (h : c.Animated tool input s) {tool' : String} {t : Tool}
    (ht : c.tool? tool' = some t) {input' : String} (hne : (tool', input') ≠ (tool, input))
    (sourceOp source : String) :
    (c.putTool (t.connect input' sourceOp source)).Animated tool input s where
  source := by rw [sourceOf_connect ht, if_neg hne, h.source]
  spline := h.spline

theorem putModifier (h : c.Animated tool input s) {m : Modifier} (hm : m.name ≠ s.name) :
    (c.putModifier m).Animated tool input s where
  source := h.source
  spline := by rw [spline?_putModifier_of_ne c (Ne.symm hm), h.spline]

theorem driven (h : c.Animated tool input s) {tool' : String} {t : Tool}
    (ht : c.tool? tool' = some t) {input' : String} (hne : (tool', input') ≠ (tool, input))
    {m : Modifier} (hm : m.name ≠ s.name) : (c.driven t input' m).Animated tool input s :=
  (h.connect ht hne m.name "Value").putModifier hm

theorem change (h : c.Animated tool input s) (change : Spline.Change) :
    (c.putModifier (.spline (s.change change))).Animated tool input (s.change change) where
  source := by
    rw [Spline.name_change]
    exact h.source
  spline := spline?_putModifier c rfl

theorem contains (h : c.Animated tool input s) : c.operators.contains tool = true := by
  obtain ⟨t, ht, -⟩ := Option.bind_eq_some_iff.1 h.source
  rw [Registry.contains, c.tool?_eq_some_iff.1 ht]
  rfl

/-! ## What one command does -/

theorem perform_addMerge (h : c.Animated tool input s) {name : String}
    (background foreground : Option String) (position : Number × Number) (hname : name ≠ tool) :
    (c.perform (.addMerge name background foreground position)).Animated tool input s := by
  show ((addMerge name background foreground position).run c).state.Animated tool input s
  rcases c.addMerge_cases name background foreground position with ⟨e, he⟩ | ⟨hadds, -⟩
  · rw [he]
    exact h
  · rw [hadds]
    refine h.add ?_
    rwa [Operator.name, name_mergeTool]

theorem perform_setActive (h : c.Animated tool input s) (name : String) :
    (c.perform (.setActive name)).Animated tool input s := by
  show ((setActive name).run c).state.Animated tool input s
  rw [run_setActive]
  split
  · exact ⟨h.source, h.spline⟩
  · exact h

theorem perform_connect (h : c.Animated tool input s) (sourceOp output : String)
    {tool' input' : String} (hne : (tool', input') ≠ (tool, input)) :
    (c.perform (.connect sourceOp tool' output input')).Animated tool input s := by
  show ((Composition.connect sourceOp tool' output input').run c).state.Animated tool input s
  rw [run_connect, run_drive]
  split
  · cases ht : c.tool? tool' with
    | none => exact h
    | some t => exact h.connect ht hne sourceOp output
  · exact h

theorem perform_connectPublished (h : c.Animated tool input s) (published : String)
    {tool' input' : String} (hne : (tool', input') ≠ (tool, input)) :
    (c.perform (.connectPublished published tool' input')).Animated tool input s := by
  show ((Composition.connectPublished published tool' input').run c).state.Animated tool input s
  rw [run_connectPublished]
  split
  · exact h.perform_connect published "Value" hne
  · exact h

theorem perform_animate (h : c.Animated tool input s) {tool' input' : String}
    (curve : Option Curve) (hne : (tool', input') ≠ (tool, input))
    (hname : tool' ++ input' ≠ s.name) :
    (c.perform (.animate tool' input' curve)).Animated tool input s := by
  rw [Composition.perform_animate]
  cases ht : c.tool? tool' with
  | none => exact h
  | some t => exact h.driven ht hne hname

theorem perform_animateTool (h : c.Animated tool input s) {t : Tool} {input' : String}
    (curve : Option Curve) (hne : (t.name, input') ≠ (tool, input))
    (hname : t.name ++ input' ≠ s.name) :
    (c.perform (.animateTool t input' curve)).Animated tool input s := by
  cases ht : c.operators.contains t.name with
  | true =>
    have hsame : c.perform (.animateTool t input' curve) =
        c.perform (.animate t.name input' curve) := by
      refine (state_ignore _ c).trans (Eq.trans ?_ (state_ignore _ c).symm)
      rw [run_animateTool_of_contains c ht]
    rw [hsame]
    exact h.perform_animate curve hne hname
  | false =>
    have hstate : c.perform (.animateTool t input' curve) = _ := state_ignore _ c
    rw [hstate, run_animateTool_of_not_contains c ht]
    -- the tool that is added has another name, since that of the animated input is there
    have hadd : t.name ≠ tool := by
      rintro rfl
      rw [h.contains] at ht
      cases ht
    exact (h.add (o := .tool t) hadd).driven (c.tool?_add_self t) hne hname

theorem perform_animatePath (h : c.Animated tool input s) {tool' input' : String}
    (method : PathMethod) (xCurve yCurve : Option Curve) (hne : (tool', input') ≠ (tool, input))
    (hname : tool' ++ input' ++ "XYPath" ≠ s.name) :
    (c.perform (.animatePath tool' input' method xCurve yCurve)).Animated tool input s := by
  have hstate : c.perform (.animatePath tool' input' method xCurve yCurve) = _ := state_ignore _ c
  rw [hstate]
  cases method with
  | path => exact h
  | xyPath =>
    rw [run_animatePath_xyPath]
    cases ht : c.tool? tool' with
    | none => exact h
    | some t => exact h.driven ht hne hname

theorem perform_publish (h : c.Animated tool input s) {tool' input' : String} (value : Value)
    (hne : (tool', input') ≠ (tool, input)) (hname : "Publish" ++ tool' ++ input' ≠ s.name) :
    (c.perform (.publish tool' input' value)).Animated tool input s := by
  show ((publish tool' input' value).run c).state.Animated tool input s
  rw [run_publish]
  cases publisher? value with
  | none => exact h
  | some id =>
    cases ht : c.tool? tool' with
    | none => exact h
    | some t => exact h.driven ht hne hname

theorem perform_changeSpline (h : c.Animated tool input s) (name : String)
    (change : Spline.Change) :
    (c.perform (.changeSpline name change)).Animated tool input
      (s.changeAll ((Command.changeSpline name change).changesOf s.name)) := by
  show ((modifySpline name (·.change change)).run c).state.Animated tool input _
  rw [modifySpline, Edit.run_modify, Command.changesOf]
  by_cases hname : name = s.name
  · rw [if_pos hname, hname, h.spline]
    exact h.change change
  · rw [if_neg hname]
    cases hs : c.spline? name with
    | none => exact h
    | some s' =>
      refine h.putModifier (m := .spline (s'.change change)) ?_
      rwa [Modifier.name, Spline.name_change, name_of_spline? hs]

/-- What has the name of a spline is no path. -/
theorem perform_changePath (h : c.Animated tool input s) (name : String) (change : XYPath.Change) :
    (c.perform (.changePath name change)).Animated tool input s := by
  show ((modifyPath name (·.change change)).run c).state.Animated tool input s
  rw [modifyPath, Edit.run_modify]
  cases hp : c.path? name with
  | none => exact h
  | some p =>
    refine h.putModifier (m := .path (p.change change)) ?_
    intro hname
    have hkept : (p.change change).name = p.name := congrArg Prod.fst (p.names_change change)
    have hnone := path?_eq_none_of_spline? h.spline
    rw [← hname, Modifier.name, hkept, name_of_path? hp, hp] at hnone
    cases hnone

/-- **What one command does** to an animated input that it spares: nothing but the changes that are
meant for its spline. -/
theorem perform (h : c.Animated tool input s) {command : Command}
    (hspares : command.Spares tool input s.name) :
    (c.perform command).Animated tool input (s.changeAll (command.changesOf s.name)) := by
  obtain ⟨hadds, hconnects, hputs⟩ := hspares
  cases command with
  | addTool t => exact h.add (o := .tool t) (mt (congrArg some) hadds)
  | addMacro m => exact h.add (o := .group m) (mt (congrArg some) hadds)
  | addMerge name background foreground position =>
    exact h.perform_addMerge background foreground position (mt (congrArg some) hadds)
  | setActive name => exact h.perform_setActive name
  | connect sourceOp tool' output input' =>
    exact h.perform_connect sourceOp output (mt (congrArg some) hconnects)
  | connectPublished published tool' input' =>
    exact h.perform_connectPublished published (mt (congrArg some) hconnects)
  | animate tool' input' curve =>
    exact h.perform_animate curve (mt (congrArg some) hconnects) (mt (congrArg some) hputs)
  | animateTool t input' curve =>
    exact h.perform_animateTool curve (mt (congrArg some) hconnects) (mt (congrArg some) hputs)
  | animatePosition tool' input' xCurve yCurve =>
    exact h.perform_animatePath .xyPath xCurve yCurve (mt (congrArg some) hconnects)
      (mt (congrArg some) hputs)
  | animatePath tool' input' method xCurve yCurve =>
    exact h.perform_animatePath method xCurve yCurve (mt (congrArg some) hconnects)
      (mt (congrArg some) hputs)
  | publish tool' input' value =>
    exact h.perform_publish value (mt (congrArg some) hconnects) (mt (congrArg some) hputs)
  | changeSpline name change => exact h.perform_changeSpline name change
  | changePath name change => exact h.perform_changePath name change

/-! ## What a session does -/

/-- **What a session does** to an animated input that it spares. -/
theorem performAll (h : c.Animated tool input s) {session : List Command}
    (hspares : ∀ command ∈ session, command.Spares tool input s.name) :
    (c.performAll session).Animated tool input
      (s.changeAll (session.flatMap (·.changesOf s.name))) := by
  induction session generalizing c s with
  | nil => exact h
  | cons command rest ih =>
    have hfirst := h.perform (hspares command List.mem_cons_self)
    have hname : (s.changeAll (command.changesOf s.name)).name = s.name := s.name_changeAll _
    have hrest := ih hfirst fun next hnext => by
      rw [hname]
      exact hspares next (List.mem_cons_of_mem command hnext)
    rw [hname, ← Spline.changeAll_append] at hrest
    exact hrest

end Animated

/-- An input of a tool that is there is animated at once, by a spline without keyframes. -/
theorem animated_perform_animate {tool : String} (htool : c.IsTool tool) (input : String)
    (curve : Option Curve) :
    (c.perform (.animate tool input curve)).Animated tool input
      (c.newSpline (tool ++ input) curve) := by
  obtain ⟨t, ht⟩ := htool
  rw [perform_animate, ht]
  refine ⟨?_, spline?_putModifier _ rfl⟩
  exact (sourceOf_connect ht input _ _ tool input).trans (if_pos rfl)

/-- Animating another input never reconnects one that is animated. -/
theorem sourceOf_perform_animate (c : Composition) {tool input tool' input' : String}
    (hne : (tool', input') ≠ (tool, input)) (curve : Option Curve) :
    (c.perform (.animate tool' input' curve)).sourceOf tool input = c.sourceOf tool input := by
  rw [perform_animate]
  cases ht : c.tool? tool' with
  | none => rfl
  | some t => exact (sourceOf_connect ht input' _ _ tool input).trans (if_neg hne)

/-- Whatever has happened before, another input that is animated leaves this one connected as it is,
and its spline alone exactly if it does not put its own in the place. -/
theorem Animated.perform_animate_iff {tool input tool' input' : String} {s : Spline}
    (h : c.Animated tool input s) (hkeyframes : s.stored ≠ []) (htool' : c.IsTool tool')
    (hne : (tool', input') ≠ (tool, input)) (curve' : Option Curve) :
    (c.perform (.animate tool' input' curve')).Animated tool input s ↔
      tool' ++ input' ≠ s.name := by
  constructor
  · -- with one name for two splines, the one without keyframes is found there
    intro hanimated hname
    have hother := (animated_perform_animate htool' input' curve').spline
    rw [name_newSpline, hname, hanimated.spline] at hother
    exact hkeyframes (congrArg Spline.stored (Option.some.inj hother))
  · exact h.perform_animate curve' hne

/-- **Animating another input disturbs an animated one exactly if their splines get one name.** An
input is animated, and a session follows that spares it and gives it keyframes; its spline is what
these changes have made of it. When another input is animated then, both inputs are connected to
splines that are named after them, and the first spline is as it was exactly if the names differ,
which they do for two inputs of one tool. -/
theorem animate_spares_iff {tool input tool' input' : String} {session : List Command}
    (htool : c.IsTool tool) (hne : (tool', input') ≠ (tool, input)) (curve curve' : Option Curve)
    (hspares : ∀ command ∈ session, command.Spares tool input (tool ++ input)) :
    let s := (c.newSpline (tool ++ input) curve).changeAll
      (session.flatMap (·.changesOf (tool ++ input)))
    let c₁ := (c.perform (.animate tool input curve)).performAll session
    let c₂ := c₁.perform (.animate tool' input' curve')
    c₁.Animated tool input s ∧ (c₁.IsTool tool' → s.stored ≠ [] →
      c₂.sourceOf tool input = some (tool ++ input) ∧
      c₂.Animated tool' input' (c₁.newSpline (tool' ++ input') curve') ∧
      (c₂.Animated tool input s ↔ tool' ++ input' ≠ tool ++ input) ∧
      (tool' = tool → c₂.Animated tool input s)) := by
  intro s c₁ c₂
  have hname : s.name = tool ++ input := (c.newSpline (tool ++ input) curve).name_changeAll _
  have hbefore : c₁.Animated tool input s :=
    (animated_perform_animate htool input curve).performAll hspares
  refine ⟨hbefore, fun htool' hkeyframes => ?_⟩
  have hiff := hbefore.perform_animate_iff hkeyframes htool' hne curve'
  rw [hname] at hiff
  refine ⟨?_, animated_perform_animate htool' input' curve', hiff, ?_⟩
  · rw [sourceOf_perform_animate c₁ hne, hbefore.source, hname]
  · rintro rfl
    refine hiff.2 fun heq => hne ?_
    rw [(String.append_right_inj tool').1 heq]

/-- Two tools of which one is named like the other with a letter behind. -/
def prefixedTools : List Command :=
  [.addTool { id := "Background", name := "A" }, .addTool { id := "Blur", name := "AB" }]

/-- Keyframes for the spline of the input `BC` of `A`. -/
def keyframesABC : Command :=
  .changeSpline "ABC" (.addAll [(0, .number 1), (24, .number 5)] none)

theorem animate_spares_iff_prefixedTools :
    let c := performAll {} prefixedTools
    let c₁ := (c.perform (.animate "A" "BC" none)).performAll [keyframesABC]
    c.IsTool "A" ∧ keyframesABC.Spares "A" "BC" ("A" ++ "BC") ∧ c₁.IsTool "A" ∧
      (c₁.perform (.animate "A" "B" none)).Animated "A" "BC"
        ((c.newSpline "ABC" none).addAll [(0, .number 1), (24, .number 5)] none) := by
  intro c c₁
  have htool : c.IsTool "A" := Option.isSome_iff_exists.1 (by decide)
  have htool' : c₁.IsTool "A" := Option.isSome_iff_exists.1 (by decide)
  have hne : ("A", "B") ≠ ("A", "BC") := by decide
  have hspares : keyframesABC.Spares "A" "BC" ("A" ++ "BC") := ⟨nofun, nofun, nofun⟩
  obtain ⟨-, hother⟩ :=
    animate_spares_iff htool hne none none (List.forall_mem_singleton.2 hspares)
  exact ⟨htool, hspares, htool', (hother htool' (by decide)).2.2.2 rfl⟩

/-- The input `C` of `AB` gets a spline of the name that the input `BC` of `A` has, and the
keyframes are gone. -/
theorem not_forall_animate_spares :
    ¬ ∀ (session : List Command) (tool input tool' input' : String) (s : Spline)
      (curve' : Option Curve), (performAll {} session).Animated tool input s → s.stored ≠ [] →
        (performAll {} session).IsTool tool' → (tool', input') ≠ (tool, input) →
        ((performAll {} session).perform (.animate tool' input' curve')).Animated tool input s := by
  intro h
  let session := prefixedTools ++ [.animate "A" "BC" none, keyframesABC]
  have hbefore : ((performAll {} session).spline? "ABC").map (·.length) = some 2 := by decide
  have hbehind : (((performAll {} session).perform (.animate "AB" "C" none)).spline? "ABC").map
      (·.length) = some 0 := by decide
  obtain ⟨s, hs, hlength⟩ := Option.map_eq_some_iff.1 hbefore
  have hname : s.name = "ABC" := name_of_spline? hs
  have hanimated : (performAll {} session).Animated "A" "BC" s :=
    ⟨hname ▸ by decide, hname ▸ hs⟩
  have hkeyframes : s.stored ≠ [] := by
    intro hempty
    rw [Spline.length, hempty] at hlength
    cases hlength
  have hkept := h session "A" "BC" "AB" "C" s none hanimated hkeyframes
    (Option.isSome_iff_exists.1 (by decide)) (by decide)
  rw [← hname, hkept.spline, Option.map_some, hlength] at hbehind
  cases hbehind

end Composition

end SceneScript
