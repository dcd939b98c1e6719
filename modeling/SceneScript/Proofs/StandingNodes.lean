import SceneScript.Proofs.WiredInputs

/-!
# What stands under a name

A node that is added again replaces the one that has its name, whole, with everything that was
connected to it. So under a name stands the node that was added last, with the wires that were drawn
to it since and none from before. The registry of nodes alone does not say so: it keeps one node for
each name and no record of others.

A session is therefore taken for what it does to nodes, which is two things: it places nodes, and it
draws wires to inputs of tools. One command that succeeds does so at most twice, and what it does
may depend on what is there: a merge takes up the outputs of its sources, and a tool that is to be
animated is placed only if its name is free.

Main statements:

- `operators_perform`: the nodes after one command;
- `operators_performAll`: the nodes after a session are what its changes make of nothing;
- `find?_foldl_run`: after any changes, the node placed last is found under its name, with the wires
  since.
-/

namespace SceneScript

/-! ## Changes of nodes -/

namespace Operator

/-- A node with an input connected, if it is a tool. -/
def wired (o : Operator) (w : Wire) : Operator :=
  match o with
  | .tool t => .tool (t.connect w.input w.sourceOp w.source)
  | .group m => .group m

theorem name_wired (o : Operator) (w : Wire) : (o.wired w).name = o.name := by
  cases o <;> rfl

end Operator

/-- One change of the nodes of a composition. -/
inductive NodeChange
  | placed (operator : Operator)
  | wired (wire : Wire)

namespace NodeChange

/-- The nodes after a change. -/
def run (operators : Registry Operator) : NodeChange → Registry Operator
  | .placed o => operators.put o
  | .wired w => operators.modify w.tool (·.wired w)

/-- The wire that is drawn to the node of a name. -/
def wireTo? (name : String) : NodeChange → Option Wire
  | .placed _ => none
  | .wired w => if w.tool = name then some w else none

/-- The node of a name that is placed last, and the changes behind it. -/
def lastPlaced? (name : String) : List NodeChange → Option (Operator × List NodeChange)
  | [] => none
  | .placed o :: rest => (lastPlaced? name rest).or (if o.name = name then some (o, rest) else none)
  | .wired _ :: rest => lastPlaced? name rest

/-- What stands under a name: the node placed last, with the wires drawn to it since. -/
def standing (name : String) (changes : List NodeChange) : Option Operator :=
  (lastPlaced? name changes).map fun p =>
    (p.2.filterMap (wireTo? name)).foldl Operator.wired p.1

variable {name : String}

theorem lastPlaced?_concat (changes : List NodeChange) (change : NodeChange) :
    lastPlaced? name (changes ++ [change]) =
      (lastPlaced? name [change]).or
        ((lastPlaced? name changes).map fun p => (p.1, p.2 ++ [change])) := by
  induction changes with
  | nil => simp [lastPlaced?]
  | cons first rest ih =>
    cases first with
    | wired w => exact ih
    | placed o =>
      rw [List.cons_append, lastPlaced?, ih, lastPlaced?, Option.or_assoc]
      congr 1
      cases lastPlaced? name rest with
      | some p => rfl
      | none => split <;> rfl

/-- A change that does not place a node of the name draws a wire to the one that stands there, or
leaves it alone. -/
theorem standing_concat {changes : List NodeChange} {change : NodeChange}
    (h : lastPlaced? name [change] = none) :
    standing name (changes ++ [change]) =
      (standing name changes).map fun o => (wireTo? name change).elim o o.wired := by
  rw [standing, lastPlaced?_concat, h, Option.none_or, standing, Option.map_map, Option.map_map]
  refine congrFun (congrArg Option.map (funext fun p => ?_)) _
  rw [Function.comp_apply, Function.comp_apply, List.filterMap_append, List.foldl_append]
  cases hwire : wireTo? name change <;> simp [hwire]

theorem standing_placed (changes : List NodeChange) (o : Operator) :
    standing name (changes ++ [.placed o]) =
      if name = o.name then some o else standing name changes := by
  by_cases hname : name = o.name
  · rw [if_pos hname]
    simp [standing, lastPlaced?_concat, lastPlaced?, hname]
  · rw [if_neg hname, standing_concat (by simp [lastPlaced?, Ne.symm hname])]
    exact Option.map_id'

theorem standing_wired (changes : List NodeChange) (w : Wire) :
    standing name (changes ++ [.wired w]) =
      if name = w.tool then (standing name changes).map (·.wired w) else standing name changes := by
  rw [standing_concat rfl]
  by_cases hname : name = w.tool
  · simp [wireTo?, hname]
  · simp [wireTo?, hname, Ne.symm hname]

/-- **After any changes** the node that was placed last is found under its name, with the wires that
were drawn to it since. -/
theorem find?_foldl_run (changes : List NodeChange) (name : String) :
    (changes.foldl run ∅).find? name = standing name changes := by
  -- from the end, since the last change decides
  induction changes using List.reverseRecOn with
  | nil => rfl
  | append_singleton changes change ih =>
    rw [List.foldl_append]
    cases change with
    | placed o =>
      rw [standing_placed, ← ih]
      exact Registry.find?_put _ o name
    | wired w =>
      rw [standing_wired, ← ih]
      exact Registry.find?_modify _ (fun o => o.name_wired w) w.tool name

end NodeChange

/-- What a command does to nodes if it succeeds. -/
def Command.nodeChanges (c : Composition) : Command → List NodeChange
  | .addTool t => [.placed (.tool t)]
  | .addMacro m => [.placed (.group m)]
  | .addMerge name background foreground position =>
    [.placed (.tool (c.mergeTool name background foreground position))]
  | .animateTool t input _ =>
    (if c.operators.contains t.name then [] else [.placed (.tool t)]) ++
      [.wired ⟨t.name, input, t.name ++ input, "Value"⟩]
  | command => (command.wire?.map NodeChange.wired).toList

namespace Composition

open Edit (isOk_iff_succeeds state_ignore succeeds_of_ignore)

variable {c : Composition}

/-- What a session does to nodes, by the commands that succeed. -/
def nodeChanges (c : Composition) : List Command → List NodeChange
  | [] => []
  | command :: rest =>
    if (command.edit.run c).result.isOk then
      command.nodeChanges c ++ (c.perform command).nodeChanges rest
    else (c.perform command).nodeChanges rest

/-! ## One command -/

/-- The tool that a wire is drawn to is put back with the input connected. -/
theorem operators_connect {w : Wire} {t : Tool} (ht : c.tool? w.tool = some t) :
    (c.putTool (t.connect w.input w.sourceOp w.source)).operators =
      NodeChange.run c.operators (.wired w) := by
  have hfind : c.operators.find? w.tool = some (.tool t) := c.tool?_eq_some_iff.1 ht
  show _ = c.operators.modify w.tool (·.wired w)
  rw [Registry.modify, hfind]
  rfl

theorem Draws.operators {w : Wire} {made : Option String} {c' : Composition}
    (h : Draws w c made c') : c'.operators = NodeChange.run c.operators (.wired w) := by
  cases h with
  | connected ht => exact operators_connect ht
  | driven ht _ => exact operators_connect ht

theorem operators_animateTool {t : Tool} {input : String} {curve : Option Curve}
    (h : (animateTool t input curve).Succeeds c) :
    ((animateTool t input curve).run c).state.operators =
      ((Command.animateTool t input curve).nodeChanges c).foldl NodeChange.run c.operators := by
  rw [(draws_run_animateTool h).operators, Command.nodeChanges]
  split <;> rfl

theorem operators_of_wire? {command : Command} {w : Wire} (hw : command.wire? = some w)
    (h : command.edit.Succeeds c) :
    (c.perform command).operators = NodeChange.run c.operators (.wired w) :=
  (draws_perform hw h).operators

/-- **The nodes after one command** that succeeds are what its changes make of those before it. -/
theorem operators_perform {command : Command} (h : command.edit.Succeeds c) :
    (c.perform command).operators =
      (command.nodeChanges c).foldl NodeChange.run c.operators := by
  cases command with
  | addTool t => rfl
  | addMacro m => rfl
  | addMerge name background foreground position => exact congrArg operators (state_addMerge h)
  | setActive name =>
    rw [perform, Command.edit, run_setActive]
    split <;> rfl
  | animateTool t input curve =>
    rw [perform, Command.edit, state_ignore]
    exact operators_animateTool (succeeds_of_ignore h)
  | animatePath tool input method xCurve yCurve =>
    cases method with
    | path => obtain ⟨a, ⟨⟩⟩ := h
    | xyPath => exact operators_of_wire? rfl h
  | connect | connectPublished | animate | animatePosition | publish =>
    exact operators_of_wire? rfl h
  | changeSpline name change =>
    rcases c.modifySpline_cases name change with hsame | ⟨s, -, hput⟩
    · exact congrArg (fun outcome => outcome.state.operators) hsame
    · exact congrArg (fun outcome => outcome.state.operators) hput
  | changePath name change =>
    rcases c.modifyPath_cases name change with hsame | ⟨p, -, hput⟩
    · exact congrArg (fun outcome => outcome.state.operators) hsame
    · exact congrArg (fun outcome => outcome.state.operators) hput

/-! ## A session -/

/-- **The nodes after a session** are what its changes make of those before it. -/
theorem operators_performAll (c : Composition) (session : List Command) :
    (c.performAll session).operators =
      (c.nodeChanges session).foldl NodeChange.run c.operators := by
  induction session generalizing c with
  | nil => rfl
  | cons command rest ih =>
    show ((c.perform command).performAll rest).operators = _
    rw [ih, nodeChanges]
    by_cases hsucceeds : command.edit.Succeeds c
    · rw [if_pos (isOk_iff_succeeds.2 hsucceeds), List.foldl_append, operators_perform hsucceeds]
    · rw [if_neg (mt isOk_iff_succeeds.1 hsucceeds), perform_of_not_succeeds hsucceeds]

/-- In a session that starts from nothing, what was added last under a name stands there. -/
theorem find?_performAll (options : Options) (session : List Command) (name : String) :
    (performAll { options } session).operators.find? name =
      NodeChange.standing name (nodeChanges { options } session) := by
  rw [operators_performAll, ← NodeChange.find?_foldl_run]

end Composition

end SceneScript
