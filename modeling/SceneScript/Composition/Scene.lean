import SceneScript.Composition.Basic
import SceneScript.Render

/-!
# The scene of a composition

A composition is written as one table: all nodes and then all modifiers, each in the order in which
its name was first used, and at last the active tool.

Main statements:

- `TableOf.write_eq_ok_iff`: the records are left beside the text and do not change it.
-/

namespace SceneScript

namespace TableOf

/-- The text of a table and a record of every table in it. -/
def write (t : TableOf Value) : Logged (Except Error String) :=
  ⟨t.render.mapError .unsupported, t.trace.map .begun⟩

theorem write_eq_ok_iff {t : TableOf Value} {text : String} :
    t.write.value = .ok text ↔ t.render = .ok text := by
  have hwrite : t.write.value = t.render.mapError .unsupported := rfl
  rw [hwrite]
  cases t.render with
  | ok s => exact ⟨fun h => congrArg _ (Except.ok.inj h), fun h => congrArg _ (Except.ok.inj h)⟩
  | error c => exact iff_of_false (fun h => nomatch h) (fun h => nomatch h)

end TableOf

namespace Composition

/-- The tables of all nodes and modifiers with their names. -/
def tables (c : Composition) : List (String × Table) :=
  c.operators.items.map (fun o => (o.name, o.table c.options)) ++
    c.modifiers.items.flatMap (·.tables c.options)

/-- All nodes and modifiers; of two with one name the later is written where the earlier stood. -/
def toolTable (c : Composition) : Table :=
  { TableOf.ofEntries (c.tables.map fun e => (.name e.1, .table e.2)) with
    name := orderedTag, forceIndent := true }

/-- The record that is left when no node was made active but one was added. -/
def defaultNote (c : Composition) : List Event :=
  if c.active.isNone then (c.lastAdded.map Event.activeByDefault).toList else []

/-- The scene as a table; an empty composition has none. -/
def render (c : Composition) : Logged (Except Error Table) :=
  if c.isEmpty then ⟨.error .emptyComposition, []⟩
  else ⟨.ok (.record "" [("Tools", .table c.toolTable),
    ("ActiveTool", .ofOption .text c.activeTool)]), c.defaultNote⟩

/-- The scene as text. -/
def write (c : Composition) : Logged (Except Error String) := do
  match ← c.render with
  | .ok t => t.write
  | .error e => return .error e

end Composition

end SceneScript
