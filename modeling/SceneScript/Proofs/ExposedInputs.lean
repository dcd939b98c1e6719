import Mathlib.Data.List.Find
import SceneScript.Proofs.InsertionOrder
import SceneScript.Proofs.MacroCommands

/-!
# The wiring of exposed inputs

A macro shows an exposed input under the joined names of its tool and of the input there. The entry
says what the two names are, and the properties that were set are written over that. So the wiring
can be lost in two ways: another input with the same joined name is exposed later, or a property is
called like a part of the wiring. There is no third one: whatever else is exposed and set, and in
whatever order, an exposed input stays what it was exposed for.

The invariant is about the inputs as they are found: under each name it is the last one exposed, and
each of its properties was set by some command.

Main statements:

- `Exposes.performAll`: the exposed inputs of a macro are what its commands have made of them;
- `InstanceInput.find?_table`: properties are shown in place of the wiring;
- `inputs_keep_wiring`: an exposed input shows its tool and its name there, unless another one has
  taken its name or a property is in the way;
- `not_showsAll`: both exceptions happen.
-/

namespace SceneScript

/-! ## The table of an exposed input -/

namespace InstanceInput

/-- What an exposed input stands for, without its properties. -/
def wiring (i : InstanceInput) : Table :=
  .record "InstanceInput" [("SourceOp", .text i.sourceOp), ("Source", .text i.source),
    ("Default", i.default.getD .null)]

/-- Properties are shown in place of the wiring. -/
theorem find?_table {i : InstanceInput} (h : Entries.KeysApart i.properties.entries.toList)
    {k : Key} {v : Value} (hk : i.wiring.find? k = some v) :
    i.table.find? k = some ((i.properties.find? k).getD v) := by
  have hoverlay : i.table.find? k = (i.properties.find? k).or (i.wiring.find? k) :=
    i.wiring.entries.find?_insertMany_toList h k
  rw [hoverlay, hk, Option.or_some]

end InstanceInput

/-- In a table of what is registered everything is found under its name. -/
theorem Registry.find?_record {α : Type} [Named α] (r : Registry α) (tag : String)
    (value : α → Value) (name : String) :
    (TableOf.record tag (r.items.map fun a => (nameOf a, value a))).find? (.name name) =
      (r.find? name).map value := by
  show (((r.items.map fun a => (nameOf a, value a)).map fun f => (Key.name f.1, f.2)).lookup
    (.name name)) = (r.items.find? (nameOf · == name)).map value
  induction r.items with
  | nil => rfl
  | cons a rest ih =>
    rw [List.map_cons, List.map_cons, List.lookup_cons, ih, List.find?_cons, Key.beq_name,
      BEq.comm (a := name)]
    cases nameOf a == name <;> rfl

namespace Macro

/-- The entry under a name in the inputs that a macro shows. -/
def shownInput? (m : Macro) (options : Options) (name : String) : Option Table :=
  ((m.table options).table? (.name "Inputs")).bind (·.table? (.name name))

theorem shownInput?_of_find? {m : Macro} {name : String} {i : InstanceInput}
    (h : m.inputs.find? name = some i) (options : Options) :
    m.shownInput? options name = some i.table := by
  have hempty : m.inputs.isEmpty = false := by
    rw [Registry.isEmpty, List.isEmpty_eq_false_iff]
    exact List.ne_nil_of_mem (List.mem_of_find?_eq_some h)
  have hinputs : (m.table options).table? (.name "Inputs") =
      some (.record orderedTag (m.inputs.items.map fun i => (i.name, .table i.table))) := by
    show (if m.inputs.isEmpty then Value.null else _).table? = _
    rw [hempty]
    rfl
  have hentry := m.inputs.find?_record orderedTag (fun i => .table i.table) name
  rw [h] at hentry
  rw [shownInput?, hinputs]
  exact congrArg (Option.bind · Value.table?) hentry

/-! ## Commands that expose inputs -/

namespace Command

/-- The inputs that a command exposes, each with its tool. -/
def exposures : Command → List (String × String)
  | .exposeInput tool input => [(tool, input)]
  | .exposeColor tool _ before behind _ =>
    channels.map fun channel => (tool, before ++ channel ++ behind)
  | _ => []

/-- Whether a command sets a property of the exposed input of a name, be it at once. -/
def setsProperty (command : Command) (name property : String) : Bool :=
  match command with
  | .setProperty name' property' _ => name' == name && property' == property
  | _ => command.inputs.any fun i => i.name == name && i.properties.contains (.name property)

theorem map_origin_inputs (command : Command) :
    command.inputs.map InstanceInput.origin = command.exposures := by
  cases command with
  | exposeColor tool group before behind properties =>
    rw [inputs, channelInputs, List.map_map]
    simp only [Function.comp_def, origin_setChannel]
    rfl
  | _ => rfl

theorem keysApart_of_mem_inputs {command : Command} {i : InstanceInput} (hi : i ∈ command.inputs) :
    Entries.KeysApart i.properties.entries.toList := by
  cases command with
  | exposeInput tool input =>
    obtain rfl := List.mem_singleton.1 hi
    exact .nil
  | exposeColor tool group before behind properties =>
    obtain ⟨e, -, rfl⟩ := List.mem_map.1 hi
    refine Entries.keysApart_insertMany (Entries.keysApart_insert ?_ _ _) _
    split
    · exact Entries.keysApart_insert .nil _ _
    · exact .nil
  | _ => cases hi

theorem setsProperty_of_mem_inputs {command : Command} {i : InstanceInput} {property : String}
    (hi : i ∈ command.inputs) (h : i.properties.contains (.name property) = true) :
    command.setsProperty i.name property = true := by
  have hany : (command.inputs.any fun i' =>
      i'.name == i.name && i'.properties.contains (.name property)) = true :=
    List.any_eq_true.2 ⟨i, hi, by rw [beq_self_eq_true, h]; rfl⟩
  cases command with
  | exposeInput _ _ | exposeColor _ _ _ _ _ => exact hany
  | _ => cases hi

theorem origin_find?_modify (inputs : Registry InstanceInput) {f : InstanceInput → InstanceInput}
    (hname : ∀ i, nameOf (f i) = nameOf i) (horigin : ∀ i, (f i).origin = i.origin)
    (name name' : String) :
    ((inputs.modify name' f).find? name).map InstanceInput.origin =
      (inputs.find? name).map InstanceInput.origin := by
  rw [inputs.find?_modify hname]
  split
  · rw [Option.map_map]
    exact congrArg (Option.map · _) (funext horigin)
  · rfl

/-- Settings do not change what an input was exposed for. -/
theorem origin_find?_configured (command : Command) (inputs : Registry InstanceInput)
    (name : String) :
    ((command.configured inputs).find? name).map InstanceInput.origin =
      (inputs.find? name).map InstanceInput.origin := by
  cases command with
  | setDefault name' value =>
    exact origin_find?_modify inputs (f := (·.setDefault value)) (fun _ => rfl) (fun _ => rfl) ..
  | setProperty name' property value =>
    exact origin_find?_modify inputs (f := (·.setProperty property value)) (fun _ => rfl)
      (fun _ => rfl) ..
  | _ => rfl

end Command

/-- Of several inputs with their tools the last one that has a joined name. -/
def latest (exposures : List (String × String)) (name : String) : Option (String × String) :=
  exposures.reverse.find? fun e => e.1 ++ e.2 == name

theorem latest_append (exposures more : List (String × String)) (name : String) :
    latest (exposures ++ more) name = (latest more name).or (latest exposures name) := by
  rw [latest, List.reverse_append, List.find?_append]
  rfl

/-- What shares its joined name with no other is the last one that has it. -/
theorem latest_of_unique {exposures : List (String × String)} {e : String × String}
    (he : e ∈ exposures) (hunique : ∀ e' ∈ exposures, e'.1 ++ e'.2 = e.1 ++ e.2 → e' = e) :
    latest exposures (e.1 ++ e.2) = some e := by
  cases hlatest : latest exposures (e.1 ++ e.2) with
  | none =>
    -- `e` itself would have been found
    have hnone := List.find?_eq_none.1 hlatest e (List.mem_reverse.2 he)
    rw [beq_self_eq_true] at hnone
    exact absurd rfl hnone
  | some e' =>
    have hmem : e' ∈ exposures := List.mem_reverse.1 (List.mem_of_find?_eq_some hlatest)
    have hname : (e'.1 ++ e'.2 == e.1 ++ e.2) = true :=
      List.find?_some (p := fun e' : String × String => e'.1 ++ e'.2 == e.1 ++ e.2) hlatest
    rw [hunique e' hmem (eq_of_beq hname)]

theorem latest_append_cons (before : List (String × String)) {behind : List (String × String)}
    {e : String × String} (hbehind : ∀ e' ∈ behind, e'.1 ++ e'.2 = e.1 ++ e.2 → e' = e) :
    latest (before ++ e :: behind) (e.1 ++ e.2) = some e := by
  have hlast : latest (e :: behind) (e.1 ++ e.2) = some e :=
    latest_of_unique List.mem_cons_self (List.forall_mem_cons.2 ⟨fun _ => rfl, hbehind⟩)
  rw [latest_append, hlast]
  rfl

/-- Which of the inputs that a command exposes is found under a name. -/
theorem origin_find?_inputs (command : Command) (name : String) :
    (command.inputs.reverse.find? (nameOf · == name)).map InstanceInput.origin =
      latest command.exposures name := by
  rw [latest, ← command.map_origin_inputs, ← List.map_reverse, List.find?_map]
  refine congrArg (Option.map _) (List.find?_congr fun i hi => ?_)
  exact congrArg (· == name) (Command.needs_of_mem_inputs (List.mem_reverse.1 hi)).2

/-! ## The invariant -/

/-- Whether the exposed inputs of a macro are what commands have made of them. -/
structure Exposes (m : Macro) (commands : List Command) : Prop where
  /-- Under each name there is the input that was exposed last. -/
  latest : ∀ name, (m.inputs.find? name).map InstanceInput.origin =
    latest (commands.flatMap Command.exposures) name
  apart : ∀ i ∈ m.inputs.items, Entries.KeysApart i.properties.entries.toList
  /-- Every property was set. -/
  set : ∀ i ∈ m.inputs.items, ∀ property, i.properties.contains (.name property) = true →
    ∃ command ∈ commands, command.setsProperty i.name property = true

variable {m : Macro} {commands : List Command}

theorem Exposes.perform (h : m.Exposes commands) {command : Command}
    (hsucceeds : command.edit.Succeeds m) :
    (m.perform command).Exposes (commands ++ [command]) where
  latest name := by
    rw [perform_of_succeeds hsucceeds, Command.origin_find?_configured, Registry.find?_putAll,
      Option.map_or, origin_find?_inputs, h.latest, List.flatMap_append, latest_append,
      List.flatMap_singleton]
  apart i hi := by
    rcases mem_inputs_perform hsucceeds hi with hi | hi | ⟨i', hi', hconfigures⟩
    · exact h.apart i hi
    · exact Command.keysApart_of_mem_inputs hi
    · cases hconfigures with
      | setDefault _ value => exact h.apart i' hi'
      | setProperty _ property value => exact Entries.keysApart_insert (h.apart i' hi') _ _
  set i hi property hproperty := by
    have hbefore : ∀ i' ∈ m.inputs.items, i'.properties.contains (.name property) = true →
        ∃ command' ∈ commands ++ [command], command'.setsProperty i'.name property = true := by
      intro i' hi' hcontains
      obtain ⟨command', hmem, hsets⟩ := h.set i' hi' property hcontains
      exact ⟨command', List.mem_append_left _ hmem, hsets⟩
    have hlast : command ∈ commands ++ [command] := List.mem_append_right _ List.mem_cons_self
    -- a property is there by an older command, or by the one that exposes or configures the input
    rcases mem_inputs_perform hsucceeds hi with hi | hi | ⟨i', hi', hconfigures⟩
    · exact hbefore i hi hproperty
    · exact ⟨command, hlast, Command.setsProperty_of_mem_inputs hi hproperty⟩
    · cases hconfigures with
      | setDefault _ value => exact hbefore i' hi' hproperty
      | setProperty _ property' value =>
        have hinsert : (property == property' || i'.properties.contains (.name property)) = true :=
          (Entries.contains_insert i'.properties.entries (.name property') (.name property)
            value).symm.trans hproperty
        rcases Bool.or_eq_true_iff.1 hinsert with hsame | hcontains
        · refine ⟨_, hlast, ?_⟩
          rw [Command.setsProperty, eq_of_beq hsame]
          simp [InstanceInput.setProperty]
        · exact hbefore i' hi' hcontains

/-- **The exposed inputs after a session** are what its successful commands have made of them. -/
theorem Exposes.performAll (h : m.Exposes commands) (session : List Command) :
    (m.performAll session).Exposes (commands ++ m.succeeded session) :=
  succeeded_induction (P := Exposes) (fun _ _ _ h hsucceeds => h.perform hsucceeds) session h

theorem exposes_new {m : Macro} (h : m.inputs = ∅) : m.Exposes [] where
  latest name := by rw [h]; rfl
  apart := by rw [h]; exact nofun
  set := by rw [h]; exact nofun

/-! ## What a macro shows -/

/-- **An exposed input keeps its wiring.** In a session that starts with a new macro, let an input of
a tool be exposed by a command that succeeds, on its own or as the channel of a color, and let no
other be exposed after it whose joined name is the same. Then the macro shows an entry under this
name that says what the tool and the input are. Only a property that was set under the name of one
of the two is shown in its place, and what no command has set is not a property. -/
theorem inputs_keep_wiring (name : String) (position : Number × Number)
    (tileColor : Option Color) (options : Options) (session : List Command)
    (tool input : String) (before behind : List (String × String)) :
    let new : Macro := { name, position, tileColor }
    let m := new.performAll session
    let commands := new.succeeded session
    commands.flatMap Command.exposures = before ++ (tool, input) :: behind →
      (∀ e ∈ behind, e.1 ++ e.2 = tool ++ input → e = (tool, input)) →
      ∃ i entry, m.inputs.find? (tool ++ input) = some i ∧
        m.shownInput? options (tool ++ input) = some entry ∧
        entry.find? (.name "SourceOp") =
          some ((i.properties.find? (.name "SourceOp")).getD (.text tool)) ∧
        entry.find? (.name "Source") =
          some ((i.properties.find? (.name "Source")).getD (.text input)) ∧
        ∀ property,
          (∀ command ∈ commands, command.setsProperty (tool ++ input) property = false) →
            i.properties.find? (.name property) = none := by
  intro new m commands hexposed hbehind
  have hexposes : m.Exposes commands := (exposes_new (m := new) rfl).performAll session
  have hlatest : (m.inputs.find? (tool ++ input)).map InstanceInput.origin = some (tool, input) := by
    rw [hexposes.latest, hexposed]
    exact latest_append_cons before hbehind
  -- so the tool and the input are those of what is found under the joined name
  obtain ⟨i, hi, horigin⟩ := Option.map_eq_some_iff.1 hlatest
  have hmem : i ∈ m.inputs.items := List.mem_of_find?_eq_some hi
  have hname : i.name = tool ++ input := Registry.nameOf_of_find? hi
  obtain ⟨rfl, rfl⟩ := Prod.mk.inj horigin
  refine ⟨i, i.table, hi, shownInput?_of_find? hi options,
    InstanceInput.find?_table (hexposes.apart i hmem) rfl,
    InstanceInput.find?_table (hexposes.apart i hmem) rfl, ?_⟩
  intro property hunset
  by_contra hset
  obtain ⟨command, hcommand, hsets⟩ :=
    hexposes.set i hmem property (Option.isSome_iff_ne_none.2 hset)
  rw [hname, hunset command hcommand] at hsets
  cases hsets

/-- A session that exposes a color and sets further properties on its channels; one command fails,
and an input is exposed again with a default. -/
def exposedColor : List Command :=
  [.addTool { id := "TextPlus", name := "Title" }, .exposeInput "Title" "Size",
    .exposeColor "Title" 1 "" "1" (.ofEntries [(.name "Page", .text "Text")]),
    .exposeInput "Gone" "Size", .setProperty "TitleRed1" "Name" (.text "Ink"),
    .exposeInput "Title" "Size", .setDefault "TitleSize" (.number 1)]

theorem inputs_keep_wiring_exposedColor :
    let m := performAll { name := "Group" } exposedColor
    (succeeded { name := "Group" } exposedColor).flatMap Command.exposures =
        [("Title", "Size")] ++ ("Title", "Red1") ::
          [("Title", "Green1"), ("Title", "Blue1"), ("Title", "Alpha1"), ("Title", "Size")] ∧
      ∃ entry, m.shownInput? {} ("Title" ++ "Red1") = some entry ∧
        entry.find? (.name "SourceOp") = some (.text "Title") ∧
        entry.find? (.name "Source") = some (.text "Red1") := by
  intro m
  have hexposed : (succeeded { name := "Group" } exposedColor).flatMap Command.exposures =
      [("Title", "Size")] ++ ("Title", "Red1") ::
        [("Title", "Green1"), ("Title", "Blue1"), ("Title", "Alpha1"), ("Title", "Size")] := by
    decide
  obtain ⟨i, entry, -, hentry, hsourceOp, hsource, hunset⟩ :=
    inputs_keep_wiring "Group" (0, 0) none {} exposedColor "Title" "Red1" _ _ hexposed (by decide)
  rw [hunset "SourceOp" (by decide)] at hsourceOp
  rw [hunset "Source" (by decide)] at hsource
  exact ⟨hexposed, entry, hentry, hsourceOp, hsource⟩

/-- Whether some entry of the inputs of a macro says that it stands for an input of a tool. -/
def showsInput (m : Macro) (options : Options) (tool input : String) : Bool :=
  ((m.table options).table? (.name "Inputs")).any fun inputs =>
    inputs.entries.values.any fun v => v.table?.any fun entry =>
      (entry.find? (.name "SourceOp")).bind Value.text? == some tool &&
        (entry.find? (.name "Source")).bind Value.text? == some input

/-- Whether every input that a session exposes is shown by the macro in the end. -/
def ShowsAll (new : Macro) (options : Options) (session : List Command) : Prop :=
  ∀ e ∈ (new.succeeded session).flatMap Command.exposures,
    (new.performAll session).showsInput options e.1 e.2 = true

instance (new : Macro) (options : Options) (session : List Command) :
    Decidable (new.ShowsAll options session) :=
  inferInstanceAs (Decidable (∀ e ∈ _, _))

/-- A session that sets a property with the name of a part of the wiring. -/
def replacedSource : List Command :=
  [.addTool { id := "Blur", name := "Soft" }, .exposeInput "Soft" "Size",
    .setProperty "SoftSize" "SourceOp" (.text "Other")]

/-- A session that exposes two inputs with the same joined name. -/
def sharedName : List Command :=
  [.addTool { id := "Background", name := "A" }, .addTool { id := "Blur", name := "AB" },
    .exposeInput "A" "BC", .exposeInput "AB" "C"]

/-- The wiring is lost by a property of its name, and by another input under the same joined name. -/
theorem not_showsAll :
    ¬ ShowsAll { name := "Group" } {} replacedSource ∧
      ¬ ShowsAll { name := "Group" } {} sharedName := by
  decide

end Macro

end SceneScript
