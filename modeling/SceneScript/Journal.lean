import SceneScript.Piece

/-!
# The journal

What happens in building and writing a scene leaves records: each table begun, each strength of a
curve that had to be changed, and what is added to a composition. A record has a severity and a
message. `Logged` carries a value together with the records its making has left.
-/

namespace SceneScript

inductive Severity
  | trace
  | debug
  | warn
deriving DecidableEq

namespace Severity

def text : Severity → String
  | .trace => "TRACE"
  | .debug => "DEBUG"
  | .warn => "WARN"

end Severity

/-- What drives an animated input. -/
inductive Drive
  | spline
  | path
deriving DecidableEq

/-- Something that the journal records. -/
inductive Event
  | begun (visit : Visit)
  | strengthMissing (used : Binary64)
  | strengthHeld (given used : Binary64)
  | added (name : String)
  /-- A tool that is animated is not in the composition yet. -/
  | addedToAnimate (name : String)
  | animated (tool input : String) (drive : Drive) (name : String)
  /-- No tool was made active, so the one added last is. -/
  | activeByDefault (name : String)
deriving DecidableEq

namespace Event

def severity : Event → Severity
  | .begun _ => .trace
  | .strengthMissing _ | .strengthHeld _ _ => .warn
  | _ => .debug

/-- The wording of a record. -/
def message : Event → String
  | .begun v =>
    "table " ++ Text.quote v.name ++ " at level " ++ Number.natText v.level ++ ": " ++
      if v.block then "block" else "inline"
  | .strengthMissing used => "curve strength is NaN, using " ++ Style.journal.text used
  | .strengthHeld given used =>
    "curve strength " ++ Style.journal.text given ++ " outside [0, 1], clamped to " ++
      Style.journal.text used
  | .added name => "adding " ++ name ++ " to the composition"
  | .addedToAnimate name => name ++ " is animated but not in the composition yet, adding it"
  | .animated tool input drive name =>
    "animating " ++ tool ++ "." ++ input ++ " with " ++
      (match drive with | .spline => "spline " | .path => "path ") ++ name
  | .activeByDefault name => "no active tool set, using " ++ name

/-- A record as one line of the journal. -/
def line (e : Event) : String := e.severity.text ++ " " ++ e.message

end Event

/-- A value and the records left in making it. -/
structure Logged (α : Type) where
  value : α
  events : List Event := []

namespace Logged

instance : Monad Logged where
  pure a := ⟨a, []⟩
  bind x f := ⟨(f x.value).value, x.events ++ (f x.value).events⟩

/-- Leaves a record. -/
def log (e : Event) : Logged Unit := ⟨(), [e]⟩

@[simp] theorem value_pure {α : Type} (a : α) : (pure a : Logged α).value = a := rfl

@[simp] theorem events_pure {α : Type} (a : α) : (pure a : Logged α).events = [] := rfl

@[simp] theorem value_bind {α β : Type} (x : Logged α) (f : α → Logged β) :
    (x >>= f).value = (f x.value).value := rfl

@[simp] theorem events_bind {α β : Type} (x : Logged α) (f : α → Logged β) :
    (x >>= f).events = x.events ++ (f x.value).events := rfl

end Logged

end SceneScript
