import SceneScript.Journal

/-!
# Edits

An edit works on a state, leaves records, and ends with an answer or a failure. The state survives a
failure as the edit left it, so that it is a fact about each edit, and not a convention, that one
that fails changes nothing.

Main statements:

- `run_bind`, `run_bind_ok`, `run_bind_error`: a sequence of edits goes on after an answer and stops
  at a failure.
-/

namespace SceneScript

/-- How an edit ends. -/
structure Outcome (σ α : Type) where
  result : Except Error α
  state : σ
  events : List Event := []

/-- An edit of a state `σ` that answers with an `α`. -/
structure Edit (σ α : Type) where
  run : σ → Outcome σ α

namespace Edit

variable {σ α β : Type}

instance : Monad (Edit σ) where
  pure a := ⟨fun s => ⟨.ok a, s, []⟩⟩
  bind x f := ⟨fun s =>
    let first := x.run s
    match first.result with
    | .error e => ⟨.error e, first.state, first.events⟩
    | .ok a =>
      let second := (f a).run first.state
      ⟨second.result, second.state, first.events ++ second.events⟩⟩

def fail (e : Error) : Edit σ α := ⟨fun s => ⟨.error e, s, []⟩⟩

def get : Edit σ σ := ⟨fun s => ⟨.ok s, s, []⟩⟩

def modify (f : σ → σ) : Edit σ Unit := ⟨fun s => ⟨.ok (), f s, []⟩⟩

def log (e : Event) : Edit σ Unit := ⟨fun s => ⟨.ok (), s, [e]⟩⟩

/-- The answer if there is one, else a failure. -/
def orFail (a : Option α) (e : Error) : Edit σ α :=
  match a with
  | some a => pure a
  | none => fail e

@[simp] theorem run_pure (a : α) (s : σ) : (pure a : Edit σ α).run s = ⟨.ok a, s, []⟩ := rfl

@[simp] theorem run_fail (e : Error) (s : σ) : (fail e : Edit σ α).run s = ⟨.error e, s, []⟩ := rfl

@[simp] theorem run_get (s : σ) : (get : Edit σ σ).run s = ⟨.ok s, s, []⟩ := rfl

@[simp] theorem run_modify (f : σ → σ) (s : σ) : (modify f).run s = ⟨.ok (), f s, []⟩ := rfl

@[simp] theorem run_log (e : Event) (s : σ) : (log e : Edit σ Unit).run s = ⟨.ok (), s, [e]⟩ := rfl

/-- A failure is the end; after an answer the next edit goes on from the state that is left. -/
theorem run_bind (x : Edit σ α) (f : α → Edit σ β) (s : σ) :
    (x >>= f).run s =
      match (x.run s).result with
      | .error e => ⟨.error e, (x.run s).state, (x.run s).events⟩
      | .ok a =>
        ⟨((f a).run (x.run s).state).result, ((f a).run (x.run s).state).state,
          (x.run s).events ++ ((f a).run (x.run s).state).events⟩ := rfl

theorem run_bind_ok {x : Edit σ α} {f : α → Edit σ β} {s s' : σ} {a : α} {es : List Event}
    (h : x.run s = ⟨.ok a, s', es⟩) :
    (x >>= f).run s =
      ⟨((f a).run s').result, ((f a).run s').state, es ++ ((f a).run s').events⟩ := by
  simp [bind, h]

theorem run_bind_error {x : Edit σ α} {f : α → Edit σ β} {s s' : σ} {e : Error} {es : List Event}
    (h : x.run s = ⟨.error e, s', es⟩) : (x >>= f).run s = ⟨.error e, s', es⟩ := by
  simp [bind, h]

end Edit

end SceneScript
