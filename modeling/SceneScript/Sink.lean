import SceneScript.Render

/-!
# Writing into a sink

A sink is offered bytes and accepts some of them, or fails. Writing a text offers what is left until
nothing is, and stops at the first failure; a sink that accepts nothing has failed too. A table that
has no text is not offered at all.

Interruptions do not show here: an offer that is interrupted is repeated until it is answered, and
nothing has been accepted in between. A sink that interrupts for ever has no answer and is left out.

Main statements:

- `accepted_prefix`: what a sink has accepted is always a beginning of what was to be written.
-/

namespace SceneScript

/-- How a sink answers an offer. An offer that is interrupted is made again, with the same bytes;
the answer is that to the first offer that is not. -/
inductive Reply
  | accepted (count : Nat)
  | failed (reason : String)

/-- A sink with states `σ`: its answer to an offer of bytes, and its next state. -/
structure Sink (σ : Type) where
  reply : σ → List UInt8 → Reply × σ

namespace Sink

variable {σ : Type}

/-- The sink that accepts at most `chunk` bytes at once and fails when its room is used up. Its
state is the room that is left. -/
def bounded (chunk : Nat) : Sink Nat where
  reply room offered :=
    if room = 0 then (.failed "sink full", room)
    else
      let count := min (min offered.length chunk) room
      (.accepted count, room - count)

/-- Writes bytes of which the sink has already agreed to take the first `granted`. -/
def writeFrom (sink : Sink σ) : List UInt8 → σ → (granted : Nat) → Except String Unit × List UInt8
  | [], _, _ => (.ok (), [])
  | b :: rest, state, granted + 1 =>
    let later := sink.writeFrom rest state granted
    (later.1, b :: later.2)
  | b :: rest, state, 0 =>
    match sink.reply state (b :: rest) with
    | (.failed reason, _) => (.error reason, [])
    | (.accepted 0, _) => (.error "failed to write whole buffer", [])
    | (.accepted (count + 1), next) =>
      let later := sink.writeFrom rest next count
      (later.1, b :: later.2)

/-- Offers the bytes until all are accepted; the answer and the bytes accepted. -/
def writeAll (sink : Sink σ) (state : σ) (bytes : List UInt8) : Except String Unit × List UInt8 :=
  sink.writeFrom bytes state 0

/-- Writes a table: its failure or the sink's, and the bytes accepted. -/
def writeTable (sink : Sink σ) (state : σ) (t : Table) : Except Error Unit × List UInt8 :=
  match t.render with
  | .error cause => (.error (.unsupported cause), [])
  | .ok text =>
    let written := sink.writeAll state text.toUTF8.toList
    (written.1.mapError .io, written.2)

theorem accepted_prefix (sink : Sink σ) (bytes : List UInt8) (state : σ) (granted : Nat) :
    (sink.writeFrom bytes state granted).2 <+: bytes := by
  fun_induction writeFrom sink bytes state granted with
  | case1 => exact List.prefix_refl []
  | case2 b rest state granted later ih => exact (List.prefix_cons_inj b).2 ih
  | case3 => exact List.nil_prefix
  | case4 => exact List.nil_prefix
  | case5 b rest state count next _ later ih => exact (List.prefix_cons_inj b).2 ih

end Sink

end SceneScript
