import SceneScript.Number.Basic

/-!
# Machine integers as numbers

Integers of every machine width have a number. All but the largest unsigned 64-bit ones stay
integers; those become the nearest double.

Main statements:

- `toNumber_of_fits`: a machine integer that fits 64 signed bits stays an integer.
-/

namespace SceneScript

/-- An integer of a machine width. -/
inductive MachineInt
  | int8 (value : Int8)
  | int16 (value : Int16)
  | int32 (value : Int32)
  | int64 (value : Int64)
  | uint8 (value : UInt8)
  | uint16 (value : UInt16)
  | uint32 (value : UInt32)
  | uint64 (value : UInt64)
deriving DecidableEq

namespace MachineInt

def toInt : MachineInt → Int
  | .int8 v => v.toInt
  | .int16 v => v.toInt
  | .int32 v => v.toInt
  | .int64 v => v.toInt
  | .uint8 v => v.toNat
  | .uint16 v => v.toNat
  | .uint32 v => v.toNat
  | .uint64 v => v.toNat

/-- The number of a machine integer: an integer if it fits 64 signed bits, else the nearest double.
-/
def toNumber (m : MachineInt) : Number :=
  (Number.ofInt? m.toInt).getD (.float (.ofInt m.toInt))

theorem toNumber_of_fits {m : MachineInt} (h : Number.Fits m.toInt) :
    m.toNumber = .integer (.ofInt m.toInt) := by
  simp [toNumber, Number.ofInt?, h]

end MachineInt

end SceneScript
