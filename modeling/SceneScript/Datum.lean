import SceneScript.Error
import SceneScript.Number.Machine

/-!
# Data of any origin

A `Datum` is any piece of data as it describes itself: scalars of all machine widths, optional data,
sequences, tuples, records and variants with their names, and maps given by calls for keys and
values. Each has a scene value or a reason why not. Records become tables tagged with their name,
optional data that is absent becomes nothing, and a map becomes a table in which texts are names and
numbers are frames.

A scene value is itself a piece of data (`Value.toDatum`), which need not have itself as its value.
-/

namespace SceneScript

/-- One call in the description of a map. -/
inductive MapCall (α : Type)
  | key (key : α)
  | value (value : α)

/-- A piece of data as it describes itself. -/
inductive Datum
  | bool (value : Bool)
  | integer (value : MachineInt)
  /-- An integer of 128 bits, for which there is no number. -/
  | wide (signed : Bool)
  | single (bits : UInt32)
  | double (value : Binary64)
  | char (value : Char)
  | text (content : String)
  | bytes (content : List UInt8)
  | none
  | some (content : Datum)
  | unit
  | unitVariant (name : String)
  /-- A record around a single datum, which stands for it. -/
  | wrapped (content : Datum)
  | wrappedVariant (name : String) (content : Datum)
  | sequence (items : List Datum)
  | tuple (items : List Datum)
  | tupleVariant (name : String) (items : List Datum)
  | record (name : String) (fields : List (String × Datum))
  | map (calls : List (MapCall Datum))
  /-- Data that fails to describe itself. -/
  | failing (reason : String)

instance : Inhabited Datum := ⟨.unit⟩

namespace Datum

/-- A map with each key right before its value. -/
def ofPairs (pairs : List (Datum × Datum)) : Datum :=
  .map (pairs.flatMap fun p => [.key p.1, .value p.2])

/-- The table key that a value makes: a text is a name, a number a frame. -/
def keyOf : Value → Except Error Key
  | .text s => .ok (.name s)
  | .number n => .ok (.frame n)
  | other => .error (.unsupported (.tableKey other))

end Datum

mutual

/-- The scene value of a datum; the first failure, in the order of the description, decides. -/
def Datum.toValue : Datum → Except Error Value
  | .bool b => .ok (.bool b)
  | .integer m => .ok (.number m.toNumber)
  | .wide signed => .error (.custom ((if signed then "i128" else "u128") ++ " is not supported"))
  | .single bits => .ok (.float (.ofSingleBits bits))
  | .double x => .ok (.float x)
  | .char c => .ok (.text (String.singleton c))
  | .text s => .ok (.text s)
  | .bytes bs => .ok (.sequence (bs.map fun b => .number (MachineInt.uint8 b).toNumber))
  | .none => .ok .null
  | .some d => d.toValue
  | .unit => .ok .null
  | .unitVariant name => .ok (.text name)
  | .wrapped d => d.toValue
  | .wrappedVariant name d => do
    return .table { name, entries := ⟨[(.index 0, ← d.toValue)]⟩ }
  | .sequence items => do return .sequence (← Datum.toValues items)
  | .tuple items => do return .tuple (← Datum.toValues items)
  | .tupleVariant name items => do return .table (← Datum.addItems { name } items)
  | .record name fields => do return .table (← Datum.addFields { name } fields)
  | .map calls => do return .table (← Datum.addCalls ∅ Option.none calls)
  | .failing reason => .error (.custom reason)
termination_by structural d => d

def Datum.toValues : List Datum → Except Error (List Value)
  | [] => .ok []
  | d :: rest => do
    let v ← d.toValue
    return v :: (← Datum.toValues rest)
termination_by structural l => l

/-- Adds the items of a variant at the next positions. -/
def Datum.addItems (t : Table) : List Datum → Except Error Table
  | [] => .ok t
  | d :: rest => do
    let v ← d.toValue
    Datum.addItems (t.insert (.index t.size) v) rest
termination_by structural l => l

/-- Adds the fields of a record under their names. -/
def Datum.addFields (t : Table) : List (String × Datum) → Except Error Table
  | [] => .ok t
  | (name, d) :: rest => do
    let v ← d.toValue
    Datum.addFields (t.insert (.name name) v) rest
termination_by structural l => l

/-- Adds the entries of a map. A value goes under the key called for last, which it uses up. -/
def Datum.addCalls (t : Table) (pending : Option Key) :
    List (MapCall Datum) → Except Error Table
  | [] => .ok t
  | .key d :: rest => do
    let k ← Datum.keyOf (← d.toValue)
    Datum.addCalls t (Option.some k) rest
  | .value d :: rest =>
    match pending with
    | Option.none => .error (.custom "serialize_value called without serialize_key")
    | Option.some k => do
      let v ← d.toValue
      Datum.addCalls (t.insert k v) Option.none rest
termination_by structural l => l

end

mutual

/-- How a scene value describes itself: identifiers as texts, tuples as sequences, and tables as
maps from the texts of their keys. -/
def Value.toDatum : Value → Datum
  | .null => .unit
  | .bool b => .bool b
  | .number (.integer i) => .integer (.int64 i)
  | .number (.float x) => .double x
  | .text s => .text s
  | .fuId s => .text s
  | .tuple items => .sequence (Value.toData items)
  | .sequence items => .sequence (Value.toData items)
  | .table t => .map t.toCalls
termination_by structural v => v

def Value.toData : List Value → List Datum
  | [] => []
  | v :: rest => v.toDatum :: Value.toData rest
termination_by structural l => l

def TableOf.toCalls : TableOf Value → List (MapCall Datum)
  | ⟨_, ⟨entries⟩, _, _, _⟩ => Value.entryCalls entries
termination_by structural t => t

def Value.entryCalls : List (Key × Value) → List (MapCall Datum)
  | [] => []
  | (k, v) :: rest => .key (.text k.text) :: .value v.toDatum :: Value.entryCalls rest
termination_by structural l => l

end

end SceneScript
