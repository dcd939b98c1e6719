import SceneScript.Number.Order

/-!
# Keys of table entries

An entry stands under a name, under a frame number, or at a position. Frames are the same key if
they are numerically equal, however they are stored.

Main statements:

- `beq_name`, `beq_frame`, `beq_index`: keys of one kind are equal if what they hold is;
- the instance `PartialEquivBEq Key`: equality of keys is symmetric and transitive.
-/

namespace SceneScript

/-- The key of a table entry. -/
inductive Key
  | name (name : String)
  | frame (frame : Number)
  | index (position : Nat)
deriving DecidableEq

namespace Key

instance : Inhabited Key := ⟨.index 0⟩

/-- Equality of keys: names as text, frames as numbers, positions as positions. -/
instance : BEq Key where
  beq
    | .name a, .name b => a == b
    | .frame a, .frame b => a == b
    | .index a, .index b => a == b
    | _, _ => false

@[simp] theorem beq_name (a b : String) : (name a == name b) = (a == b) := rfl

@[simp] theorem beq_frame (a b : Number) : (frame a == frame b) = (a == b) := rfl

@[simp] theorem beq_index (a b : Nat) : (index a == index b) = (a == b) := rfl

instance : PartialEquivBEq Key where
  symm {a b} h := match a, b, h with
    | .name _, .name _, h => PartialEquivBEq.symm (α := String) h
    | .frame _, .frame _, h => PartialEquivBEq.symm (α := Number) h
    | .index _, .index _, h => PartialEquivBEq.symm (α := Nat) h
  trans {a b c} h h' := match a, b, c, h, h' with
    | .name _, .name _, .name _, h, h' => PartialEquivBEq.trans (α := String) h h'
    | .frame _, .frame _, .frame _, h, h' => PartialEquivBEq.trans (α := Number) h h'
    | .index _, .index _, .index _, h, h' => PartialEquivBEq.trans (α := Nat) h h'

/-- Positions come first, then frames, then names. -/
def rank : Key → Nat
  | .index _ => 0
  | .frame _ => 1
  | .name _ => 2

/-- The order of entries in an ordered table: by kind, then by position, frame or code points. -/
protected def compare : Key → Key → Ordering
  | .name a, .name b => Ord.compare a b
  | .frame a, .frame b => a.totalCompare b
  | .index a, .index b => Ord.compare a b
  | a, b => Ord.compare a.rank b.rank

/-- What a key feeds into a hash: its kind, and a frame as the nearest double with one zero. -/
inductive Digest
  | name (name : String)
  | frame (bits : UInt64)
  | index (position : Nat)
deriving DecidableEq

def digest : Key → Digest
  | .name s => .name s
  | .frame n => .frame (n.toBinary64 + Binary64.ofInt 0).toBits
  | .index i => .index i

instance : Hashable Key where
  hash k := match k.digest with
    | .name s => mixHash 2 (hash s)
    | .frame bits => mixHash 1 bits
    | .index i => mixHash 0 (hash i)

/-- The text of a key in front of its value. -/
def text : Key → String
  | .name s => s
  | .frame n => "[" ++ n.text ++ "]"
  | .index i => Number.natText i

@[simp] theorem text_name (s : String) : (Key.name s).text = s := rfl

end Key

end SceneScript
