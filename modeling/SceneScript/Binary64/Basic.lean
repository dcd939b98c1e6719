import SceneScript.Binary64.Rounding

/-!
# Double-precision numbers

A finite double is a sign and a natural number of quanta that fits a 53-bit significand; beside the
finite ones there are two infinities and one `nan`. Each finite double has exactly one such form, so
structural equality is equality of the stored number, which keeps `0` and `-0` apart. Arithmetic
computes the exact result in quanta and rounds once, ties to even.

Main statements:

- `Magnitude.ext_quanta`: a magnitude is its number of quanta.
-/

namespace SceneScript

open Binary64 (spacing nearestQuanta spacing_dvd_nearestQuanta)

namespace Binary64

/-- How many quanta make one. -/
@[irreducible] def unit : Nat := Nat.pow 2 1074

/-- The number of quanta in `2 ^ 1024`, the first power of two that is too large. -/
@[irreducible] def limit : Nat := Nat.pow 2 2098

theorem unit_eq_two_pow : ∃ k, k = 1074 ∧ unit = Nat.pow 2 k := by
  unfold unit
  exact ⟨_, rfl, rfl⟩

theorem limit_eq_two_pow : ∃ k, k = 2098 ∧ limit = Nat.pow 2 k := by
  unfold limit
  exact ⟨_, rfl, rfl⟩

theorem unit_pos : 0 < unit := by decide +kernel

theorem limit_pos : 0 < limit := by decide +kernel

end Binary64

/-- The size of a finite double: a number of quanta that fits a 53-bit significand, below
`2 ^ 1024`. -/
structure Magnitude where
  quanta : Nat
  spacing_dvd : spacing quanta ∣ quanta
  quanta_lt : quanta < Binary64.limit
deriving DecidableEq

namespace Magnitude

theorem ext_quanta {a b : Magnitude} (h : a.quanta = b.quanta) : a = b := by
  cases a; cases b; cases h; rfl

protected def zero : Magnitude := ⟨0, Nat.dvd_zero _, Binary64.limit_pos⟩

/-- The magnitude nearest to `n / d` quanta; there is none when rounding reaches `2 ^ 1024`. -/
def nearest? (n d : Nat) : Option Magnitude :=
  if h : nearestQuanta n d < Binary64.limit then
    some ⟨nearestQuanta n d, spacing_dvd_nearestQuanta n d, h⟩
  else none

end Magnitude

/-- A double-precision number. All `nan` are one, without a sign and a payload, since nothing is
asked of a `nan` but whether it is one. Bits are taken for hashing only, and a `nan` is equal to no
key. -/
inductive Binary64
  | nan
  | infinite (negative : Bool)
  | finite (negative : Bool) (size : Magnitude)
deriving DecidableEq

namespace Binary64

/-- The double nearest to `n / d` quanta with the given sign; too large a number is infinite. -/
def round (negative : Bool) (n d : Nat) : Binary64 :=
  match Magnitude.nearest? n d with
  | some size => .finite negative size
  | none => .infinite negative

/-- The double nearest to an integer. -/
def ofInt (i : Int) : Binary64 := round (i < 0) (i.natAbs * unit) 1

/-- The double nearest to the quotient `n / d`. -/
def ofQuotient (n d : Nat) : Binary64 := round false (n * unit) d

instance : Inhabited Binary64 := ⟨ofInt 0⟩

@[simp] def isNaN : Binary64 → Bool
  | .nan => true
  | _ => false

@[simp] def isFinite : Binary64 → Bool
  | .finite _ _ => true
  | _ => false

/-- Whether the number carries a minus sign; `-0` does. -/
def isNegative : Binary64 → Bool
  | .nan => false
  | .infinite negative => negative
  | .finite negative _ => negative

/-! ## Interchange formats -/

/-- The number a 64-bit pattern stands for: a sign bit, eleven bits of exponent, 52 of fraction. -/
def ofBits (bits : UInt64) : Binary64 :=
  let negative := bits.toNat >>> 63 = 1
  let exponent := bits.toNat >>> 52 % 0x800
  let fraction := bits.toNat % 0x10000000000000
  if exponent = 2047 then
    if fraction = 0 then .infinite negative else .nan
  else if exponent = 0 then round negative fraction 1
  else round negative ((0x10000000000000 + fraction) <<< (exponent - 1)) 1

/-- The number a 32-bit pattern stands for: a sign bit, eight bits of exponent, 23 of fraction.
Every single-precision number is a double, so nothing is rounded. -/
def ofSingleBits (bits : UInt32) : Binary64 :=
  let negative := bits.toNat >>> 31 = 1
  let exponent := bits.toNat >>> 23 % 0x100
  let fraction := bits.toNat % 0x800000
  if exponent = 255 then
    if fraction = 0 then .infinite negative else .nan
  else if exponent = 0 then round negative (fraction <<< 925) 1
  else round negative ((0x800000 + fraction) <<< (exponent - 1 + 925)) 1

/-- The 64-bit pattern of a number; `nan` has the quiet pattern without a sign. -/
def toBits : Binary64 → UInt64
  | .nan => 0x7ff8000000000000
  | .infinite negative => signBit negative + 0x7ff0000000000000
  | .finite negative size =>
    let shift := size.quanta.log2 - 52
    -- the leading bit of a significand of 53 bits adds one to the exponent
    signBit negative + UInt64.ofNat (shift <<< 52 + size.quanta >>> shift)
where
  signBit (negative : Bool) : UInt64 := if negative then 0x8000000000000000 else 0

/-! ## Arithmetic -/

/-- The signed number of quanta of a finite double. -/
def signedQuanta (negative : Bool) (size : Magnitude) : Int :=
  if negative then -size.quanta else size.quanta

def neg : Binary64 → Binary64
  | .nan => .nan
  | .infinite negative => .infinite (!negative)
  | .finite negative size => .finite (!negative) size

/-- The sum, rounded once. Opposite numbers add up to `+0`; only `-0 + -0` is `-0`. -/
def add : Binary64 → Binary64 → Binary64
  | .nan, _ => .nan
  | _, .nan => .nan
  | .infinite s, .infinite t => if s = t then .infinite s else .nan
  | .infinite s, .finite _ _ => .infinite s
  | .finite _ _, .infinite t => .infinite t
  | .finite s a, .finite t b =>
    let sum := signedQuanta s a + signedQuanta t b
    if sum = 0 then .finite (s && t) .zero else round (sum < 0) sum.natAbs 1

def sub (x y : Binary64) : Binary64 := x.add y.neg

/-- The product, rounded once; zero times infinity is no number. -/
def mul : Binary64 → Binary64 → Binary64
  | .nan, _ => .nan
  | _, .nan => .nan
  | .infinite s, .infinite t => .infinite (s ^^ t)
  | .infinite s, .finite t b => if b.quanta = 0 then .nan else .infinite (s ^^ t)
  | .finite s a, .infinite t => if a.quanta = 0 then .nan else .infinite (s ^^ t)
  | .finite s a, .finite t b => round (s ^^ t) (a.quanta * b.quanta) unit

instance : Neg Binary64 := ⟨neg⟩
instance : Add Binary64 := ⟨add⟩
instance : Sub Binary64 := ⟨sub⟩
instance : Mul Binary64 := ⟨mul⟩

end Binary64

end SceneScript
