import SceneScript.Decimal.Style

/-!
# Numbers

A number is a 64-bit integer or a double. Arithmetic on integers stays with integers as long as the
result fits; a result that does not fit, or a double on either side, makes a double.

Main statements:

- `add_integer`, `sub_integer`, `mul_integer`: integer arithmetic is exact while it fits;
- `toInt_ofInt`, `ofInt?_toInt`: an integer that fits is kept.
-/

namespace SceneScript

/-- A number of the scene: an integer of 64 bits or a double. -/
inductive Number
  | integer (value : Int64)
  | float (value : Binary64)
deriving DecidableEq

namespace Number

instance : Inhabited Number := ⟨.integer 0⟩

instance {n : Nat} : OfNat Number n := ⟨.integer (OfNat.ofNat n)⟩

def isInteger : Number → Bool
  | .integer _ => true
  | .float _ => false

def isFinite : Number → Bool
  | .integer _ => true
  | .float x => x.isFinite

def isNaN : Number → Bool
  | .integer _ => false
  | .float x => x.isNaN

/-- The nearest double. -/
def toBinary64 : Number → Binary64
  | .integer i => .ofInt i.toInt
  | .float x => x

/-! ## Integers that fit -/

/-- Whether an integer fits 64 bits. -/
def Fits (i : Int) : Prop := -0x8000000000000000 ≤ i ∧ i < 0x8000000000000000

instance (i : Int) : Decidable (Fits i) := inferInstanceAs (Decidable (_ ∧ _))

/-- The integer as a number, if it fits. -/
def ofInt? (i : Int) : Option Number := if Fits i then some (.integer (Int64.ofInt i)) else none

theorem toInt_ofInt {i : Int} (h : Fits i) : (Int64.ofInt i).toInt = i :=
  Int64.toInt_ofInt_of_le h.1 h.2

theorem fits_toInt (i : Int64) : Fits i.toInt := ⟨i.le_toInt, i.toInt_lt⟩

@[simp] theorem ofInt?_toInt (i : Int64) : ofInt? i.toInt = some (.integer i) := by
  simp [ofInt?, fits_toInt]

theorem ofInt?_eq_none {i : Int} : ofInt? i = none ↔ ¬ Fits i := by
  simp [ofInt?]

/-! ## Arithmetic -/

/-- Exact on integers while the result fits, rounded on doubles otherwise. -/
def combine (exact : Int → Int → Int) (rounded : Binary64 → Binary64 → Binary64) :
    Number → Number → Number
  | .integer a, .integer b =>
    (ofInt? (exact a.toInt b.toInt)).getD (.float (rounded (.ofInt a.toInt) (.ofInt b.toInt)))
  | a, b => .float (rounded a.toBinary64 b.toBinary64)

instance : Add Number := ⟨combine (· + ·) (· + ·)⟩
instance : Sub Number := ⟨combine (· - ·) (· - ·)⟩
instance : Mul Number := ⟨combine (· * ·) (· * ·)⟩

theorem combine_integer (exact : Int → Int → Int) (rounded : Binary64 → Binary64 → Binary64)
    {a b : Int64} (h : Fits (exact a.toInt b.toInt)) :
    combine exact rounded (.integer a) (.integer b) =
      .integer (Int64.ofInt (exact a.toInt b.toInt)) := by
  simp [combine, ofInt?, h]

theorem add_integer {a b : Int64} (h : Fits (a.toInt + b.toInt)) :
    Number.integer a + .integer b = .integer (.ofInt (a.toInt + b.toInt)) :=
  combine_integer _ _ h

theorem sub_integer {a b : Int64} (h : Fits (a.toInt - b.toInt)) :
    Number.integer a - .integer b = .integer (.ofInt (a.toInt - b.toInt)) :=
  combine_integer _ _ h

theorem mul_integer {a b : Int64} (h : Fits (a.toInt * b.toInt)) :
    Number.integer a * .integer b = .integer (.ofInt (a.toInt * b.toInt)) :=
  combine_integer _ _ h

/-! ## Text -/

/-- The decimal digits of a natural number. -/
def natText (n : Nat) : String := String.ofList (Nat.toDigits 10 n)

/-- The characters of an integer. -/
def intChars (i : Int) : List Char :=
  (if i < 0 then ['-'] else []) ++ Nat.toDigits 10 i.natAbs

/-- The text of a number, doubles in the given style. -/
def textIn (style : Style) : Number → String
  | .integer i => String.ofList (intChars i.toInt)
  | .float x => style.text x

/-- The text of a number in a scene. -/
def text (n : Number) : String := n.textIn .scene

end Number

end SceneScript
