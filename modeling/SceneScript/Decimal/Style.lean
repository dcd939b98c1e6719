import SceneScript.Decimal.Shortest
import SceneScript.Binary64.Order

/-!
# Writing decimals

A decimal is written positionally or with an exponent. A `Style` says for which exponents of the
leading digit it is positional and how an exponent looks; the three styles in use are values of it.
-/

namespace SceneScript

namespace Decimal

/-- The decimal digits of the significand, without leading zeros. -/
def digits (d : Decimal) : List Char := Nat.toDigits 10 d.significand

/-- The power of ten of the leading digit. -/
def leadingExponent (d : Decimal) : Int := d.exponent + d.digits.length - 1

end Decimal

/-- The choices in writing a number. -/
structure Style where
  /-- The lowest leading exponent written positionally and the first one above it that is not;
  always positional without it. -/
  window : Option (Int × Int)
  /-- Whether a whole number keeps a fraction digit. -/
  keepsFraction : Bool
  /-- Whether a plus sign stands before an exponent that is not negative. -/
  plusSign : Bool
  /-- The least number of exponent digits. -/
  exponentWidth : Nat

namespace Style

/-- Numbers in scene text: positional from `0.0001` to below `10 ^ 16`, always with a fraction
digit; exponents have a sign and two digits. -/
def scene : Style := ⟨some (-4, 16), true, true, 2⟩

/-- Numbers inside messages: as in scene text, but exponents are bare. -/
def message : Style := ⟨some (-4, 16), true, false, 1⟩

/-- Numbers in the journal: always positional, whole numbers without a fraction. -/
def journal : Style := ⟨none, false, false, 1⟩

def isPositional (style : Style) (exponent : Int) : Bool :=
  match style.window with
  | some (low, high) => low ≤ exponent && exponent < high
  | none => true

/-- Digits with the point `point` places after their start, zeros filling up to it. -/
def positional (style : Style) (digits : List Char) (point : Int) : List Char :=
  if point ≤ 0 then
    '0' :: '.' :: List.replicate (-point).toNat '0' ++ digits
  else if digits.length ≤ point then
    digits ++ List.replicate (point - digits.length).toNat '0' ++
      if style.keepsFraction then ['.', '0'] else []
  else
    digits.take point.toNat ++ '.' :: digits.drop point.toNat

/-- The exponent with its sign, filled up to the least width. -/
def exponentText (style : Style) (exponent : Int) : List Char :=
  let magnitude := Nat.toDigits 10 exponent.natAbs
  let sign := if exponent < 0 then ['-'] else if style.plusSign then ['+'] else []
  sign ++ List.replicate (style.exponentWidth - magnitude.length) '0' ++ magnitude

/-- One digit, the others as its fraction, and the exponent. -/
def scientific (style : Style) (digits : List Char) (exponent : Int) : List Char :=
  let fraction := digits.drop 1
  digits.take 1 ++ (if fraction.isEmpty then [] else '.' :: fraction) ++
    'e' :: style.exponentText exponent

/-- The characters of an unsigned decimal. -/
def decimal (style : Style) (d : Decimal) : List Char :=
  if style.isPositional d.leadingExponent then style.positional d.digits (d.leadingExponent + 1)
  else style.scientific d.digits d.leadingExponent

/-- The characters of a double. -/
def chars (style : Style) : Binary64 → List Char
  | .nan => ['N', 'a', 'N']
  | .infinite negative => sign negative ++ ['i', 'n', 'f']
  | .finite negative size => sign negative ++ style.decimal (Decimal.shortest size)
where
  sign (negative : Bool) : List Char := if negative then ['-'] else []

/-- The text of a double. -/
def text (style : Style) (x : Binary64) : String := String.ofList (style.chars x)

end Style

end SceneScript
