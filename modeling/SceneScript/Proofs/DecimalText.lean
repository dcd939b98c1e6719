import Mathlib.Algebra.Order.Field.Rat
import SceneScript.Proofs.NumberReading
import SceneScript.Proofs.ShortestDigits

/-!
# What a double is written as

The digits of a double are split at a point that may stand before, among or behind them, with zeros
up to it, or they are written with an exponent. Which of these it is depends on the power of ten of
the leading digit alone, and the text has the value of the digits in every case. The value need not
be that of the double, which is only the double nearest to it; but it is enough to read the double
back, so no two doubles share a text. An integer is written without point and exponent, and so
shares its text with no double, be it equal in number.

Main statements:

- `Text.value?_decimal`: a decimal is written as a text of its value;
- `Style.isPositional_positional`, `Style.isScientific_scientific`: the two forms;
- `Number.text_float`: the text of a double is exact, has the form due to its leading exponent, and
  belongs to no other number.
-/

namespace SceneScript

open Nat (ofDigitChars)

/-! ## The value of a text -/

namespace Decimal

/-- The rational number that a decimal is. -/
def value (d : Decimal) : ℚ := d.significand * 10 ^ d.exponent

theorem value_padded (d : Decimal) (k : Nat) : (d.padded k).value = d.value := by
  have hcast : ((d.significand * Nat.pow 10 k : Nat) : ℚ) = d.significand * 10 ^ (k : Int) := by
    rw [Nat.cast_mul, zpow_natCast]
    exact congrArg _ (Nat.cast_pow 10 k)
  rw [value, padded, hcast, mul_assoc, ← zpow_add₀ (by decide)]
  exact congrArg (fun exponent : Int => (d.significand : ℚ) * 10 ^ exponent) (add_sub_cancel _ _)

/-- The leading digit stands at the leading exponent, the others behind it. -/
theorem value_eq_digits (d : Decimal) :
    d.value = ofDigitChars 10 d.digits 0 * 10 ^ (d.leadingExponent - d.digits.length + 1) := by
  have hexponent : d.leadingExponent - d.digits.length + 1 = d.exponent := by
    unfold leadingExponent
    omega
  rw [ofDigitChars_digits, hexponent, value]

end Decimal

/-- The rational number that a text spells with its digits, its fraction and its exponent, behind a
sign if there is one. -/
def Text.value? : List Char → Option ℚ
  | '-' :: cs => (Decimal.read? cs).map fun d => -d.value
  | cs => (Decimal.read? cs).map Decimal.value

theorem Text.value?_of_ne_minus {cs : List Char} (h : ∀ c ∈ cs.head?, c ≠ '-') :
    Text.value? cs = (Decimal.read? cs).map Decimal.value := by
  unfold Text.value?
  split
  · exact absurd rfl (h '-' rfl)
  · rfl

/-- However a decimal is split, its text has its value. -/
theorem Text.value?_decimal (negative : Bool) (d : Decimal) :
    Text.value? (Style.chars.sign negative ++ Style.scene.decimal d) =
      some ((if negative then -1 else 1) * d.value) := by
  obtain ⟨k, hread⟩ := Decimal.read?_decimal d
  cases negative with
  | true =>
    show (Decimal.read? (Style.scene.decimal d)).map _ = _
    rw [hread, Option.map_some, Decimal.value_padded, if_pos rfl, neg_one_mul]
  | false =>
    show Text.value? (Style.scene.decimal d) = _
    rw [Text.value?_of_ne_minus (Decimal.ne_minus_of_read? hread), hread, Option.map_some,
      Decimal.value_padded, if_neg Bool.false_ne_true, one_mul]

example : Text.value? ['-', '2', '.', '5', 'e', '-', '0', '5'] = some (-1 / 40000) := by
  decide +kernel

/-! ## The forms of a text -/

namespace Text

/-- A part of a number that consists of digits, at least one. -/
def IsDigits (cs : List Char) : Prop := cs ≠ [] ∧ ∀ c ∈ cs, c.isDigit = true

/-- Digits on both sides of a point. -/
def IsPositional (cs : List Char) : Prop :=
  ∃ whole fraction, IsDigits whole ∧ IsDigits fraction ∧ cs = whole ++ '.' :: fraction

/-- One digit, a fraction or none, and an exponent with its sign and two digits or more. -/
def IsScientific (cs : List Char) : Prop :=
  ∃ lead fraction sign exponent, lead.isDigit = true ∧
    (fraction = [] ∨ ∃ digits, IsDigits digits ∧ fraction = '.' :: digits) ∧
    (sign = '+' ∨ sign = '-') ∧ IsDigits exponent ∧ 2 ≤ exponent.length ∧
    cs = lead :: fraction ++ 'e' :: sign :: exponent

theorem IsDigits.append_left {cs cs' : List Char} (h : IsDigits cs)
    (h' : ∀ c ∈ cs', c.isDigit = true) : IsDigits (cs' ++ cs) :=
  ⟨List.append_ne_nil_of_right_ne_nil _ h.1, List.forall_mem_append.2 ⟨h', h.2⟩⟩

theorem IsDigits.append_right {cs cs' : List Char} (h : IsDigits cs)
    (h' : ∀ c ∈ cs', c.isDigit = true) : IsDigits (cs ++ cs') :=
  ⟨List.append_ne_nil_of_left_ne_nil h.1 _, List.forall_mem_append.2 ⟨h.2, h'⟩⟩

theorem isDigits_zero : IsDigits ['0'] := ⟨List.cons_ne_nil _ _, List.all_eq_true.1 rfl⟩

theorem isDigits_toDigits (n : Nat) : IsDigits (Nat.toDigits 10 n) :=
  ⟨Nat.toDigits_ne_nil, isDigit_toDigits n⟩

end Text

open Text (IsDigits IsPositional IsScientific isDigits_zero isDigits_toDigits)

namespace Style

/-- Wherever the point is, there are digits on both sides of it. -/
theorem isPositional_positional {digits : List Char} (h : IsDigits digits) (point : Int) :
    IsPositional (scene.positional digits point) := by
  unfold positional
  by_cases hpoint : point ≤ 0
  · rw [if_pos hpoint]
    exact ⟨['0'], _, isDigits_zero, h.append_left (isDigit_zeros _), rfl⟩
  rw [if_neg hpoint]
  by_cases hlong : (digits.length : Int) ≤ point
  · rw [if_pos hlong]
    exact ⟨_, ['0'], h.append_right (isDigit_zeros _), isDigits_zero, rfl⟩
  rw [if_neg hlong]
  refine ⟨_, _, ⟨?_, fun c hc => h.2 c (List.mem_of_mem_take hc)⟩,
    ⟨?_, fun c hc => h.2 c (List.mem_of_mem_drop hc)⟩, rfl⟩
  · refine List.ne_nil_of_length_pos ?_
    rw [List.length_take]
    omega
  · refine List.ne_nil_of_length_pos ?_
    rw [List.length_drop]
    omega

/-- The exponent of a scene has its sign and at least two digits. -/
theorem exponentText_scene (exponent : Int) :
    ∃ sign digits, scene.exponentText exponent = sign :: digits ∧ (sign = '+' ∨ sign = '-') ∧
      IsDigits digits ∧ 2 ≤ digits.length := by
  have hsign : (if exponent < 0 then ['-'] else ['+']) = [if exponent < 0 then '-' else '+'] := by
    split <;> rfl
  have hchoice : (if exponent < 0 then '-' else '+') = '+' ∨
      (if exponent < 0 then '-' else '+') = '-' := by
    split
    · exact .inr rfl
    · exact .inl rfl
  refine ⟨_, List.replicate (2 - _) '0' ++ _, congrArg (· ++ _ ++ _) hsign, hchoice,
    (isDigits_toDigits exponent.natAbs).append_left (isDigit_zeros _), ?_⟩
  rw [List.length_append, List.length_replicate]
  omega

/-- With an exponent there is one digit in front of the point. -/
theorem isScientific_scientific {digits : List Char} (h : IsDigits digits) (exponent : Int) :
    IsScientific (scene.scientific digits exponent) := by
  obtain ⟨hne, hdigits⟩ := h
  obtain ⟨lead, rest, rfl⟩ := List.exists_cons_of_ne_nil hne
  obtain ⟨hlead, hrest⟩ := List.forall_mem_cons.1 hdigits
  obtain ⟨sign, exponentDigits, htext, hsign, hexponent, hwidth⟩ := exponentText_scene exponent
  have hshape : scene.scientific (lead :: rest) exponent =
      lead :: (if rest.isEmpty then [] else '.' :: rest) ++ 'e' :: sign :: exponentDigits := by
    rw [← htext]
    rfl
  refine ⟨lead, _, sign, exponentDigits, hlead, ?_, hsign, hexponent, hwidth, hshape⟩
  cases rest with
  | nil => exact .inl rfl
  | cons c cs => exact .inr ⟨_, ⟨List.cons_ne_nil c cs, hrest⟩, rfl⟩

/-- Which form a decimal has is decided by its leading exponent. -/
theorem form_decimal (d : Decimal) :
    (-4 ≤ d.leadingExponent ∧ d.leadingExponent < 16 → IsPositional (scene.decimal d)) ∧
      (¬(-4 ≤ d.leadingExponent ∧ d.leadingExponent < 16) → IsScientific (scene.decimal d)) := by
  have hwindow : scene.isPositional d.leadingExponent = true ↔
      -4 ≤ d.leadingExponent ∧ d.leadingExponent < 16 := by
    simp [isPositional, scene]
  unfold decimal
  constructor
  · intro hinside
    rw [if_pos (hwindow.2 hinside)]
    exact isPositional_positional (isDigits_toDigits _) _
  · intro houtside
    rw [if_neg (mt hwindow.1 houtside)]
    exact isScientific_scientific (isDigits_toDigits _) _

end Style

/-! ## The text of a double -/

namespace Number

/-- Finite numbers with the same text are the same, kind included. -/
theorem text_injective {n n' : Number} (h : n.isFinite = true) (h' : n'.isFinite = true)
    (htext : n.text = n'.text) : n = n' := by
  have hread := read?_text h
  rw [htext, read?_text h'] at hread
  exact (Option.some.inj hread).symm

theorem mem_intChars {i : Int} {c : Char} (hc : c ∈ intChars i) : c = '-' ∨ c.isDigit = true := by
  rcases List.mem_append.1 hc with hsign | hdigit
  · split at hsign
    · exact .inl (List.mem_singleton.1 hsign)
    · cases hsign
  · exact .inr (isDigit_toDigits _ c hdigit)

/-- The text of a double is the text of no integer. -/
theorem text_float_ne_integer (x : Binary64) (i : Int64) :
    (Number.float x).text ≠ (Number.integer i).text := by
  intro htext
  have hchars : Style.scene.chars x = intChars i.toInt := by
    have hlists := congrArg String.toList htext
    rwa [toList_text, toList_text] at hlists
  have hletter : ∀ c ∈ Style.scene.chars x, c = '-' ∨ c.isDigit = true := by
    rw [hchars]
    exact fun _ => mem_intChars
  cases x with
  | nan => exact absurd (hletter 'N' (List.mem_cons_self ..)) (by decide)
  | infinite negative =>
    have hmem : 'i' ∈ Style.scene.chars (.infinite negative) :=
      List.mem_append_right _ (List.mem_cons_self ..)
    exact absurd (hletter 'i' hmem) (by decide)
  | finite negative size => cases text_injective rfl rfl htext

/-- **The text of a double is exact and its own.** With the shortest digits of the double, the
leading one at `10 ^ k`, the text spells the number that has these digits at these places. It is
positional for `-4 ≤ k < 16` and has an exponent otherwise, it is the text of no other finite
double, and no double is written as an integer is. -/
theorem text_float (negative : Bool) (size : Magnitude) :
    let x : Binary64 := .finite negative size
    let d := Decimal.shortest size
    let k := d.leadingExponent
    let text := (Number.float x).text.toList
    d.Spells size ∧
      Text.value? text = some ((if negative then -1 else 1) *
        ((ofDigitChars 10 d.digits 0 : ℚ) * 10 ^ (k - d.digits.length + 1))) ∧
      (∃ unsigned, text = (if negative then ['-'] else []) ++ unsigned ∧
        (-4 ≤ k ∧ k < 16 → IsPositional unsigned) ∧
        (¬(-4 ≤ k ∧ k < 16) → IsScientific unsigned)) ∧
      (∀ y : Binary64, y.isFinite = true → (Number.float y).text.toList = text → y = x) ∧
      ∀ (y : Binary64) (i : Int64), (Number.float y).text ≠ (Number.integer i).text := by
  intro x d k text
  have htext : text = Style.chars.sign negative ++ Style.scene.decimal d := toList_text _
  refine ⟨Decimal.spells_shortest size, ?_, ⟨_, htext, Style.form_decimal d⟩, ?_, ?_⟩
  · rw [htext, Text.value?_decimal, Decimal.value_eq_digits]
  · intro y hy hsame
    have hnumbers : Number.float y = .float x := text_injective hy rfl (String.toList_inj.1 hsame)
    exact Number.float.inj hnumbers
  · exact text_float_ne_integer

end Number

end SceneScript
