import SceneScript.Number.Basic
import SceneScript.Proofs.NumberText
import SceneScript.Proofs.ReadBack

/-!
# Reading numbers

A number in a scene is read from its characters: whole numbers as integers, everything with a point
or an exponent as the double nearest to its decimal. However many zeros the writer puts in, the
decimal read has the value of the shortest decimal of the double, so the double itself is read.

Main statements:

- `Decimal.read?_decimal`: the decimal that was written is read, perhaps with more digits;
- `Number.read?_text`: a finite number is read from its own text.
-/

namespace SceneScript

open Nat (ofDigitChars toDigits)

/-! ## Digits -/

/-- The digits in front of a text, and what stands behind them. -/
def splitDigits (cs : List Char) : List Char × List Char :=
  (cs.takeWhile Char.isDigit, cs.dropWhile Char.isDigit)

theorem splitDigits_append {digits rest : List Char} (h : ∀ c ∈ digits, c.isDigit = true)
    (hrest : ∀ c ∈ rest.head?, c.isDigit = false) :
    splitDigits (digits ++ rest) = (digits, rest) := by
  have htake : rest.takeWhile Char.isDigit = [] := by
    cases rest with
    | nil => rfl
    | cons c cs => simp [hrest c rfl]
  have hdrop : rest.dropWhile Char.isDigit = rest := by
    cases rest with
    | nil => rfl
    | cons c cs => simp [hrest c rfl]
  rw [splitDigits, List.takeWhile_append_of_pos h, List.dropWhile_append_of_pos h, htake, hdrop,
    List.append_nil]

theorem isDigit_toDigits (n : Nat) : ∀ c ∈ toDigits 10 n, c.isDigit = true :=
  fun _ hc => Nat.isDigit_of_mem_toDigits (by decide) (by decide) hc

theorem isDigit_zeros (k : Nat) : ∀ c ∈ List.replicate k '0', c.isDigit = true := by
  intro c hc
  rw [List.eq_of_mem_replicate hc]
  rfl

/-- Zeros in front of the digits do not count. -/
theorem ofDigitChars_zeros_append (k : Nat) (digits : List Char) :
    ofDigitChars 10 (List.replicate k '0' ++ digits) 0 = ofDigitChars 10 digits 0 := by
  rw [Nat.ofDigitChars_append, Nat.ofDigitChars_replicate_zero, Nat.mul_zero]

namespace Decimal

/-! ## Reading decimals -/

/-- The digits behind a point, if there is one, and what stands behind them. -/
def splitFraction : List Char → List Char × List Char
  | '.' :: rest => splitDigits rest
  | rest => ([], rest)

/-- The power of ten behind the digits; without one it is zero. -/
def readExponent? : List Char → Option Int
  | [] => some 0
  | 'e' :: '+' :: digits => some (ofDigitChars 10 digits 0)
  | 'e' :: '-' :: digits => some (-ofDigitChars 10 digits 0)
  | _ => none

/-- The decimal that a text spells, with all digits that are there. -/
def read? (cs : List Char) : Option Decimal :=
  let whole := splitDigits cs
  let fraction := splitFraction whole.2
  (readExponent? fraction.2).map fun exponent =>
    ⟨ofDigitChars 10 (whole.1 ++ fraction.1) 0, exponent - fraction.1.length⟩

theorem readExponent?_exponentText (exponent : Int) :
    readExponent? ('e' :: Style.scene.exponentText exponent) = some exponent := by
  unfold Style.exponentText
  by_cases hneg : exponent < 0
  · rw [if_pos hneg]
    show some (-(ofDigitChars 10 (List.replicate _ '0' ++ toDigits 10 exponent.natAbs) 0 : Int)) = _
    rw [ofDigitChars_zeros_append, Nat.ofDigitChars_ten_toDigits]
    congr 1
    omega
  · rw [if_neg hneg]
    show some ((ofDigitChars 10 (List.replicate _ '0' ++ toDigits 10 exponent.natAbs) 0 : Int)) = _
    rw [ofDigitChars_zeros_append, Nat.ofDigitChars_ten_toDigits]
    congr 1
    omega

/-- What is read as an exponent does not begin like digits or a fraction. -/
theorem eq_of_readExponent? {tail : List Char} {exponent : Int}
    (h : readExponent? tail = some exponent) : tail = [] ∨ ∃ rest, tail = 'e' :: rest := by
  unfold readExponent? at h
  split at h
  · exact .inl rfl
  · exact .inr ⟨_, rfl⟩
  · exact .inr ⟨_, rfl⟩
  · cases h

section Parts

variable {whole fraction tail : List Char} {exponent : Int}

/-- What is read from digits and an exponent. -/
theorem read?_of_whole (hwhole : ∀ c ∈ whole, c.isDigit = true)
    (htail : readExponent? tail = some exponent) :
    read? (whole ++ tail) = some ⟨ofDigitChars 10 whole 0, exponent⟩ := by
  have hsplit : splitDigits (whole ++ tail) = (whole, tail) ∧ splitFraction tail = ([], tail) := by
    rcases eq_of_readExponent? htail with rfl | ⟨rest, rfl⟩
    · exact ⟨splitDigits_append hwhole (by simp), rfl⟩
    · refine ⟨splitDigits_append hwhole ?_, rfl⟩
      rintro _ ⟨⟩
      rfl
  simp [read?, hsplit.1, hsplit.2, htail]

/-- What is read from digits, a fraction and an exponent. -/
theorem read?_of_fraction (hwhole : ∀ c ∈ whole, c.isDigit = true)
    (hfraction : ∀ c ∈ fraction, c.isDigit = true) (htail : readExponent? tail = some exponent) :
    read? (whole ++ '.' :: (fraction ++ tail)) =
      some ⟨ofDigitChars 10 (whole ++ fraction) 0, exponent - fraction.length⟩ := by
  have hpoint : splitDigits (whole ++ '.' :: (fraction ++ tail)) =
      (whole, '.' :: (fraction ++ tail)) := by
    refine splitDigits_append hwhole ?_
    rintro _ ⟨⟩
    rfl
  have hsplit : splitFraction ('.' :: (fraction ++ tail)) = (fraction, tail) := by
    show splitDigits (fraction ++ tail) = _
    refine splitDigits_append hfraction ?_
    rcases eq_of_readExponent? htail with rfl | ⟨rest, rfl⟩
    · simp
    · rintro _ ⟨⟩
      rfl
  simp [read?, hpoint, hsplit, htail]

end Parts

variable (d : Decimal)

theorem length_digits_pos : 0 < d.digits.length := Nat.length_toDigits_pos

theorem isDigit_digits : ∀ c ∈ d.digits, c.isDigit = true := isDigit_toDigits _

theorem ofDigitChars_digits : ofDigitChars 10 d.digits 0 = d.significand :=
  Nat.ofDigitChars_ten_toDigits

theorem padded_zero : d.padded 0 = d := by simp [padded]

/-- In positional form more zeros may be written than the decimal has digits. -/
theorem read?_positional : ∃ k,
    read? (Style.scene.positional d.digits (d.leadingExponent + 1)) = some (d.padded k) := by
  have hpoint : d.leadingExponent + 1 = d.exponent + d.digits.length := by
    unfold leadingExponent
    omega
  rw [hpoint]
  unfold Style.positional
  by_cases hsmall : d.exponent + d.digits.length ≤ 0
  · -- all digits stand behind the point, and perhaps zeros in front of them
    rw [if_pos hsmall]
    generalize hzeros : (-(d.exponent + d.digits.length)).toNat = zeros
    have hread : read? (['0'] ++ '.' :: ((List.replicate zeros '0' ++ d.digits) ++ [])) = _ :=
      read?_of_fraction (List.all_eq_true.1 rfl)
        (List.forall_mem_append.2 ⟨isDigit_zeros zeros, d.isDigit_digits⟩) rfl
    have hvalue : ofDigitChars 10 (['0'] ++ (List.replicate zeros '0' ++ d.digits)) 0 =
        d.significand := by
      have hone : ['0'] = List.replicate 1 '0' := rfl
      rw [hone, ofDigitChars_zeros_append, ofDigitChars_zeros_append, ofDigitChars_digits]
    have hexponent : 0 - ((List.replicate zeros '0' ++ d.digits).length : Int) = d.exponent := by
      rw [List.length_append, List.length_replicate]
      omega
    rw [hvalue, hexponent, List.append_nil] at hread
    refine ⟨0, ?_⟩
    rw [padded_zero]
    exact hread
  · rw [if_neg hsmall]
    by_cases hwhole : (d.digits.length : Int) ≤ d.exponent + d.digits.length
    · -- all digits stand in front of the point, and perhaps zeros behind them
      rw [if_pos hwhole]
      generalize hzeros : (d.exponent + d.digits.length - d.digits.length).toNat = zeros
      have hread : read? ((d.digits ++ List.replicate zeros '0') ++ '.' :: (['0'] ++ [])) = _ :=
        read?_of_fraction
          (List.forall_mem_append.2 ⟨d.isDigit_digits, isDigit_zeros zeros⟩)
          (List.all_eq_true.1 rfl) rfl
      have hvalue : ofDigitChars 10 (d.digits ++ List.replicate zeros '0' ++ ['0']) 0 =
          d.significand * Nat.pow 10 (zeros + 1) := by
        have hzero : List.replicate zeros '0' ++ ['0'] = List.replicate (zeros + 1) '0' :=
          List.replicate_succ'.symm
        rw [List.append_assoc, hzero, Nat.ofDigitChars_append, ofDigitChars_digits,
          Nat.ofDigitChars_replicate_zero, Nat.mul_comm]
        rfl
      have hexponent : (0 : Int) - (['0'] : List Char).length = d.exponent - (zeros + 1 : Nat) := by
        show (0 : Int) - 1 = _
        omega
      rw [hvalue, hexponent] at hread
      exact ⟨zeros + 1, hread⟩
    · -- the point stands among the digits
      rw [if_neg hwhole]
      generalize hpart : (d.exponent + d.digits.length).toNat = part
      have hread : read? (d.digits.take part ++ '.' :: (d.digits.drop part ++ [])) = _ :=
        read?_of_fraction (fun c hc => d.isDigit_digits c (List.mem_of_mem_take hc))
          (fun c hc => d.isDigit_digits c (List.mem_of_mem_drop hc)) rfl
      have hexponent : (0 : Int) - (d.digits.drop part).length = d.exponent := by
        rw [List.length_drop]
        omega
      rw [List.take_append_drop, ofDigitChars_digits, hexponent, List.append_nil] at hread
      refine ⟨0, ?_⟩
      rw [padded_zero]
      exact hread

theorem read?_scientific :
    read? (Style.scene.scientific d.digits d.leadingExponent) = some d := by
  have htail := readExponent?_exponentText d.leadingExponent
  have hlength := d.length_digits_pos
  have htake : ∀ c ∈ d.digits.take 1, c.isDigit = true :=
    fun c hc => d.isDigit_digits c (List.mem_of_mem_take hc)
  have hdrop : ∀ c ∈ d.digits.drop 1, c.isDigit = true :=
    fun c hc => d.isDigit_digits c (List.mem_of_mem_drop hc)
  have hexponent : d.leadingExponent - (d.digits.drop 1).length = d.exponent := by
    rw [List.length_drop]
    unfold leadingExponent
    omega
  have hdigits : d.digits.take 1 ++ d.digits.drop 1 = d.digits := List.take_append_drop 1 d.digits
  show read? (d.digits.take 1 ++
    (if (d.digits.drop 1).isEmpty then [] else '.' :: d.digits.drop 1) ++
      'e' :: Style.scene.exponentText d.leadingExponent) = some d
  by_cases hempty : d.digits.drop 1 = []
  · have hread := read?_of_whole htake htail
    have hone : d.digits.take 1 = d.digits := by
      rw [hempty, List.append_nil] at hdigits
      exact hdigits
    rw [hempty] at hexponent
    have hlast : d.leadingExponent = d.exponent := by
      rw [← hexponent]
      exact (Int.sub_zero _).symm
    rw [if_pos (List.isEmpty_iff.2 hempty), List.append_nil, hread, hone, ofDigitChars_digits,
      hlast]
  · have hread := read?_of_fraction htake hdrop htail
    rw [hdigits, ofDigitChars_digits, hexponent] at hread
    rw [if_neg (fun h => hempty (List.isEmpty_iff.1 h)), List.append_assoc]
    exact hread

/-- The decimal that was written is read, perhaps with more digits. -/
theorem read?_decimal : ∃ k, read? (Style.scene.decimal d) = some (d.padded k) := by
  unfold Style.decimal
  split
  · exact read?_positional d
  · refine ⟨0, ?_⟩
    rw [read?_scientific, padded_zero]

/-- A double is written with a point or an exponent. -/
theorem exists_not_isDigit_decimal : ∃ c ∈ Style.scene.decimal d, c.isDigit = false := by
  unfold Style.decimal
  split
  · refine ⟨'.', ?_, rfl⟩
    unfold Style.positional
    split
    · simp
    · split <;> simp [Style.scene]
  · refine ⟨'e', ?_, rfl⟩
    simp [Style.scientific]

/-- What can be read as a decimal has no sign. -/
theorem ne_minus_of_read? {cs : List Char} {d : Decimal} (h : read? cs = some d) :
    ∀ c ∈ cs.head?, c ≠ '-' := by
  rintro c hc rfl
  obtain ⟨rest, rfl⟩ : ∃ rest, cs = '-' :: rest := List.head?_eq_some_iff.1 hc
  cases h

end Decimal

namespace Number

/-- The number of a text without its sign: an integer if it is all digits. -/
def readUnsigned? (negative : Bool) (cs : List Char) : Option Number :=
  if cs.all Char.isDigit then
    let size : Int := ofDigitChars 10 cs 0
    ofInt? (if negative then -size else size)
  else (Decimal.read? cs).map fun d => .float (Binary64.ofDecimal negative d)

/-- The number that a text spells. -/
def read? : List Char → Option Number
  | [] => none
  | '-' :: cs => readUnsigned? true cs
  | cs => readUnsigned? false cs

theorem read?_of_ne_minus {cs : List Char} (hcs : cs ≠ []) (h : ∀ c ∈ cs.head?, c ≠ '-') :
    read? cs = readUnsigned? false cs := by
  unfold read?
  split
  · exact absurd rfl hcs
  · exact absurd rfl (h '-' rfl)
  · rfl

theorem read?_integer (i : Int64) : read? (intChars i.toInt) = some (.integer i) := by
  have hdigits : (toDigits 10 i.toInt.natAbs).all Char.isDigit = true :=
    List.all_eq_true.2 (isDigit_toDigits _)
  by_cases hneg : i.toInt < 0
  · have hvalue : -(i.toInt.natAbs : Int) = i.toInt := by omega
    rw [intChars, if_pos hneg]
    show readUnsigned? true (toDigits 10 i.toInt.natAbs) = _
    rw [readUnsigned?, if_pos hdigits, Nat.ofDigitChars_ten_toDigits]
    show ofInt? (-(i.toInt.natAbs : Int)) = _
    rw [hvalue, ofInt?_toInt]
  · have hvalue : (i.toInt.natAbs : Int) = i.toInt := by omega
    have hhead : ∀ c ∈ (toDigits 10 i.toInt.natAbs).head?, c ≠ '-' := by
      rintro c hc rfl
      exact absurd (isDigit_toDigits _ '-' (List.mem_of_mem_head? hc)) (by decide)
    rw [intChars, if_neg hneg, List.nil_append, read?_of_ne_minus Nat.toDigits_ne_nil hhead]
    rw [readUnsigned?, if_pos hdigits, Nat.ofDigitChars_ten_toDigits]
    show ofInt? (i.toInt.natAbs : Int) = _
    rw [hvalue, ofInt?_toInt]

theorem read?_finite (negative : Bool) (size : Magnitude) :
    read? (Style.scene.chars (.finite negative size)) =
      some (.float (.finite negative size)) := by
  obtain ⟨k, hdecimal⟩ := Decimal.read?_decimal (.shortest size)
  obtain ⟨c, hc, hdigit⟩ := Decimal.exists_not_isDigit_decimal (.shortest size)
  have hunsigned : readUnsigned? negative (Style.scene.decimal (.shortest size)) =
      some (.float (.finite negative size)) := by
    have hfraction : ¬ (Style.scene.decimal (.shortest size)).all Char.isDigit = true := by
      intro hall
      rw [List.all_eq_true.1 hall c hc] at hdigit
      cases hdigit
    rw [readUnsigned?, if_neg hfraction, hdecimal, Option.map_some, Decimal.ofDecimal_padded,
      Decimal.ofDecimal_shortest]
  cases negative with
  | true => exact hunsigned
  | false =>
    show read? (Style.scene.decimal (.shortest size)) = _
    rw [read?_of_ne_minus (List.ne_nil_of_mem hc) (Decimal.ne_minus_of_read? hdecimal)]
    exact hunsigned

/-- **A finite number is read from its own text.** -/
theorem read?_text {n : Number} (h : n.isFinite = true) : read? n.text.toList = some n := by
  rw [toList_text]
  cases n with
  | integer i => exact read?_integer i
  | float x =>
    cases x with
    | finite negative size => exact read?_finite negative size
    | nan | infinite => cases h

theorem text_ne_nil {n : Number} (h : n.isFinite = true) : n.text.toList ≠ [] := by
  intro hnil
  have hread := read?_text h
  rw [hnil] at hread
  cases hread

end Number

end SceneScript
