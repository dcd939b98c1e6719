import SceneScript.Number.Basic

/-!
# The characters of numbers

Main statements:

- `Number.isNumeral_text`: a number is written without blanks, quotes, commas or brackets;
- `Number.natText_injective`, `Number.append_natText_ne`: names that end in the digits of a natural
  number differ if the numbers do, and are no names that end in a letter.
-/

namespace SceneScript

/-- The characters numbers are written with: digits, signs, the point, and the letters of
exponents, infinities and `NaN`. -/
def Text.isNumeral (c : Char) : Bool :=
  c.isDigit || ['-', '+', '.', 'e', 'i', 'n', 'f', 'N', 'a'].contains c

open Text (isNumeral)

/-- Numbers avoid every list of characters that has no numerals. -/
theorem not_contains_of_isNumeral {l : List Char} (hl : l.all (!isNumeral ·) = true) {c : Char}
    (hc : isNumeral c = true) : (!l.contains c) = true := by
  rw [Bool.not_eq_true', ← Bool.not_eq_true, List.contains_iff_mem]
  intro hmem
  have hnot := List.all_eq_true.1 hl c hmem
  rw [hc] at hnot
  cases hnot

theorem isNumeral_toDigits (n : Nat) : ∀ c ∈ Nat.toDigits 10 n, isNumeral c = true := by
  intro c hc
  rw [isNumeral, Nat.isDigit_of_mem_toDigits (by decide) (by decide) hc]
  rfl

theorem isNumeral_zeros (n : Nat) : ∀ c ∈ List.replicate n '0', isNumeral c = true := by
  intro c hc
  rw [List.eq_of_mem_replicate hc]
  rfl

theorem isNumeral_minus (p : Prop) [Decidable p] :
    ∀ c ∈ (if p then ['-'] else []), isNumeral c = true := by
  split
  · exact List.all_eq_true.1 rfl
  · exact List.forall_mem_nil _

namespace Style

variable {digits : List Char}

theorem isNumeral_positional (style : Style) (point : Int)
    (h : ∀ c ∈ digits, isNumeral c = true) :
    ∀ c ∈ style.positional digits point, isNumeral c = true := by
  unfold positional
  split
  · refine List.forall_mem_cons.2 ⟨rfl, List.forall_mem_cons.2 ⟨rfl, ?_⟩⟩
    exact List.forall_mem_append.2 ⟨isNumeral_zeros _, h⟩
  · split
    · refine List.forall_mem_append.2 ⟨List.forall_mem_append.2 ⟨h, isNumeral_zeros _⟩, ?_⟩
      split
      · exact List.all_eq_true.1 rfl
      · exact List.forall_mem_nil _
    · refine List.forall_mem_append.2 ⟨fun c hc => h c (List.mem_of_mem_take hc), ?_⟩
      exact List.forall_mem_cons.2 ⟨rfl, fun c hc => h c (List.mem_of_mem_drop hc)⟩

theorem isNumeral_exponentText (style : Style) (exponent : Int) :
    ∀ c ∈ style.exponentText exponent, isNumeral c = true := by
  unfold exponentText
  refine List.forall_mem_append.2 ⟨List.forall_mem_append.2 ⟨?_, isNumeral_zeros _⟩,
    isNumeral_toDigits _⟩
  split
  · exact List.all_eq_true.1 rfl
  · split
    · exact List.all_eq_true.1 rfl
    · exact List.forall_mem_nil _

theorem isNumeral_scientific (style : Style) (exponent : Int)
    (h : ∀ c ∈ digits, isNumeral c = true) :
    ∀ c ∈ style.scientific digits exponent, isNumeral c = true := by
  have hdrop : ∀ c ∈ digits.drop 1, isNumeral c = true :=
    fun c hc => h c (List.mem_of_mem_drop hc)
  unfold scientific
  refine List.forall_mem_append.2 ⟨List.forall_mem_append.2 ⟨?_, ?_⟩, ?_⟩
  · exact fun c hc => h c (List.mem_of_mem_take hc)
  · split
    · exact List.forall_mem_nil _
    · exact List.forall_mem_cons.2 ⟨rfl, hdrop⟩
  · exact List.forall_mem_cons.2 ⟨rfl, isNumeral_exponentText style exponent⟩

theorem isNumeral_chars (style : Style) (x : Binary64) :
    ∀ c ∈ style.chars x, isNumeral c = true := by
  cases x with
  | nan =>
    show ∀ c ∈ ['N', 'a', 'N'], isNumeral c = true
    exact List.all_eq_true.1 rfl
  | infinite negative =>
    exact List.forall_mem_append.2 ⟨isNumeral_minus _, List.all_eq_true.1 rfl⟩
  | finite negative size =>
    refine List.forall_mem_append.2 ⟨isNumeral_minus _, ?_⟩
    unfold decimal
    split
    · exact isNumeral_positional style _ (isNumeral_toDigits _)
    · exact isNumeral_scientific style _ (isNumeral_toDigits _)

end Style

/-- The characters of a number in a scene, as opposed to its text. -/
def Number.chars : Number → List Char
  | .integer i => intChars i.toInt
  | .float x => Style.scene.chars x

theorem Number.toList_text (n : Number) : n.text.toList = n.chars := by
  cases n <;> exact String.toList_ofList

/-- Every character of a number is a numeral. -/
theorem Number.isNumeral_text (n : Number) : ∀ c ∈ n.text.toList, isNumeral c = true := by
  rw [toList_text]
  cases n with
  | integer i => exact List.forall_mem_append.2 ⟨isNumeral_minus _, isNumeral_toDigits _⟩
  | float x => exact Style.isNumeral_chars _ x

theorem Number.not_mem_text {c : Char} (hc : isNumeral c = false) (n : Number) :
    c ∉ n.text.toList := by
  intro hmem
  rw [n.isNumeral_text c hmem] at hc
  cases hc

/-! ## Numbered names -/

theorem Number.natText_injective : Function.Injective natText := by
  intro n n' h
  have hdigits : Nat.toDigits 10 n = Nat.toDigits 10 n' := String.ofList_injective h
  rw [← Nat.ofDigitChars_ten_toDigits (n := n), hdigits, Nat.ofDigitChars_ten_toDigits]

/-- A name with a number behind it ends in a digit. -/
theorem Number.append_natText_ne {s : String} (hs : s.toList.getLast?.any Char.isDigit = false)
    (t : String) (n : Nat) : t ++ natText n ≠ s := by
  rintro rfl
  obtain ⟨last, hlast⟩ := Option.ne_none_iff_exists'.1
    (mt List.getLast?_eq_none_iff.1 (Nat.toDigits_ne_nil (b := 10) (n := n)))
  have hdigit : last.isDigit = true :=
    Nat.isDigit_of_mem_toDigits (by decide) (by decide) (List.mem_of_getLast? hlast)
  have hend : (t ++ natText n).toList.getLast? = some last := by
    rw [String.toList_append, natText, String.toList_ofList, List.getLast?_append, hlast]
    rfl
  rw [hend, Option.any_some, hdigit] at hs
  cases hs

end SceneScript
