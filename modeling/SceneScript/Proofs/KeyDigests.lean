import SceneScript.Proofs.ExactOrder
import SceneScript.Proofs.RoundingBounds

/-!
# Equal keys are hashed alike

Frames are compared exactly, but what is hashed is the nearest double, and that may be another
number: `2 ^ 53 + 1` is hashed as `2 ^ 53`. Equal frames are hashed alike all the same. Two integers
that are equal are one integer. In every other case one of the two is a double, so their common
place is that of a double, and an integer at such a place is not rounded. Two doubles at one place
are one double unless they are the two zeros, and adding zero turns `-0` into `0`.

The converse holds of frames that are doubles, since their exact values are read off what is hashed.
It fails of integers that are rounded, such as the one above.

Main statements:

- `Binary64.add_zero_of_place?`: with zero added, doubles at one place are one double;
- `Number.place?_toBinary64`: a number at the place of some double is not rounded;
- `Key.digest_eq_of_beq`: equal keys feed the same data into a hash;
- the instance `LawfulHashable Key`;
- `Key.digests_respect_equality`: the law for keys and for the bits of numbers, with what these bits
  stand for.
-/

namespace SceneScript

namespace Binary64

theorem ofInt_zero : ofInt 0 = .finite false .zero := by decide +kernel

/-- With zero added, a finite double is known from its place; `-0` becomes `0`. -/
theorem add_zero_of_quanta {x : Binary64} {q : Int} (h : x.place? = some (.quanta q)) :
    x + ofInt 0 = if q = 0 then ofInt 0 else round (decide (q < 0)) q.natAbs 1 := by
  split
  · -- one of the two zeros, and `-0 + 0` is `0`
    rename_i hq
    obtain ⟨negative, size, rfl, hsigned⟩ := exists_of_place? h
    have hsum : signedQuanta negative size + signedQuanta false .zero = 0 := by
      rw [← hsigned, hq]
      rfl
    rw [ofInt_zero]
    show (if _ then _ else _) = _
    rw [if_pos hsum, Bool.and_false]
  · rename_i hq
    rw [add_eq_round h place?_ofInt_zero (by rwa [Int.add_zero]), Int.add_zero]

/-- With zero added, doubles at one place are one double. -/
theorem add_zero_of_place? {x y : Binary64} {p : Place} (hx : x.place? = some p)
    (hy : y.place? = some p) : x + ofInt 0 = y + ofInt 0 := by
  cases p with
  | quanta q => rw [add_zero_of_quanta hx, add_zero_of_quanta hy]
  | bottom => cases x <;> cases y <;> simp_all [place?]
  | top => cases x <;> cases y <;> simp_all [place?]

/-- Adding zero moves no double. -/
theorem place?_add_zero (x : Binary64) : (x + ofInt 0).place? = x.place? := by
  cases x with
  | nan => rfl
  | infinite negative => rw [ofInt_zero]; rfl
  | finite negative size =>
    have hplace := place?_finite negative size
    have hdouble := isDouble_of_place? hplace
    obtain ⟨q, hq, hlow, hhigh⟩ := place?_add_between hplace place?_ofInt_zero hdouble hdouble
      (Int.le_of_eq (Int.add_zero _).symm) (Int.le_of_eq (Int.add_zero _))
    rw [hq, hplace, Int.le_antisymm hhigh hlow]

end Binary64

namespace Number

/-- A number at the place of some double is not rounded in becoming one. -/
theorem place?_toBinary64 {n : Number} {x : Binary64} {p : Place} (hn : n.place? = some p)
    (hx : x.place? = some p) : n.toBinary64.place? = some p := by
  cases n with
  | float y => exact hn
  | integer i =>
    obtain rfl := Option.some.inj hn
    exact Binary64.place?_ofInt_of_isDouble (Binary64.isDouble_of_place? hx)

theorem eq_of_beq_integer {i j : Int64} (h : (integer i == integer j) = true) : i = j := by
  have hcompare : compare i j = .eq := Option.some.inj (of_decide_eq_true h)
  rw [compare_toInt] at hcompare
  exact Int64.toInt_inj.1 (Int.compare_eq_eq.1 hcompare)

/-- Equal numbers become one double, with zero added to it. -/
theorem toBinary64_add_zero_of_beq {m n : Number} (h : (m == n) = true) :
    m.toBinary64 + .ofInt 0 = n.toBinary64 + .ofInt 0 := by
  obtain ⟨p, hm, hn⟩ := beq_iff.1 h
  match m, n with
  | .integer i, .integer j => rw [eq_of_beq_integer h]
  | .integer i, .float y => exact Binary64.add_zero_of_place? (place?_toBinary64 hm hn) hn
  | .float x, n => exact Binary64.add_zero_of_place? hm (place?_toBinary64 hn hm)

/-- The bits of a number that equals some double stand for the exact value of the number. -/
theorem bitValue?_add_zero {n : Number} {x : Binary64} (h : (n == .float x) = true) :
    Binary64.bitValue? (n.toBinary64 + .ofInt 0).toBits = n.exactValue? := by
  obtain ⟨p, hn, hx⟩ := beq_iff.1 h
  rw [Binary64.bitValue?_toBits, Binary64.place?_add_zero, place?_toBinary64 hn hx, exactValue?_eq,
    hn]

end Number

namespace Key

theorem digest_eq_of_beq {a b : Key} (h : (a == b) = true) : a.digest = b.digest := by
  match a, b, h with
  | .name s, .name t, h => rw [eq_of_beq (α := String) h]
  | .index i, .index j, h => rw [eq_of_beq (α := Nat) h]
  | .frame m, .frame n, h => rw [digest, digest, Number.toBinary64_add_zero_of_beq h]

/-- A hash sees nothing of a key but its digest. -/
theorem hash_eq_of_digest_eq {a b : Key} (h : a.digest = b.digest) : hash a = hash b := by
  simp only [hash, h]

instance : LawfulHashable Key where
  hash_eq _ _ h := hash_eq_of_digest_eq (digest_eq_of_beq h)

/-- **Equal keys are hashed alike**: they feed the same data into a hash, whatever they stand for.
For frames that is since equal numbers, integers or doubles, have the same bits once they are
doubles and zero is added; and these bits stand for the exact value of every number that is a
double. -/
theorem digests_respect_equality :
    (∀ a b : Key, (a == b) = true → a.digest = b.digest ∧ hash a = hash b) ∧
    (∀ m n : Number, (m == n) = true →
      (m.toBinary64 + .ofInt 0).toBits = (n.toBinary64 + .ofInt 0).toBits) ∧
    (∀ (n : Number) (x : Binary64), (n == .float x) = true →
      Binary64.bitValue? (n.toBinary64 + .ofInt 0).toBits = n.exactValue?) := by
  refine ⟨fun a b h => ?_, fun m n h => ?_, fun n x h => Number.bitValue?_add_zero h⟩
  · exact ⟨digest_eq_of_beq h, hash_eq h⟩
  · rw [Number.toBinary64_add_zero_of_beq h]

/-- An integer of 54 bits and the double of its value are hashed alike, and so are the integer zero
and the double `-0`. -/
theorem digests_respect_equality_largeAndZero :
    (Key.frame (.integer 0x20000000000002)).digest =
      (Key.frame (.float (.ofInt 0x20000000000002))).digest ∧
    (Number.toBinary64 0 + .ofInt 0).toBits =
      (Number.toBinary64 (.float (-.ofInt 0)) + .ofInt 0).toBits :=
  ⟨(digests_respect_equality.1 _ _ (by decide +kernel)).1,
    digests_respect_equality.2.1 _ _ (by decide +kernel)⟩

end Key

end SceneScript
