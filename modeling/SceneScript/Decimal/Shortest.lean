import SceneScript.Binary64.Basic

/-!
# The shortest decimal that reads back

Every double is a whole number of *grains* of `10 ^ (-1074)`, a quantum being `5 ^ 1074` of them, so
the decimals between which to choose are the multiples of powers of ten among the natural numbers.
Grids are tried from coarse to fine; on each, only the two neighbours of the number can be the
answer. The first grid with a neighbour inside the rounding interval gives the fewest digits, and of
two such neighbours the nearer is taken, the upper one when both are equally near.

Main statements:

- `pick_inside`, `shortest_inside`: the chosen decimal lies in the rounding interval, hence reads
  back as the number it was chosen for.
-/

namespace SceneScript

/-- The decimal number `significand * 10 ^ exponent`. -/
structure Decimal where
  significand : Nat
  exponent : Int
deriving DecidableEq

/-- A range of natural numbers, with or without its two ends. -/
structure Span where
  low : Nat
  high : Nat
  closed : Bool

namespace Span

def contains (s : Span) (n : Nat) : Bool :=
  if s.closed then s.low ≤ n && n ≤ s.high else s.low < n && n < s.high

end Span

namespace Decimal

/-- How many grains make a quantum. -/
@[irreducible] def grains : Nat := Nat.pow 5 1074

/-- The real numbers that round to a double of `q` quanta, in quarters of a quantum. Below a power
of two the gap is half as wide; the ends round to even significands. -/
def roundingSpan (q : Nat) : Span :=
  let gap := Binary64.spacing q
  let below := if q = Nat.pow 2 q.log2 ∧ 52 < q.log2 then gap else 2 * gap
  ⟨4 * q - below, 4 * q + 2 * gap, q / gap % 2 = 0⟩

/-- Whether a number of grains rounds to a double of `q` quanta. -/
def readsBack (q : Nat) (grain : Nat) : Bool :=
  let span := roundingSpan q
  Span.contains ⟨span.low * grains, span.high * grains, span.closed⟩ (4 * grain)

/-- Of the two multiples of `step` around `n`, the number of steps of the one that is `inside`; of
both, the nearer. -/
def pick (inside : Nat → Bool) (n step : Nat) : Option Nat :=
  let s := n / step
  match inside (s * step), inside ((s + 1) * step) with
  | true, true => if 2 * (n % step) < step then some s else some (s + 1)
  | true, false => some s
  | false, true => some (s + 1)
  | false, false => none

theorem pick_inside {inside : Nat → Bool} {n step s : Nat} (h : pick inside n step = some s) :
    inside (s * step) = true := by
  simp only [pick] at h
  split at h
  · split at h <;> (obtain rfl := Option.some.inj h; assumption)
  · obtain rfl := Option.some.inj h; assumption
  · obtain rfl := Option.some.inj h; assumption
  · contradiction

/-- Tries the grids of `10 ^ places` grains and finer ones; on the finest stands the number itself.
-/
def search (inside : Nat → Bool) (n : Nat) : (places : Nat) → Decimal
  | 0 => ⟨n, -1074⟩
  | places + 1 =>
    match pick inside n (Nat.pow 10 (places + 1)) with
    | some s => ⟨s, (places + 1 : Int) - 1074⟩
    | none => search inside n places

/-- The decimal with the fewest digits that reads back as the given magnitude. -/
def shortest (size : Magnitude) : Decimal :=
  if size.quanta = 0 then ⟨0, 0⟩
  else
    let n := size.quanta * grains
    -- `10 ^ (n.log2 / 3 + 1)` is above `n`: a coarser grid offers nothing but zero and its own step
    search (readsBack size.quanta) n (n.log2 / 3 + 1)

/-- How many grains a decimal stands for. -/
def toGrains (d : Decimal) : Nat := d.significand * Nat.pow 10 (d.exponent + 1074).toNat

theorem search_inside {inside : Nat → Bool} {n : Nat} (hn : inside n = true) (places : Nat) :
    inside (search inside n places).toGrains = true := by
  induction places with
  | zero => simpa [search, toGrains] using hn
  | succ places ih =>
    unfold search
    split
    · rename_i s hs
      have := pick_inside hs
      have he : ((places : Int) + 1 - 1074 + 1074).toNat = places + 1 := by omega
      simpa [toGrains, he] using this
    · exact ih

/-- A double lies inside its own rounding interval. -/
theorem readsBack_self {q : Nat} (hq : 0 < q) : readsBack q (q * grains) = true := by
  have hg : 0 < grains := by decide +kernel
  have hs := Binary64.spacing_pos q
  have hlow : (roundingSpan q).low < 4 * q := by
    simp only [roundingSpan]; split <;> omega
  have hhigh : 4 * q < (roundingSpan q).high := by
    simp only [roundingSpan]; omega
  have h1 : (roundingSpan q).low * grains < 4 * (q * grains) := by
    rw [← Nat.mul_assoc]; exact Nat.mul_lt_mul_of_pos_right hlow hg
  have h2 : 4 * (q * grains) < (roundingSpan q).high * grains := by
    rw [← Nat.mul_assoc]; exact Nat.mul_lt_mul_of_pos_right hhigh hg
  simp only [readsBack, Span.contains]
  split <;> simp <;> omega

/-- The shortest decimal of a positive double reads back as that double. -/
theorem shortest_inside {size : Magnitude} (h : 0 < size.quanta) :
    readsBack size.quanta (shortest size).toGrains = true := by
  simp only [shortest, Nat.ne_of_gt h, if_false]
  exact search_inside (readsBack_self h) _

end Decimal

end SceneScript
