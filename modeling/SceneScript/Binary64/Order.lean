import SceneScript.Binary64.Basic

/-!
# Where a number stands on the line

Every number other than `nan` has a place on the extended line: at one of its two ends, or at an
exact number of quanta. Numeric comparison is comparison of places, so it rounds nothing, and both
zeros have the same place.

Main statements:

- `Place.compare_swap`, `Place.compare_eq_iff`, `Place.compare_lt_trans`: places are linearly
  ordered.
-/

namespace SceneScript

/-- A point of the extended line, measured in quanta. -/
inductive Place
  | bottom
  | quanta (q : Int)
  | top
deriving DecidableEq

namespace Place

protected def compare : Place → Place → Ordering
  | .bottom, .bottom => .eq
  | .bottom, _ => .lt
  | .quanta _, .bottom => .gt
  | .quanta p, .quanta q => Ord.compare p q
  | .quanta _, .top => .lt
  | .top, .top => .eq
  | .top, _ => .gt

theorem compare_swap (a b : Place) : (a.compare b).swap = b.compare a := by
  cases a <;> cases b <;> simp [Place.compare, Int.compare_swap]

theorem compare_eq_iff {a b : Place} : a.compare b = .eq ↔ a = b := by
  cases a <;> cases b <;> simp [Place.compare]

theorem compare_lt_trans {a b c : Place} (hab : a.compare b = .lt) (hbc : b.compare c = .lt) :
    a.compare c = .lt := by
  cases a <;> cases b <;> simp [Place.compare] at hab <;>
    cases c <;> simp [Place.compare, Int.compare_eq_lt] at hab hbc ⊢
  omega

end Place

namespace Binary64

/-- The place of a number; `nan` has none. -/
def place? : Binary64 → Option Place
  | .nan => none
  | .infinite negative => some (if negative then .bottom else .top)
  | .finite negative size => some (.quanta (signedQuanta negative size))

/-- Numeric comparison; `nan` compares with nothing. -/
def compare? (x y : Binary64) : Option Ordering := do
  return (← x.place?).compare (← y.place?)

theorem place?_finite (negative : Bool) (size : Magnitude) :
    (finite negative size).place? = some (.quanta (signedQuanta negative size)) := rfl

theorem compare?_of_place? {x y : Binary64} {p q : Place} (hx : x.place? = some p)
    (hy : y.place? = some q) : x.compare? y = some (p.compare q) := by
  simp [compare?, hx, hy]

/-- The number held between zero and one. `nan` stays, and so does `-0`. -/
def clampUnit (x : Binary64) : Binary64 :=
  if x.compare? (ofInt 0) = some .lt then ofInt 0
  else if x.compare? (ofInt 1) = some .gt then ofInt 1
  else x

/-- The integer nearest to a finite number, halves going away from zero; zero for the others. -/
def roundHalfAway : Binary64 → Int
  | .finite negative size =>
    let whole := (2 * size.quanta + unit) / (2 * unit)
    if negative then -whole else whole
  | _ => 0

end Binary64

end SceneScript
