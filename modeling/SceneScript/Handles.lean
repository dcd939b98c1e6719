import SceneScript.Keyframe

/-!
# Handles

The handles of a keyframe follow from its curve and its two neighbours: each hand is that fraction
of the way to the neighbour, in time and in value. The first keyframe has no left handle, the last
no right one, and there is none towards a text. Integers give integer handles as long as they fit.

Main statements:

- `length_mapNeighbours`, `getElem?_mapNeighbours`: what a position yields depends on it and on its
  two neighbours only;
- `mapPart_append`, `dropLast_mapPart`, `tail_mapPart`: so a list may be cut in parts, and only the
  item at an end of a part sees what is beyond it.
-/

namespace SceneScript

/-- Applies `f` to every item of a list together with the items before and behind it; `before` is
the item in front of the list. -/
def mapNeighbours {α β : Type} (f : Option α → α → Option α → β) (before : Option α) :
    List α → List β
  | [] => []
  | a :: rest => f before a rest.head? :: mapNeighbours f (some a) rest

@[simp] theorem length_mapNeighbours {α β : Type} (f : Option α → α → Option α → β)
    (before : Option α) (l : List α) : (mapNeighbours f before l).length = l.length := by
  induction l generalizing before with
  | nil => rfl
  | cons a rest ih => simp [mapNeighbours, ih]

/-- What a position yields depends on its item and on the two beside it only. -/
theorem getElem?_mapNeighbours {α β : Type} (f : Option α → α → Option α → β) (before : Option α)
    (l : List α) (i : Nat) :
    (mapNeighbours f before l)[i]? =
      l[i]?.map fun a => f (match i with | 0 => before | j + 1 => l[j]?) a l[i + 1]? := by
  induction l generalizing before i with
  | nil => rfl
  | cons a rest ih =>
    cases i with
    | zero => simp [mapNeighbours, List.head?_eq_getElem?]
    | succ j => cases j <;> simp [mapNeighbours, ih]

section Parts

variable {α β γ : Type} {f : Option α → α → Option α → β} {before before' behind behind' : Option α}

/-- What `mapNeighbours` makes of a part of a list, with the items before and behind this part. -/
def mapPart (f : Option α → α → Option α → β) (before behind : Option α) : List α → List β
  | [] => []
  | a :: rest => f before a (rest.head?.or behind) :: mapPart f (some a) behind rest

theorem mapNeighbours_eq_mapPart (l : List α) :
    mapNeighbours f before l = mapPart f before none l := by
  induction l generalizing before with
  | nil => rfl
  | cons a rest ih => rw [mapNeighbours, mapPart, ih, Option.or_none]

/-- Each of two parts sees one item of the other beside it. -/
theorem mapPart_append (l l' : List α) :
    mapPart f before behind (l ++ l') =
      mapPart f before (l'.head?.or behind) l ++ mapPart f (l.getLast?.or before) behind l' := by
  induction l generalizing before with
  | nil => rfl
  | cons a rest ih =>
    have hnext : (rest ++ l').head?.or behind = rest.head?.or (l'.head?.or behind) := by
      rw [List.head?_append, Option.or_assoc]
    have hlast : (a :: rest).getLast?.or before = rest.getLast?.or (some a) := by
      cases rest <;> rfl
    rw [List.cons_append, mapPart, mapPart, ih, hnext, hlast]
    rfl

/-- Only the last item of a part sees what is behind the part. -/
theorem dropLast_mapPart (l : List α) :
    (mapPart f before behind l).dropLast = (mapPart f before behind' l).dropLast := by
  induction l generalizing before with
  | nil => rfl
  | cons a rest ih =>
    cases rest with
    | nil => rfl
    | cons b rest => exact congrArg (f before a (some b) :: ·) ih

/-- Only the first item of a part sees what is before the part. -/
theorem tail_mapPart (l : List α) :
    (mapPart f before behind l).tail = (mapPart f before' behind l).tail := by
  cases l <;> rfl

theorem map_mapPart {g : β → γ} {g' : α → γ}
    (hg : ∀ before a behind, g (f before a behind) = g' a) (l : List α) :
    (mapPart f before behind l).map g = l.map g' := by
  induction l generalizing before with
  | nil => rfl
  | cons a rest ih => rw [mapPart, List.map_cons, List.map_cons, hg, ih]

theorem map_mapPart_congr_behind {g : β → γ}
    (hg : ∀ before a behind behind', g (f before a behind) = g (f before a behind')) (l : List α) :
    (mapPart f before behind l).map g = (mapPart f before behind' l).map g := by
  induction l generalizing before with
  | nil => rfl
  | cons a rest ih =>
    rw [mapPart, mapPart, List.map_cons, List.map_cons, ih, hg _ _ _ (rest.head?.or behind')]

theorem map_mapPart_congr_before {g : β → γ}
    (hg : ∀ before before' a behind, g (f before a behind) = g (f before' a behind)) (l : List α) :
    (mapPart f before behind l).map g = (mapPart f before' behind l).map g := by
  cases l with
  | nil => rfl
  | cons a rest => rw [mapPart, mapPart, List.map_cons, List.map_cons, hg _ before']

end Parts

/-- What handles depend on: a value at a frame, and a curve. -/
structure Knot where
  frame : Number
  value : KeyframeValue
  curve : Curve := .linear
deriving DecidableEq

namespace Knot

/-- The handle towards the knot before. -/
def leftHandle (k before : Knot) : Option Handle := do
  let (x, y) ← k.curve.left
  let v ← k.value.number?
  let w ← before.value.number?
  return (k.frame - (k.frame - before.frame) * x, v - (v - w) * y)

/-- The handle towards the knot behind. -/
def rightHandle (k behind : Knot) : Option Handle := do
  let (x, y) ← k.curve.right
  let v ← k.value.number?
  let w ← behind.value.number?
  return (k.frame + (behind.frame - k.frame) * x, v + (w - v) * y)

end Knot

/-- The handles of a knot. -/
structure Handles where
  left : Option Handle := none
  right : Option Handle := none
deriving DecidableEq

namespace Handles

/-- The handles of a knot between its neighbours. -/
def between (before : Option Knot) (k : Knot) (behind : Option Knot) : Handles :=
  { left := before.bind k.leftHandle, right := behind.bind k.rightHandle }

/-- The knots of the given points; a point for which there is no curve gets a linear one. -/
def knots : List (Number × KeyframeValue) → List Curve → List Knot
  | [], _ => []
  | (frame, value) :: points, [] => ⟨frame, value, .linear⟩ :: knots points []
  | (frame, value) :: points, curve :: curves => ⟨frame, value, curve⟩ :: knots points curves

/-- The handles of all points of an animation, given in the order of time. -/
def compute (points : List (Number × KeyframeValue)) (curves : List Curve) : List Handles :=
  mapNeighbours between none (knots points curves)

end Handles

end SceneScript
