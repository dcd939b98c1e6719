import SceneScript.Table.Basic

/-!
# The order of keys

An ordered table writes its entries in the order of their keys. For that order to be one, comparing
has to be total and transitive on all keys, `nan` frames included: numbers are compared by their
exact places, so nothing is lost between integers and doubles, and every `nan` stands behind the
line as one more place.

Main statements:

- the instances `Std.TransCmp` of `Place.compare`, `Number.totalCompare` and `Key.compare`;
- `filter_arrange`: entries may be left out before or after they are put into order.
-/

namespace SceneScript

/-! ## Places -/

namespace Place

theorem isLE_trans {a b c : Place} (hab : (a.compare b).isLE) (hbc : (b.compare c).isLE) :
    (a.compare c).isLE := by
  rcases Ordering.isLE_iff_eq_lt_or_eq_eq.1 hab with hab | hab
  · rcases Ordering.isLE_iff_eq_lt_or_eq_eq.1 hbc with hbc | hbc
    · rw [compare_lt_trans hab hbc]; rfl
    · rw [← compare_eq_iff.1 hbc, hab]; rfl
  · rwa [compare_eq_iff.1 hab]

instance : Std.TransCmp Place.compare where
  eq_swap {a b} := (compare_swap b a).symm
  isLE_trans := isLE_trans

end Place

/-! ## Numbers -/

namespace Number

/-- The total order compares places; `nan` stands behind all of them. -/
theorem totalCompare_eq (a b : Number) :
    a.totalCompare b =
      match a.place?, b.place? with
      | some p, some q => p.compare q
      | some _, none => .lt
      | none, some _ => .gt
      | none, none => .eq := by
  have nan_iff : ∀ n : Number, n.isNaN = decide (n.place? = none) := by
    intro n
    rw [Bool.eq_iff_iff, ← place?_eq_none_iff, decide_eq_true_iff]
  cases ha : a.place? <;> cases hb : b.place? <;>
    simp [totalCompare, compare?_eq, nan_iff, ha, hb] <;> rfl

theorem totalCompare_swap (a b : Number) : a.totalCompare b = (b.totalCompare a).swap := by
  rw [totalCompare_eq, totalCompare_eq]
  cases a.place? <;> cases b.place? <;> try rfl
  exact (Place.compare_swap _ _).symm

theorem isLE_trans {a b c : Number} (hab : (a.totalCompare b).isLE)
    (hbc : (b.totalCompare c).isLE) : (a.totalCompare c).isLE := by
  rw [totalCompare_eq] at hab hbc ⊢
  cases ha : a.place? <;> cases hb : b.place? <;> cases hc : c.place? <;>
    simp_all
  exact Place.isLE_trans hab hbc

instance : Std.TransCmp totalCompare where
  eq_swap := totalCompare_swap _ _
  isLE_trans := isLE_trans

theorem isLE_total (a b : Number) : (a.totalCompare b).isLE ∨ (b.totalCompare a).isLE := by
  rw [totalCompare_swap b a]
  cases a.totalCompare b <;> simp

end Number

/-! ## Keys -/

namespace Key

/-- Keys of different kinds are in the order of their kinds. -/
theorem compare_of_rank_ne {a b : Key} (h : a.rank ≠ b.rank) :
    a.compare b = Ord.compare a.rank b.rank := by
  cases a <;> cases b <;> first | rfl | exact absurd rfl h

/-- Whatever the kinds are, a smaller key is of no larger kind. -/
theorem rank_le_of_isLE {a b : Key} (h : (a.compare b).isLE) : a.rank ≤ b.rank := by
  by_cases hr : a.rank = b.rank
  · exact Nat.le_of_eq hr
  · rw [compare_of_rank_ne hr] at h
    exact Nat.isLE_compare.1 h

theorem isLE_trans {a b c : Key} (hab : (a.compare b).isLE) (hbc : (b.compare c).isLE) :
    (a.compare c).isLE := by
  have h₁ := rank_le_of_isLE hab
  have h₂ := rank_le_of_isLE hbc
  by_cases hr : a.rank = c.rank
  · -- all three are of one kind, and each kind is ordered by what it holds
    cases a <;> cases b <;> cases c <;> simp only [rank] at h₁ h₂ hr <;> try omega
    · exact Std.TransOrd.isLE_trans (α := String) hab hbc
    · exact Number.isLE_trans hab hbc
    · exact Std.TransOrd.isLE_trans (α := Nat) hab hbc
  · rw [compare_of_rank_ne hr]
    exact Nat.isLE_compare.2 (Nat.le_trans h₁ h₂)

theorem compare_swap (a b : Key) : a.compare b = (b.compare a).swap := by
  by_cases hr : a.rank = b.rank
  · cases a <;> cases b <;> simp only [rank] at hr <;> try omega
    · exact Std.OrientedOrd.eq_swap (α := String)
    · exact Number.totalCompare_swap _ _
    · exact Std.OrientedOrd.eq_swap (α := Nat)
  · rw [compare_of_rank_ne hr, compare_of_rank_ne (Ne.symm hr)]
    exact Std.OrientedOrd.eq_swap

instance : Std.TransCmp Key.compare where
  eq_swap := compare_swap _ _
  isLE_trans := isLE_trans

theorem isLE_total (a b : Key) : (a.compare b).isLE ∨ (b.compare a).isLE := by
  rw [compare_swap b a]
  cases a.compare b <;> simp

end Key

/-! ## Entries in order -/

namespace TableOf

/-- Entries may be left out before or after they are put into order. -/
theorem filter_arrange {β : Type} (ordered : Bool) (key : β → Key) (p : β → Bool)
    (entries : List β) :
    (arrange ordered key entries).filter p = arrange ordered key (entries.filter p) := by
  unfold arrange
  split
  · refine filter_sortBy (fun a b c => ?_) (fun a b => ?_) p entries
    · exact Key.isLE_trans
    · exact Key.isLE_total (key a) (key b)
  · rfl

end TableOf

end SceneScript
