/-!
# Sorting

`sortBy le` puts a list into ascending order and leaves items that are equal in the order they had:
every item goes in front of the first one behind it that is not below it. The recursion is on the
list, so the order of given items can be computed inside a proof.

Main statements:

- `sortBy_perm`: sorting loses and doubles nothing;
- `pairwise_sortBy`: the result is in order, if the order is transitive and total;
- `sortBy_of_pairwise`: a list that is in order stays as it is;
- `sortBy_map`, `filter_sortBy`: sorting commutes with changing items but not their order, and with
  leaving items out.
-/

namespace SceneScript

variable {α β : Type}

/-- Puts an item in front of the first one that is not below it. -/
def insertBy (le : α → α → Bool) (a : α) : List α → List α
  | [] => [a]
  | b :: rest => if le a b then a :: b :: rest else b :: insertBy le a rest

/-- The items in ascending order; equal items stay in the order they have. -/
def sortBy (le : α → α → Bool) : List α → List α
  | [] => []
  | a :: rest => insertBy le a (sortBy le rest)

theorem insertBy_perm (le : α → α → Bool) (a : α) (l : List α) :
    (insertBy le a l).Perm (a :: l) := by
  induction l with
  | nil => exact .refl _
  | cons b rest ih =>
    unfold insertBy
    split
    · exact .refl _
    · exact (ih.cons b).trans (.swap a b rest)

theorem sortBy_perm (le : α → α → Bool) (l : List α) : (sortBy le l).Perm l := by
  induction l with
  | nil => exact .refl _
  | cons a rest ih => exact (insertBy_perm le a _).trans (ih.cons a)

@[simp] theorem length_sortBy (le : α → α → Bool) (l : List α) :
    (sortBy le l).length = l.length :=
  (sortBy_perm le l).length_eq

@[simp] theorem mem_sortBy {le : α → α → Bool} {a : α} {l : List α} : a ∈ sortBy le l ↔ a ∈ l :=
  (sortBy_perm le l).mem_iff

theorem pairwise_insertBy {le : α → α → Bool}
    (trans : ∀ a b c, le a b = true → le b c = true → le a c = true)
    (total : ∀ a b, le a b = true ∨ le b a = true) (a : α) {l : List α}
    (h : l.Pairwise (le · ·)) : (insertBy le a l).Pairwise (le · ·) := by
  induction l with
  | nil => exact List.pairwise_singleton _ _
  | cons b rest ih =>
    rw [List.pairwise_cons] at h
    unfold insertBy
    split
    · rename_i hab
      refine List.pairwise_cons.2 ⟨fun c hc => ?_, List.pairwise_cons.2 h⟩
      rcases List.mem_cons.1 hc with rfl | hc
      · exact hab
      · exact trans a b c hab (h.1 c hc)
    · rename_i hab
      refine List.pairwise_cons.2 ⟨fun c hc => ?_, ih h.2⟩
      rcases List.mem_cons.1 ((insertBy_perm le a rest).mem_iff.1 hc) with rfl | hc
      · exact (total c b).resolve_left hab
      · exact h.1 c hc

theorem pairwise_sortBy {le : α → α → Bool}
    (trans : ∀ a b c, le a b = true → le b c = true → le a c = true)
    (total : ∀ a b, le a b = true ∨ le b a = true) (l : List α) :
    (sortBy le l).Pairwise (le · ·) := by
  induction l with
  | nil => exact .nil
  | cons a rest ih => exact pairwise_insertBy trans total a ih

theorem sortBy_of_pairwise {le : α → α → Bool} {l : List α} (h : l.Pairwise (le · ·)) :
    sortBy le l = l := by
  induction l with
  | nil => rfl
  | cons a rest ih =>
    rw [List.pairwise_cons] at h
    rw [sortBy, ih h.2]
    cases rest with
    | nil => rfl
    | cons b rest => simp [insertBy, h.1 b]

theorem insertBy_map (le : β → β → Bool) (f : α → β) (a : α) (l : List α) :
    insertBy le (f a) (l.map f) = (insertBy (fun x y => le (f x) (f y)) a l).map f := by
  induction l with
  | nil => rfl
  | cons b rest ih =>
    simp only [List.map_cons, insertBy, ih]
    split <;> rfl

/-- Items may be changed before or after sorting, if the change keeps their order. -/
theorem sortBy_map (le : β → β → Bool) (f : α → β) (l : List α) :
    sortBy le (l.map f) = (sortBy (fun x y => le (f x) (f y)) l).map f := by
  induction l with
  | nil => rfl
  | cons a rest ih => rw [List.map_cons, sortBy, ih, insertBy_map, sortBy]

/-- An item that is left out leaves no trace. -/
theorem filter_insertBy_of_neg (le : α → α → Bool) {p : α → Bool} {a : α} (ha : p a = false)
    (l : List α) : (insertBy le a l).filter p = l.filter p := by
  induction l with
  | nil => simp [insertBy, ha]
  | cons b rest ih =>
    unfold insertBy
    split
    · rw [List.filter_cons, if_neg (by simp [ha])]
    · rw [List.filter_cons, List.filter_cons, ih]

theorem insertBy_of_forall {le : α → α → Bool} {a : α} {l : List α} (h : ∀ b ∈ l, le a b = true) :
    insertBy le a l = a :: l := by
  cases l with
  | nil => rfl
  | cons b rest => rw [insertBy, if_pos (h b List.mem_cons_self)]

/-- In a list that is in order, what is left out does not change where an item goes. -/
theorem filter_insertBy_of_pos {le : α → α → Bool}
    (trans : ∀ a b c, le a b = true → le b c = true → le a c = true) {p : α → Bool} {a : α}
    (ha : p a = true) {l : List α} (h : l.Pairwise (le · ·)) :
    (insertBy le a l).filter p = insertBy le a (l.filter p) := by
  induction l with
  | nil => simp [insertBy, ha]
  | cons b rest ih =>
    rw [List.pairwise_cons] at h
    by_cases hab : le a b = true
    · -- `a` is below everything that follows `b`, so it goes first in what is kept of it
      have hall : ∀ c ∈ (b :: rest).filter p, le a c = true := by
        intro c hc
        rcases List.mem_cons.1 (List.mem_filter.1 hc).1 with rfl | hc
        · exact hab
        · exact trans a b c hab (h.1 c hc)
      rw [insertBy, if_pos hab, List.filter_cons, if_pos ha, insertBy_of_forall hall]
    · rw [insertBy, if_neg hab, List.filter_cons, List.filter_cons, ih h.2]
      by_cases hb : p b = true
      · rw [if_pos hb, if_pos hb, insertBy, if_neg hab]
      · rw [if_neg hb, if_neg hb]

/-- Items may be left out before or after sorting. -/
theorem filter_sortBy {le : α → α → Bool}
    (trans : ∀ a b c, le a b = true → le b c = true → le a c = true)
    (total : ∀ a b, le a b = true ∨ le b a = true) (p : α → Bool) (l : List α) :
    (sortBy le l).filter p = sortBy le (l.filter p) := by
  induction l with
  | nil => rfl
  | cons a rest ih =>
    rw [sortBy, List.filter_cons]
    split
    · rename_i ha
      rw [filter_insertBy_of_pos trans ha (pairwise_sortBy trans total rest), ih, sortBy]
    · rename_i ha
      rw [filter_insertBy_of_neg le (by simpa using ha), ih]

end SceneScript
