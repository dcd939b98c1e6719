import Mathlib.Data.List.Induction
import Mathlib.Data.List.Nodup
import SceneScript.Registry

/-!
# Registering one thing after the other

A registry puts a thing where the one of its name stands, or else last. Everything else is the same
list before and behind, and this is all that is used of it. When many things are registered, the
last one of a name is found under it, the names stand in the order in which they came first, and
things of other names keep their order among themselves.

Main statements:

- `placed_put`, `exists_put_eq`: what putting a thing does to the list of things;
- `names_putAll`: the names are those that were there and the new ones, each where it came first;
- `find?_putAll`: of the things of a name the last is found;
- `filter_putAll`: things of other names are left alone.
-/

namespace SceneScript

/-! ## Names in the order in which they came -/

/-- Names with one more behind them, unless it is there or none is given. -/
def withName (names : List String) : Option String → List String
  | none => names
  | some name => if name ∈ names then names else names ++ [name]

theorem withName_of_mem {names : List String} {name : String} (h : name ∈ names) :
    withName names (some name) = names :=
  if_pos h

theorem eraseDups_concat (names : List String) (name : String) :
    (names ++ [name]).eraseDups = withName names.eraseDups (some name) := by
  rw [List.eraseDups_append, withName]
  by_cases hname : name ∈ names
  · rw [if_pos (List.mem_eraseDups.2 hname)]
    simp [List.removeAll, hname]
  · rw [if_neg (mt List.mem_eraseDups.1 hname)]
    simp [List.removeAll, hname, List.eraseDups_cons]

/-- Each name counts where it comes first. -/
theorem eraseDups_filterMap_concat {α : Type} (f : α → Option String) (l : List α) (a : α) :
    ((l ++ [a]).filterMap f).eraseDups = withName (l.filterMap f).eraseDups (f a) := by
  rw [List.filterMap_append]
  cases ha : f a with
  | none => simp [ha, withName]
  | some name =>
    rw [List.filterMap_cons_some ha]
    exact eraseDups_concat _ name

/-- Names that differ are all counted. -/
theorem eraseDups_of_nodup {names : List String} (h : names.Nodup) : names.eraseDups = names := by
  induction names using List.reverseRecOn with
  | nil => rfl
  | append_singleton names name ih =>
    obtain ⟨hnames, -, hdisjoint⟩ := List.nodup_append.1 h
    have hnew : name ∉ names := fun hmem => hdisjoint name hmem name List.mem_cons_self rfl
    rw [eraseDups_concat, ih hnames]
    exact if_neg hnew

namespace Registry

variable {α : Type} [Named α]

/-! ## One thing -/

/-- Whether a list comes from another by placing a thing: where the one of its name stands, or last
if there is none. -/
def Placed (a : α) (l l' : List α) : Prop :=
  (∃ before b behind, nameOf b = nameOf a ∧ l = before ++ b :: behind ∧
    l' = before ++ a :: behind) ∨
  nameOf a ∉ l.map nameOf ∧ l' = l ++ [a]

theorem placed_put (r : Registry α) (a : α) : Placed a r.items (r.put a).items := by
  obtain ⟨l, hnodup⟩ := r
  show Placed a l (putList a l)
  clear hnodup
  induction l with
  | nil => exact .inr ⟨List.not_mem_nil, rfl⟩
  | cons first rest ih =>
    rw [putList]
    split
    · rename_i hname
      exact .inl ⟨[], first, rest, hname, rfl, rfl⟩
    · rename_i hname
      rcases ih with ⟨before, b, behind, hb, hrest, hput⟩ | ⟨hnew, hput⟩
      · exact .inl ⟨first :: before, b, behind, hb, by rw [hrest]; rfl, by rw [hput]; rfl⟩
      · refine .inr ⟨?_, by rw [hput]; rfl⟩
        rw [List.map_cons, List.mem_cons, not_or]
        exact ⟨Ne.symm hname, hnew⟩

/-- What is found under the name of a thing is what the thing takes the place of. -/
theorem exists_put_eq {r : Registry α} {a b : α} (h : r.find? (nameOf b) = some a) :
    ∃ before behind, r.items = before ++ a :: behind ∧
      (r.put b).items = before ++ b :: behind := by
  have hmem : a ∈ r.items := List.mem_of_find?_eq_some h
  have hname : nameOf a = nameOf b := nameOf_of_find? h
  rcases r.placed_put b with ⟨before, b', behind, hb', hitems, hput⟩ | ⟨hnew, -⟩
  · have hmem' : b' ∈ r.items := hitems ▸ List.mem_append_right _ List.mem_cons_self
    obtain rfl : b' = a := eq_of_nameOf_eq hmem' hmem (hb'.trans hname.symm)
    exact ⟨before, behind, hitems, hput⟩
  · exact absurd (hname ▸ List.mem_map_of_mem hmem) hnew

theorem names_put (r : Registry α) (a : α) :
    (r.put a).names = withName r.names (some (nameOf a)) :=
  map_putList a r.items

theorem names_of_placed {r r' : Registry α} {a : α} (h : Placed a r.items r'.items) :
    r'.names = withName r.names (some (nameOf a)) := by
  rcases h with ⟨before, b, behind, hname, hitems, hitems'⟩ | ⟨hnew, hitems'⟩
  · have hmem : nameOf a ∈ r.names := by
      rw [names, hitems, ← hname]
      exact List.mem_map_of_mem (List.mem_append_right _ List.mem_cons_self)
    rw [withName_of_mem hmem]
    simp [names, hitems, hitems', hname]
  · rw [names, hitems', List.map_append]
    exact (if_neg hnew).symm

/-- Things of other names stay as they are and in their order. -/
theorem filter_put (r : Registry α) {a : α} {p : String → Bool} (h : p (nameOf a) = false) :
    (r.put a).items.filter (fun b => p (nameOf b)) = r.items.filter fun b => p (nameOf b) := by
  rcases r.placed_put a with ⟨before, b, behind, hname, hitems, hput⟩ | ⟨-, hput⟩
  · have hb : p (nameOf b) = false := hname ▸ h
    simp [hitems, hput, List.filter_append, h, hb]
  · simp [hput, List.filter_append, h]

/-- Of two things of one name the second is left, at the place of the first. -/
theorem put_put (r : Registry α) {a b : α} (h : nameOf b = nameOf a) :
    (r.put a).put b = r.put b := by
  have hlist : ∀ l : List α, putList b (putList a l) = putList b l := by
    intro l
    induction l with
    | nil => simp [putList, h]
    | cons first rest ih =>
      by_cases hfirst : nameOf first = nameOf a <;> simp [putList, h, hfirst, ih]
  obtain ⟨l, hnodup⟩ := r
  simp only [put, hlist l]

/-- A thing that is edited right after it was put might have been put as it is then. -/
theorem modify_put_self (r : Registry α) {a : α} {f : α → α} (h : nameOf (f a) = nameOf a) :
    (r.put a).modify (nameOf a) f = r.put (f a) := by
  rw [modify, find?_put_self]
  exact r.put_put h

/-- An edit that keeps names shows under one of them. -/
theorem find?_modify (r : Registry α) {f : α → α} (hf : ∀ a, nameOf (f a) = nameOf a)
    (name name' : String) :
    (r.modify name f).find? name' =
      if name' = name then (r.find? name').map f else r.find? name' := by
  cases ha : r.find? name with
  | none =>
    have hsame : r.modify name f = r := by rw [modify, ha]
    rw [hsame]
    split
    · rename_i hname
      rw [hname, ha]
      rfl
    · rfl
  | some a =>
    have hput : r.modify name f = r.put (f a) := by rw [modify, ha]
    have hname : nameOf (f a) = name := (hf a).trans (nameOf_of_find? ha)
    rw [hput, find?_put, hname]
    split
    · rename_i hname'
      rw [hname', ha]
      rfl
    · rfl

theorem mem_items_modify {r : Registry α} {name : String} {f : α → α} {a : α}
    (h : a ∈ (r.modify name f).items) :
    a ∈ r.items ∨ ∃ b ∈ r.items, nameOf b = name ∧ a = f b := by
  cases hb : r.find? name with
  | none =>
    rw [modify, hb] at h
    exact .inl h
  | some b =>
    rw [modify, hb] at h
    rcases mem_items_put h with rfl | h
    · exact .inr ⟨b, List.mem_of_find?_eq_some hb, nameOf_of_find? hb, rfl⟩
    · exact .inl h

/-! ## Several things -/

theorem putAll_concat (r : Registry α) (as : List α) (a : α) :
    r.putAll (as ++ [a]) = (r.putAll as).put a :=
  List.foldl_append

theorem mem_items_putAll {r : Registry α} {as : List α} {a : α} (h : a ∈ (r.putAll as).items) :
    a ∈ as ∨ a ∈ r.items := by
  induction as using List.reverseRecOn with
  | nil => exact .inr h
  | append_singleton as last ih =>
    rw [putAll_concat] at h
    rcases mem_items_put h with rfl | h
    · exact .inl (List.mem_append_right _ List.mem_cons_self)
    · exact (ih h).imp_left (List.mem_append_left _)

theorem names_putAll_of_eraseDups {r : Registry α} {names : List String}
    (h : r.names = names.eraseDups) (as : List α) :
    (r.putAll as).names = (names ++ as.map nameOf).eraseDups := by
  induction as using List.reverseRecOn with
  | nil =>
    rw [List.map_nil, List.append_nil]
    exact h
  | append_singleton as a ih =>
    rw [putAll_concat, names_put, ih, ← eraseDups_concat, List.append_assoc, List.map_append]
    rfl

/-- The names are those that were there and the new ones, each where it came first. -/
theorem names_putAll (r : Registry α) (as : List α) :
    (r.putAll as).names = (r.names ++ as.map nameOf).eraseDups :=
  names_putAll_of_eraseDups (eraseDups_of_nodup r.nodup).symm as

/-- Of the things of a name the last is found. -/
theorem find?_putAll (r : Registry α) (as : List α) (name : String) :
    (r.putAll as).find? name = (as.reverse.find? (nameOf · == name)).or (r.find? name) := by
  induction as using List.reverseRecOn with
  | nil => rfl
  | append_singleton as a ih =>
    rw [putAll_concat, find?_put, ih, List.reverse_concat, List.find?_cons]
    by_cases hname : name = nameOf a
    · rw [if_pos hname, hname, beq_self_eq_true]
      rfl
    · rw [if_neg hname, beq_eq_false_iff_ne.2 (Ne.symm hname)]

theorem contains_putAll (r : Registry α) (as : List α) (name : String) :
    (r.putAll as).contains name = (as.any (nameOf · == name) || r.contains name) := by
  rw [contains, find?_putAll, Option.isSome_or, List.isSome_find?, List.any_reverse]
  rfl

/-- Things whose names differ are all found. -/
theorem find?_putAll_of_mem (r : Registry α) {as : List α} (hnodup : (as.map nameOf).Nodup) {a : α}
    (ha : a ∈ as) : (r.putAll as).find? (nameOf a) = some a := by
  have hreverse : (as.reverse.map nameOf).Nodup := by
    rw [List.map_reverse]
    exact List.nodup_reverse.2 hnodup
  have hfind : as.reverse.find? (nameOf · == nameOf a) = some a :=
    mem_items_iff (r := ⟨as.reverse, hreverse⟩).1 (List.mem_reverse.2 ha)
  rw [find?_putAll, hfind]
  rfl

/-- Things of other names stay as they are and in their order. -/
theorem filter_putAll (r : Registry α) {as : List α} {p : String → Bool}
    (h : ∀ a ∈ as, p (nameOf a) = false) :
    (r.putAll as).items.filter (fun b => p (nameOf b)) = r.items.filter fun b => p (nameOf b) := by
  induction as using List.reverseRecOn with
  | nil => rfl
  | append_singleton as a ih =>
    obtain ⟨has, ha⟩ := List.forall_mem_append.1 h
    rw [putAll_concat, filter_put _ (ha a List.mem_cons_self), ih has]

end Registry

end SceneScript
