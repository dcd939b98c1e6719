/-!
# Registries

A registry holds things that have a name, one for each name, in the order in which the names were
first registered. Registering a thing replaces the one of the same name where it stands.

A thing is always found under its own name, since edits of what is registered keep its name. A thing
that is exchanged as a whole, where it stands, for one of another name would be found under a name
that it does not have; such states are left out.

Main statements:

- `find?_put_self`, `find?_put_of_ne`: registering shows under the thing's own name only;
- `map_putList`: it keeps all names where they are, or adds one at the end;
- `mem_items_iff`: what is registered is what is found under its own name;
- `mem_names_iff_contains`: the names are those that are found.
-/

namespace SceneScript

/-- Things that have a name. -/
class Named (α : Type) where
  nameOf : α → String

export Named (nameOf)

/-- Things with different names, in the order of first registration. The name is the only key: no
thing stands under a name other than its own. -/
structure Registry (α : Type) [Named α] where
  items : List α
  nodup : (items.map nameOf).Nodup

namespace Registry

variable {α : Type} [Named α]

instance : EmptyCollection (Registry α) := ⟨⟨[], List.nodup_nil⟩⟩

instance : Inhabited (Registry α) := ⟨∅⟩

def names (r : Registry α) : List String := r.items.map nameOf

def size (r : Registry α) : Nat := r.items.length

def isEmpty (r : Registry α) : Bool := r.items.isEmpty

/-- The thing registered under a name. -/
def find? (r : Registry α) (name : String) : Option α := r.items.find? (nameOf · == name)

def contains (r : Registry α) (name : String) : Bool := (r.find? name).isSome

/-- Replaces the first thing of the same name, or adds one at the end. -/
def putList (a : α) : List α → List α
  | [] => [a]
  | b :: rest => if nameOf b = nameOf a then a :: rest else b :: putList a rest

theorem map_putList (a : α) (l : List α) :
    (putList a l).map nameOf =
      if nameOf a ∈ l.map nameOf then l.map nameOf else l.map nameOf ++ [nameOf a] := by
  induction l with
  | nil => rfl
  | cons b rest ih =>
    by_cases h : nameOf b = nameOf a
    · simp [putList, h]
    · have h' : ¬ nameOf a = nameOf b := fun e => h e.symm
      simp only [putList, h, if_false, List.map_cons, ih, List.mem_cons, h', false_or]
      split <;> simp

theorem nodup_putList (a : α) {l : List α} (h : (l.map nameOf).Nodup) :
    ((putList a l).map nameOf).Nodup := by
  rw [map_putList]
  split
  · exact h
  · rename_i hn
    rw [List.nodup_append]
    exact ⟨h, by simp, fun x hx y hy => by
      obtain rfl := List.mem_singleton.1 hy
      exact fun e => hn (e ▸ hx)⟩

/-- Registers a thing under its name. -/
def put (r : Registry α) (a : α) : Registry α := ⟨putList a r.items, nodup_putList a r.nodup⟩

/-- Registers several things, one after the other. -/
def putAll (r : Registry α) (as : List α) : Registry α := as.foldl put r

/-- The registry of the given things, registered one after the other. -/
def ofList (as : List α) : Registry α := putAll ∅ as

/-- Registers what `f` makes of the thing under a name; nothing happens if there is none. -/
def modify (r : Registry α) (name : String) (f : α → α) : Registry α :=
  match r.find? name with
  | some a => r.put (f a)
  | none => r

/-! ## Laws -/

@[simp] theorem items_empty : (∅ : Registry α).items = [] := rfl

@[simp] theorem find?_empty (name : String) : (∅ : Registry α).find? name = none := rfl

theorem nameOf_of_find? {r : Registry α} {name : String} {a : α} (h : r.find? name = some a) :
    nameOf a = name := by
  simpa using List.find?_some h

theorem mem_names_iff_contains {r : Registry α} {name : String} :
    name ∈ r.names ↔ r.contains name = true := by
  simp [names, contains, find?]

@[simp] theorem find?_put_self (r : Registry α) (a : α) : (r.put a).find? (nameOf a) = some a := by
  obtain ⟨l, h⟩ := r
  simp only [put, find?]
  clear h
  induction l with
  | nil => simp [putList]
  | cons b rest ih => by_cases h : nameOf b = nameOf a <;> simp [putList, h, ih]

theorem find?_put_of_ne (r : Registry α) {a : α} {name : String} (hne : name ≠ nameOf a) :
    (r.put a).find? name = r.find? name := by
  obtain ⟨l, h⟩ := r
  simp only [put, find?]
  clear h
  have hne' : ¬ nameOf a = name := fun e => hne e.symm
  induction l with
  | nil => simp [putList, hne']
  | cons b rest ih =>
    by_cases hb : nameOf b = nameOf a
    · simp [putList, hb, hne']
    · simp [putList, hb, List.find?_cons, ih]

theorem find?_put (r : Registry α) (a : α) (name : String) :
    (r.put a).find? name = if name = nameOf a then some a else r.find? name := by
  split
  · rename_i h
    rw [h, find?_put_self]
  · rename_i h
    exact r.find?_put_of_ne h

@[simp] theorem contains_put (r : Registry α) (a : α) (name : String) :
    (r.put a).contains name = (decide (name = nameOf a) || r.contains name) := by
  rw [contains, find?_put]
  by_cases h : name = nameOf a <;> simp [h, contains]

/-- Since names differ, a thing is found under its name exactly if it is registered. -/
theorem mem_items_iff {r : Registry α} {a : α} : a ∈ r.items ↔ r.find? (nameOf a) = some a := by
  constructor
  · obtain ⟨l, hnodup⟩ := r
    intro h
    show l.find? (nameOf · == nameOf a) = some a
    induction l with
    | nil => cases h
    | cons b rest ih =>
      rw [List.map_cons, List.nodup_cons] at hnodup
      rcases List.mem_cons.1 h with rfl | h
      · simp
      · have hne : nameOf b ≠ nameOf a := fun e => hnodup.1 (e ▸ List.mem_map_of_mem h)
        simpa [hne] using ih hnodup.2 h
  · exact List.mem_of_find?_eq_some

theorem eq_of_nameOf_eq {r : Registry α} {a b : α} (ha : a ∈ r.items) (hb : b ∈ r.items)
    (h : nameOf a = nameOf b) : a = b := by
  rw [mem_items_iff] at ha hb
  rw [h, hb] at ha
  exact (Option.some.inj ha).symm

theorem mem_items_put {r : Registry α} {a b : α} (h : b ∈ (r.put a).items) :
    b = a ∨ b ∈ r.items := by
  rw [mem_items_iff, find?_put] at h
  split at h
  · exact .inl (Option.some.inj h).symm
  · exact .inr (mem_items_iff.2 h)

end Registry

end SceneScript
