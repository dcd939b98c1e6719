/-!
# Insertion-ordered maps

`Entries` is a map that remembers the order in which its keys were first written. Writing a key that
is already there, by `==`, changes the value and nothing else; erasing keeps the order of the rest.
Keys need not be reflexive under `==`: a key that differs from itself is never found, so writing it
always adds an entry.

Main statements:

- `find?_insert_self`, `find?_insert_of_ne`, `find?_insert`: a write is seen under its own key only;
- `keys_insert_of_contains`, `keys_insert_of_not_contains`: a write keeps all keys where they are,
  or adds one at the end;
- `find?_modify`, `keys_modify`: an edit in place changes one value.
-/

namespace SceneScript

/-- A map from `κ` to `α` in the order of first insertion. -/
structure Entries (κ α : Type) where
  toList : List (κ × α)

namespace Entries

variable {κ α : Type}

instance : EmptyCollection (Entries κ α) := ⟨⟨[]⟩⟩

instance : Inhabited (Entries κ α) := ⟨∅⟩

def keys (m : Entries κ α) : List κ := m.toList.map Prod.fst

def values (m : Entries κ α) : List α := m.toList.map Prod.snd

/-- The number of entries. -/
def size (m : Entries κ α) : Nat := m.toList.length

def isEmpty (m : Entries κ α) : Bool := m.toList.isEmpty

/-- The entry added last. -/
def last? (m : Entries κ α) : Option (κ × α) := m.toList.getLast?

@[simp] theorem toList_empty : (∅ : Entries κ α).toList = [] := rfl

variable [BEq κ]

/-- The value written under a key. -/
def find? (m : Entries κ α) (k : κ) : Option α := m.toList.lookup k

def contains (m : Entries κ α) (k : κ) : Bool := (m.find? k).isSome

/-- Replaces the value under the first key equal to `k`, keeping that key, or adds an entry. -/
def insertList (k : κ) (v : α) : List (κ × α) → List (κ × α)
  | [] => [(k, v)]
  | (k', v') :: rest => if k == k' then (k', v) :: rest else (k', v') :: insertList k v rest

/-- Writes a value under a key: in place if the key is there, else at the end. -/
def insert (m : Entries κ α) (k : κ) (v : α) : Entries κ α := ⟨insertList k v m.toList⟩

/-- Applies `f` to the value under the first key equal to `k`. -/
def modifyList (k : κ) (f : α → α) : List (κ × α) → List (κ × α)
  | [] => []
  | (k', v') :: rest => if k == k' then (k', f v') :: rest else (k', v') :: modifyList k f rest

/-- Edits the value under a key in place; nothing happens if the key is not there. -/
def modify (m : Entries κ α) (k : κ) (f : α → α) : Entries κ α := ⟨modifyList k f m.toList⟩

/-- Removes the entry under a key, keeping the order of the others. -/
def erase (m : Entries κ α) (k : κ) : Entries κ α := ⟨m.toList.eraseP (fun e => k == e.1)⟩

/-- Writes several entries, one after the other. -/
def insertMany (m : Entries κ α) (entries : List (κ × α)) : Entries κ α :=
  entries.foldl (fun m e => m.insert e.1 e.2) m

/-- The map that results from writing the given entries one after the other. -/
def ofList (entries : List (κ × α)) : Entries κ α := insertMany ∅ entries

/-! ## What each operation does to the entries -/

@[simp] theorem find?_empty (k : κ) : (∅ : Entries κ α).find? k = none := rfl

theorem lookup_insertList_self {k : κ} (hk : (k == k) = true) (v : α) (l : List (κ × α)) :
    (insertList k v l).lookup k = some v := by
  induction l with
  | nil => simp [insertList, List.lookup_cons, hk]
  | cons e rest ih =>
    obtain ⟨k₁, v₁⟩ := e
    by_cases h : (k == k₁) = true <;> simp_all [insertList, List.lookup_cons]

/-- What was just written under a key is found there. -/
theorem find?_insert_self (m : Entries κ α) {k : κ} (hk : (k == k) = true) (v : α) :
    (m.insert k v).find? k = some v :=
  lookup_insertList_self hk v m.toList

theorem lookup_insertList_of_ne [PartialEquivBEq κ] {k k' : κ} (h : (k' == k) = false) (v : α)
    (l : List (κ × α)) : (insertList k v l).lookup k' = l.lookup k' := by
  induction l with
  | nil => simp [insertList, List.lookup_cons, h]
  | cons e rest ih =>
    obtain ⟨k₁, v₁⟩ := e
    by_cases he : (k == k₁) = true
    · have : (k' == k₁) = false := by
        by_cases hc : (k' == k₁) = true
        · have := PartialEquivBEq.trans hc (PartialEquivBEq.symm he)
          simp_all
        · simpa using hc
      simp [insertList, he, List.lookup_cons, this]
    · simp_all [insertList, List.lookup_cons]

/-- A write does not show under any other key. -/
theorem find?_insert_of_ne [PartialEquivBEq κ] (m : Entries κ α) {k k' : κ}
    (h : (k' == k) = false) (v : α) : (m.insert k v).find? k' = m.find? k' :=
  lookup_insertList_of_ne h v m.toList

theorem lookup_congr [PartialEquivBEq κ] {k k' : κ} (h : (k' == k) = true) (l : List (κ × α)) :
    l.lookup k' = l.lookup k := by
  induction l with
  | nil => rfl
  | cons e rest ih =>
    obtain ⟨k₁, v₁⟩ := e
    have hk : (k' == k₁) = (k == k₁) := by
      rw [Bool.eq_iff_iff]
      exact ⟨PartialEquivBEq.trans (PartialEquivBEq.symm h), PartialEquivBEq.trans h⟩
    rw [List.lookup_cons, List.lookup_cons, hk, ih]

theorem find?_insert [PartialEquivBEq κ] (m : Entries κ α) (k k' : κ) (v : α) :
    (m.insert k v).find? k' = if k' == k then some v else m.find? k' := by
  cases h : k' == k with
  | false => exact m.find?_insert_of_ne h v
  | true =>
    have hk : (k == k) = true := PartialEquivBEq.trans (PartialEquivBEq.symm h) h
    exact (lookup_congr h _).trans (m.find?_insert_self hk v)

theorem contains_insert [PartialEquivBEq κ] (m : Entries κ α) (k k' : κ) (v : α) :
    (m.insert k v).contains k' = (k' == k || m.contains k') := by
  rw [contains, find?_insert]
  cases k' == k <;> rfl

theorem keys_insertList (k : κ) (v : α) (l : List (κ × α)) :
    (insertList k v l).map Prod.fst =
      if (l.lookup k).isSome then l.map Prod.fst else l.map Prod.fst ++ [k] := by
  induction l with
  | nil => rfl
  | cons e rest ih =>
    obtain ⟨k₁, v₁⟩ := e
    cases he : k == k₁
    · simp only [insertList, he, List.lookup_cons, List.map_cons, Bool.false_eq_true, if_false, ih]
      split <;> simp
    · simp [insertList, he, List.lookup_cons]

/-- Writing a key that is there moves and renames nothing. -/
theorem keys_insert_of_contains (m : Entries κ α) {k : κ} (h : m.contains k = true) (v : α) :
    (m.insert k v).keys = m.keys := by
  simp [keys, insert, keys_insertList, show (m.toList.lookup k).isSome = true from h]

/-- A new key goes last. -/
theorem keys_insert_of_not_contains (m : Entries κ α) {k : κ} (h : m.contains k = false) (v : α) :
    (m.insert k v).keys = m.keys ++ [k] := by
  simp [keys, insert, keys_insertList, show (m.toList.lookup k).isSome = false from h]

theorem size_insert (m : Entries κ α) (k : κ) (v : α) :
    (m.insert k v).size = if m.contains k then m.size else m.size + 1 := by
  have hsize : ∀ m : Entries κ α, m.size = m.keys.length := fun m => (List.length_map _).symm
  rw [hsize, hsize]
  cases h : m.contains k with
  | true => rw [m.keys_insert_of_contains h, if_pos rfl]
  | false => simp [m.keys_insert_of_not_contains h]

theorem lookup_modifyList_self (k : κ) (f : α → α) (l : List (κ × α)) :
    (modifyList k f l).lookup k = (l.lookup k).map f := by
  induction l with
  | nil => rfl
  | cons e rest ih =>
    obtain ⟨k₁, v₁⟩ := e
    by_cases he : (k == k₁) = true
    · simp [modifyList, he, List.lookup_cons]
    · simp_all [modifyList, List.lookup_cons]

theorem find?_modify_self (m : Entries κ α) (k : κ) (f : α → α) :
    (m.modify k f).find? k = (m.find? k).map f :=
  lookup_modifyList_self k f m.toList

theorem lookup_modifyList_of_ne [PartialEquivBEq κ] {k k' : κ} (h : (k' == k) = false)
    (f : α → α) (l : List (κ × α)) : (modifyList k f l).lookup k' = l.lookup k' := by
  induction l with
  | nil => rfl
  | cons e rest ih =>
    obtain ⟨k₁, v₁⟩ := e
    cases he : k == k₁ with
    | true =>
      have hk₁ : (k' == k₁) = false := by
        rw [← h]
        exact BEq.congr_right (BEq.symm he)
      simp [modifyList, he, List.lookup_cons, hk₁]
    | false => simp [modifyList, he, List.lookup_cons, ih]

/-- An edit in place shows under its own key only. -/
theorem find?_modify [PartialEquivBEq κ] (m : Entries κ α) (k k' : κ) (f : α → α) :
    (m.modify k f).find? k' = if k' == k then (m.find? k').map f else m.find? k' := by
  cases h : k' == k with
  | false => exact lookup_modifyList_of_ne h f m.toList
  | true =>
    have hsame : m.find? k' = m.find? k := lookup_congr h m.toList
    rw [if_pos rfl, hsame, ← find?_modify_self]
    exact lookup_congr h _

/-- An edit in place moves and renames nothing. -/
@[simp] theorem keys_modify (m : Entries κ α) (k : κ) (f : α → α) :
    (m.modify k f).keys = m.keys := by
  obtain ⟨l⟩ := m
  simp only [keys, modify]
  induction l with
  | nil => rfl
  | cons e rest ih =>
    by_cases he : (k == e.1) = true
    · simp [modifyList, he]
    · simp_all [modifyList]

end Entries

end SceneScript
