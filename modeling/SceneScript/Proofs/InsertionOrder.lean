import Mathlib.Data.List.Induction
import SceneScript.Table.Basic

/-!
# Entries written one after the other

A list of entries becomes a map by writing each of them. Under each key the entry written last is
found, so an entry is lost exactly if its key is written again. The inductions are on the list from
its end, where the last write is. Where no key stands twice, a write, an edit and an erasure each
concern a single entry and leave the others in their order.

Main statements:

- `find?_insertMany`, `find?_ofList`: of what was written under a key the last is found;
- `keysApart_insert`: what comes of writes alone has no key twice;
- `size_ofList_eq_length_iff`: nothing is lost exactly if no key is written twice;
- `find?_ofList_of_mem`: and then everything is found that was written;
- `toList_insert_of_contains`, `toList_modify`, `toList_erase`: what each operation does to the list
  of entries.
-/

namespace SceneScript

namespace Entries

variable {κ α : Type} [BEq κ]

theorem insertMany_concat (m : Entries κ α) (l : List (κ × α)) (e : κ × α) :
    m.insertMany (l ++ [e]) = (m.insertMany l).insert e.1 e.2 :=
  List.foldl_append

theorem ofList_concat (l : List (κ × α)) (e : κ × α) :
    ofList (l ++ [e]) = (ofList l).insert e.1 e.2 :=
  insertMany_concat ∅ l e

theorem size_ofList_le (l : List (κ × α)) : (ofList l).size ≤ l.length := by
  induction l using List.reverseRecOn with
  | nil => exact Nat.le_refl 0
  | append_singleton l e ih =>
    rw [ofList_concat, size_insert, List.length_append, List.length_singleton]
    split <;> omega

theorem mem_insertList {k : κ} {v : α} {l : List (κ × α)} {e : κ × α} (h : e ∈ insertList k v l) :
    e.2 = v ∨ e ∈ l := by
  induction l with
  | nil => exact .inl (List.mem_singleton.1 h ▸ rfl)
  | cons first rest ih =>
    rw [insertList] at h
    split at h
    · rcases List.mem_cons.1 h with rfl | h
      · exact .inl rfl
      · exact .inr (List.mem_cons_of_mem _ h)
    · rcases List.mem_cons.1 h with rfl | h
      · exact .inr List.mem_cons_self
      · exact (ih h).imp_right (List.mem_cons_of_mem _)

/-- Every value was written. -/
theorem exists_of_mem_ofList {l : List (κ × α)} {e : κ × α} (h : e ∈ (ofList l).toList) :
    ∃ e' ∈ l, e'.2 = e.2 := by
  induction l using List.reverseRecOn with
  | nil => cases h
  | append_singleton l last ih =>
    rw [ofList_concat] at h
    rcases mem_insertList h with hlast | h
    · exact ⟨last, List.mem_append_right _ List.mem_cons_self, hlast.symm⟩
    · obtain ⟨e', he', hvalue⟩ := ih h
      exact ⟨e', List.mem_append_left _ he', hvalue⟩

/-- Whether no key is written twice. -/
def KeysApart (l : List (κ × α)) : Prop := l.Pairwise fun e e' => (e'.1 == e.1) = false

theorem keysApart_iff_keys {m : Entries κ α} :
    KeysApart m.toList ↔ m.keys.Pairwise fun k k' => (k' == k) = false := by
  rw [keys, List.pairwise_map]
  rfl

theorem keysApart_concat {l : List (κ × α)} {e : κ × α} :
    KeysApart (l ++ [e]) ↔ KeysApart l ∧ ∀ e' ∈ l, (e.1 == e'.1) = false := by
  simp [KeysApart, List.pairwise_append]

/-- Names are different keys if they differ. -/
theorem keysApart_names_iff {β : Type} {name : β → String} {value : β → α} {l : List β} :
    KeysApart (l.map fun b => (Key.name (name b), value b)) ↔ (l.map name).Nodup := by
  rw [List.nodup_iff_pairwise_ne, List.pairwise_map, KeysApart, List.pairwise_map]
  refine List.Pairwise.iff fun b b' => ?_
  rw [Key.beq_name, beq_eq_false_iff_ne, ne_comm]

theorem insertList_of_forall_ne {k : κ} {v : α} {l : List (κ × α)}
    (h : ∀ e ∈ l, (k == e.1) = false) : insertList k v l = l ++ [(k, v)] := by
  induction l with
  | nil => rfl
  | cons first rest ih =>
    have hfirst := h first List.mem_cons_self
    rw [insertList, hfirst, if_neg Bool.false_ne_true,
      ih fun e he => h e (List.mem_cons_of_mem _ he)]
    rfl

/-- Entries stay as they are written if no key is written twice. -/
theorem toList_ofList {l : List (κ × α)} (h : KeysApart l) : (ofList l).toList = l := by
  induction l using List.reverseRecOn with
  | nil => rfl
  | append_singleton l e ih =>
    obtain ⟨hl, he⟩ := keysApart_concat.1 h
    rw [ofList_concat, insert, ih hl, insertList_of_forall_ne he]

theorem ofList_toList {m : Entries κ α} (h : KeysApart m.toList) : ofList m.toList = m :=
  congrArg Entries.mk (toList_ofList h)

theorem contains_eq_any (m : Entries κ α) (k : κ) : m.contains k = m.keys.any (k == ·) := by
  obtain ⟨l⟩ := m
  show (l.lookup k).isSome = (l.map Prod.fst).any (k == ·)
  induction l with
  | nil => rfl
  | cons e rest ih =>
    rw [List.lookup_cons, List.map_cons, List.any_cons, ← ih]
    cases k == e.1 <;> rfl

/-- What is found under a key is the value of an entry under an equal one. -/
theorem exists_of_find? {m : Entries κ α} {k : κ} {v : α} (h : m.find? k = some v) :
    ∃ e ∈ m.toList, (k == e.1) = true ∧ e.2 = v := by
  obtain ⟨l⟩ := m
  replace h : l.lookup k = some v := h
  induction l with
  | nil => cases h
  | cons e rest ih =>
    rw [List.lookup_cons] at h
    cases hk : k == e.1 with
    | true =>
      rw [hk] at h
      exact ⟨e, List.mem_cons_self, hk, Option.some.inj h⟩
    | false =>
      rw [hk] at h
      obtain ⟨e', he', hfound⟩ := ih h
      exact ⟨e', List.mem_cons_of_mem e he', hfound⟩

theorem ne_of_mem_keys {m : Entries κ α} {k k' : κ} (h : m.contains k = false)
    (hk' : k' ∈ m.keys) : (k == k') = false := by
  rw [contains_eq_any, List.any_eq_false] at h
  exact Bool.eq_false_iff.2 (h k' hk')

/-- A new key goes last. -/
theorem toList_insert_of_not_contains {m : Entries κ α} {k : κ} (h : m.contains k = false)
    (v : α) : (m.insert k v).toList = m.toList ++ [(k, v)] :=
  insertList_of_forall_ne fun _ he => ne_of_mem_keys h (List.mem_map_of_mem he)

/-- Writing a key that is there is an edit in place. -/
theorem insert_of_contains {m : Entries κ α} {k : κ} (h : m.contains k = true) (v : α) :
    m.insert k v = m.modify k fun _ => v := by
  have hlist : ∀ l : List (κ × α), (l.lookup k).isSome = true →
      insertList k v l = modifyList k (fun _ => v) l := by
    intro l
    induction l with
    | nil => exact nofun
    | cons e rest ih =>
      intro hsome
      obtain ⟨k₁, v₁⟩ := e
      cases hk : k == k₁ with
      | true => simp [insertList, modifyList, hk]
      | false =>
        rw [List.lookup_cons, hk] at hsome
        simp [insertList, modifyList, hk, ih hsome]
  exact congrArg Entries.mk (hlist m.toList h)

/-- A write keeps keys apart; a key that differs from itself is apart from all others, too. -/
theorem keysApart_insert {m : Entries κ α} (h : KeysApart m.toList) (k : κ) (v : α) :
    KeysApart (m.insert k v).toList := by
  cases hcontains : m.contains k with
  | true =>
    rw [keysApart_iff_keys] at h ⊢
    rwa [m.keys_insert_of_contains hcontains v]
  | false =>
    rw [toList_insert_of_not_contains hcontains, keysApart_concat]
    exact ⟨h, fun e he => ne_of_mem_keys hcontains (List.mem_map_of_mem he)⟩

theorem keysApart_insertMany {m : Entries κ α} (h : KeysApart m.toList) (l : List (κ × α)) :
    KeysApart (m.insertMany l).toList := by
  induction l using List.reverseRecOn with
  | nil => exact h
  | append_singleton l e ih =>
    rw [insertMany_concat]
    exact keysApart_insert ih e.1 e.2

variable [PartialEquivBEq κ]

/-- Of what was written under a key the last is found, and else what was there before. -/
theorem find?_insertMany (m : Entries κ α) (l : List (κ × α)) (k : κ) :
    (m.insertMany l).find? k = (l.reverse.lookup k).or (m.find? k) := by
  induction l using List.reverseRecOn with
  | nil => rfl
  | append_singleton l e ih =>
    rw [insertMany_concat, find?_insert, ih, List.reverse_concat, List.lookup_cons]
    cases k == e.1 <;> rfl

theorem find?_ofList (l : List (κ × α)) (k : κ) : (ofList l).find? k = l.reverse.lookup k :=
  (find?_insertMany ∅ l k).trans Option.or_none

/-- A map that is written over another is found first. -/
theorem find?_insertMany_toList (m : Entries κ α) {m' : Entries κ α} (h : KeysApart m'.toList)
    (k : κ) : (m.insertMany m'.toList).find? k = (m'.find? k).or (m.find? k) := by
  rw [find?_insertMany, ← find?_ofList, ofList_toList h]

theorem contains_ofList (l : List (κ × α)) (k : κ) :
    (ofList l).contains k = l.any (k == ·.1) := by
  induction l using List.reverseRecOn with
  | nil => rfl
  | append_singleton l e ih => simp [ofList_concat, contains_insert, ih, Bool.or_comm]

/-- **Nothing is lost** exactly if no key is written twice. -/
theorem size_ofList_eq_length_iff (l : List (κ × α)) :
    (ofList l).size = l.length ↔ KeysApart l := by
  induction l using List.reverseRecOn with
  | nil => simp [ofList, insertMany, size, KeysApart]
  | append_singleton l e ih =>
    have hle := size_ofList_le l
    have hany : (∀ e' ∈ l, (e.1 == e'.1) = false) ↔ (ofList l).contains e.1 = false := by
      simp [contains_ofList]
    rw [keysApart_concat, ← ih, hany, ofList_concat, size_insert, List.length_append,
      List.length_singleton]
    cases (ofList l).contains e.1 with
    | true =>
      -- a key that is there adds nothing, and what the size is behind it never makes up
      simp only [if_true, Bool.true_eq_false, and_false, iff_false]
      omega
    | false => simp

/-- What was written is found if no key is written twice. -/
theorem find?_ofList_of_mem {l : List (κ × α)} (h : KeysApart l) {e : κ × α}
    (he : (e.1 == e.1) = true) (hmem : e ∈ l) : (ofList l).find? e.1 = some e.2 := by
  induction l using List.reverseRecOn with
  | nil => cases hmem
  | append_singleton l last ih =>
    obtain ⟨hl, hlast⟩ := keysApart_concat.1 h
    rw [ofList_concat, find?_insert]
    rcases List.mem_append.1 hmem with hmem | hmem
    · have hne : (e.1 == last.1) = false := by
        rw [BEq.comm, hlast e hmem]
      rw [hne, if_neg Bool.false_ne_true]
      exact ih hl hmem
    · obtain rfl := List.mem_singleton.1 hmem
      rw [he, if_pos rfl]

/-! ## Entries whose keys are apart -/

/-- What stands behind the entry under a key is under other keys. -/
theorem ne_of_keysApart_cons {e : κ × α} {rest : List (κ × α)} (h : KeysApart (e :: rest))
    {k : κ} (hk : (k == e.1) = true) : ∀ e' ∈ rest, (k == e'.1) = false := by
  intro e' he'
  rw [← (List.pairwise_cons.1 h).1 e' he', BEq.comm (a := e'.1)]
  exact BEq.congr_left hk

section Apart

variable {m : Entries κ α} (h : KeysApart m.toList) (k : κ)
include h

/-- An edit in place changes the value of one entry. -/
theorem toList_modify (f : α → α) :
    (m.modify k f).toList = m.toList.map fun e => if k == e.1 then (e.1, f e.2) else e := by
  obtain ⟨l⟩ := m
  show modifyList k f l = l.map _
  induction l with
  | nil => rfl
  | cons e rest ih =>
    cases hk : k == e.1 with
    | true =>
      have hrest : rest.map (fun e => if k == e.1 then (e.1, f e.2) else e) = rest := by
        refine (List.map_congr_left fun e' he' => ?_).trans rest.map_id
        rw [ne_of_keysApart_cons h hk e' he', if_neg Bool.false_ne_true]
        rfl
      rw [modifyList, hk, if_pos rfl, List.map_cons, hk, if_pos rfl, hrest]
    | false =>
      rw [modifyList, hk, if_neg Bool.false_ne_true, List.map_cons, hk,
        if_neg Bool.false_ne_true, ih (List.pairwise_cons.1 h).2]

/-- Writing a key that is there changes the value of one entry. -/
theorem toList_insert_of_contains (hcontains : m.contains k = true) (v : α) :
    (m.insert k v).toList = m.toList.map fun e => if k == e.1 then (e.1, v) else e := by
  rw [insert_of_contains hcontains, toList_modify h]

/-- Erasing leaves out one entry. -/
theorem toList_erase : (m.erase k).toList = m.toList.filter fun e => !(k == e.1) := by
  obtain ⟨l⟩ := m
  show l.eraseP _ = l.filter _
  induction l with
  | nil => rfl
  | cons e rest ih =>
    cases hk : k == e.1 with
    | true =>
      have hrest : rest.filter (fun e => !(k == e.1)) = rest := by
        refine List.filter_eq_self.2 fun e' he' => ?_
        rw [ne_of_keysApart_cons h hk e' he', Bool.not_false]
      rw [List.eraseP_cons, hk, cond_true, List.filter_cons, hk, Bool.not_true,
        if_neg Bool.false_ne_true, hrest]
    | false =>
      rw [List.eraseP_cons, hk, cond_false, List.filter_cons, hk, Bool.not_false, if_pos rfl,
        ih (List.pairwise_cons.1 h).2]

end Apart

theorem lookup_filter_ne (k k' : κ) (l : List (κ × α)) :
    (l.filter fun e => !(k == e.1)).lookup k' = if k' == k then none else l.lookup k' := by
  induction l with
  | nil => simp
  | cons e rest ih =>
    obtain ⟨k₁, v₁⟩ := e
    cases hk : k == k₁ with
    | true =>
      have hk₁ : (k' == k₁) = (k' == k) := BEq.congr_right (BEq.symm hk)
      rw [List.filter_cons, hk, Bool.not_true, if_neg Bool.false_ne_true, ih, List.lookup_cons,
        hk₁]
      cases k' == k <;> rfl
    | false =>
      rw [List.filter_cons, hk, Bool.not_false, if_pos rfl, List.lookup_cons, ih,
        List.lookup_cons]
      cases hk₁ : k' == k₁ with
      | false => rfl
      | true =>
        have hk' : (k' == k) = false := by
          rw [← hk, BEq.congr_left hk₁, BEq.comm]
        simp [hk']

/-- What was erased is not found, and all else is. -/
theorem find?_erase {m : Entries κ α} (h : KeysApart m.toList) (k k' : κ) :
    (m.erase k).find? k' = if k' == k then none else m.find? k' := by
  show (m.erase k).toList.lookup k' = _
  rw [toList_erase h]
  exact lookup_filter_ne k k' m.toList

theorem keys_erase {m : Entries κ α} (h : KeysApart m.toList) (k : κ) :
    (m.erase k).keys = m.keys.filter fun k' => !(k == k') := by
  rw [keys, toList_erase h, keys, List.filter_map]
  rfl

end Entries

end SceneScript
