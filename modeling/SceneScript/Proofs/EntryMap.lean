import Mathlib.Data.List.Basic
import SceneScript.Proofs.ExactKeys
import SceneScript.Proofs.InsertionOrder
import SceneScript.Table.Change

/-!
# A table is an insertion-ordered map

Seen from outside a table is a list of keys, each as it was first written and in that order, with a
value for everything that a key can stand for. The list of entries behind it is searched from its
front, with an equality under which `24` and `24.0` are one key. It is such a map as long as no two
of its keys are equal and none is `nan`; that is what every change keeps. `Shows` says so, and there
is one lemma about it for each operation.

Main statements:

- `Shows.change`: one change of a table is the change of the map;
- `Shows.toList_eq`, `Shows.length_eq`: the entries and their number are those of the map;
- `changeAll_entryMap`: whatever is done to a table, it is a map, and what is done next concerns one
  entry.
-/

namespace SceneScript

/-- What a table is seen from outside. -/
structure EntryMap where
  /-- The keys in the order of their first writing, as they were written then. -/
  keys : List Key
  value? : ExactKey → Option Value

namespace EntryMap

/-- The value under a key; there is none under `nan`. -/
def get? (m : EntryMap) (k : Key) : Option Value := k.exactKey?.bind m.value?

/-- Sets what is under a key. -/
def write (m : EntryMap) (k : Key) (v : Option Value) : EntryMap :=
  { m with value? := fun e => if k.exactKey? = some e then v else m.value? e }

/-- Puts a value under a key. A key that is there stays as and where it is, a new one goes last. -/
def insert (m : EntryMap) (k : Key) (v : Value) : EntryMap :=
  { m.write k (some v) with keys := if (m.get? k).isSome then m.keys else m.keys ++ [k] }

/-- Takes a key out, with its value. -/
def erase (m : EntryMap) (k : Key) : EntryMap :=
  { m.write k none with keys := m.keys.filter fun k' => k'.exactKey? ≠ k.exactKey? }

/-- What each change of a table means. -/
def change (m : EntryMap) : TableOf.Change → EntryMap
  | .insert k v => m.insert k v
  | .insertMany entries => entries.foldl (fun m e => m.insert e.1 e.2) m
  | .edit k f => m.write k ((m.get? k).map f)
  | .editTable k f => m.write k ((m.get? k).map fun v => match v with
    | .table nested => .table (f nested)
    | other => other)
  | .place name f => m.insert (.name name) (f ((m.get? (.name name)).getD .null))
  | .erase k => m.erase k

/-- The value that a change replaces, removes, or hands out for editing. -/
def exposed? (m : EntryMap) : TableOf.Change → Option Value
  | .insert k _ => m.get? k
  | .insertMany _ => none
  | .edit k _ => m.get? k
  | .editTable k _ => (m.get? k).filter Value.isTable
  | .place name _ => some ((m.get? (.name name)).getD .null)
  | .erase k => m.get? k

/-- The map after several changes. -/
def changeAll (m : EntryMap) (changes : List TableOf.Change) : EntryMap := changes.foldl change m

/-- The keys with their values. -/
def toList (m : EntryMap) : List (Key × Value) :=
  m.keys.filterMap fun k => (m.get? k).map fun v => (k, v)

/-- The number of keys under which there is something. -/
def length (m : EntryMap) : Nat := m.keys.countP fun k => (m.get? k).any (!·.isNull)

theorem get?_write (m : EntryMap) (k k' : Key) (v : Option Value) :
    (m.write k v).get? k' = if k' == k then v else m.get? k' := by
  have hiff : (k' == k) = true ↔ ∃ e, k'.exactKey? = some e ∧ k.exactKey? = some e :=
    Key.beq_iff_exactKey?
  unfold get? write
  cases he : k'.exactKey? with
  | none => simp [hiff, he]
  | some e => simp [hiff, he]

theorem get?_insert (m : EntryMap) (k k' : Key) (v : Value) :
    (m.insert k v).get? k' = if k' == k then some v else m.get? k' :=
  m.get?_write k k' (some v)

theorem insert_of_isSome {m : EntryMap} {k : Key} (h : (m.get? k).isSome = true) (v : Value) :
    m.insert k v = m.write k (some v) := by
  rw [insert, if_pos h]
  rfl

/-- Of two writes under one key the second is seen. -/
theorem write_insert (m : EntryMap) (k : Key) (v w : Value) :
    (m.insert k v).write k (some w) = m.insert k w := by
  refine congrArg (EntryMap.mk _) (funext fun e => ?_)
  show (if k.exactKey? = some e then some w else
    if k.exactKey? = some e then some v else m.value? e) =
      if k.exactKey? = some e then some w else m.value? e
  split <;> rfl

end EntryMap

namespace TableOf

/-- Whether no key of a table is `nan` and no two are equal. -/
structure WellKeyed {α : Type} (t : TableOf α) : Prop where
  numeric : ∀ k ∈ t.entries.keys, k.isNaN = false
  apart : t.entries.keys.Pairwise fun k k' => (k' == k) = false

/-- Whether a change writes no key that is `nan`. -/
def Change.Numeric : Change → Prop
  | .insert k _ => k.isNaN = false
  | .insertMany entries => ∀ e ∈ entries, e.1.isNaN = false
  | .edit _ _ => True
  | .editTable _ _ => True
  | .place _ _ => True
  | .erase _ => True

instance : DecidablePred Change.Numeric
  | .insert k _ => inferInstanceAs (Decidable (k.isNaN = false))
  | .insertMany entries => inferInstanceAs (Decidable (∀ e ∈ entries, e.1.isNaN = false))
  | .edit _ _ | .editTable _ _ | .place _ _ | .erase _ => .isTrue trivial

/-- The map that a table is. -/
def view (t : Table) : EntryMap :=
  ⟨t.entries.keys, fun e => (t.entries.toList.find? (·.1.exactKey? = some e)).map Prod.snd⟩

/-- Whether a table shows a map: its keys are in order, and what is found is in the map. -/
structure Shows (t : Table) (m : EntryMap) : Prop extends t.WellKeyed where
  keys : t.entries.keys = m.keys
  find : ∀ k, t.find? k = m.get? k

namespace WellKeyed

variable {α : Type} {t : TableOf α}

theorem keysApart (h : t.WellKeyed) : Entries.KeysApart t.entries.toList :=
  Entries.keysApart_iff_keys.2 h.apart

theorem beq_self (h : t.WellKeyed) {k : Key} (hk : k ∈ t.entries.keys) : (k == k) = true := by
  rw [Key.beq_self, h.numeric k hk, Bool.not_false]

/-- Every entry is found under its key. -/
theorem find?_of_mem (h : t.WellKeyed) {e : Key × α} (he : e ∈ t.entries.toList) :
    t.find? e.1 = some e.2 := by
  have hself : (e.1 == e.1) = true := h.beq_self (List.mem_map_of_mem he)
  have hfind := Entries.find?_ofList_of_mem h.keysApart hself he
  rwa [Entries.ofList_toList h.keysApart] at hfind

end WellKeyed

/-- What is found in a table is in the map that it is. -/
theorem find?_eq_view (t : Table) (k : Key) : t.find? k = t.view.get? k := by
  show t.entries.toList.lookup k = k.exactKey?.bind fun e =>
    (t.entries.toList.find? (·.1.exactKey? = some e)).map Prod.snd
  cases he : k.exactKey? with
  | none => exact t.find?_of_isNaN (Key.exactKey?_eq_none_iff.1 he)
  | some e =>
    rw [Option.bind_some]
    induction t.entries.toList with
    | nil => rfl
    | cons first rest ih =>
      rw [List.lookup_cons, Key.beq_eq_decide he, List.find?_cons, ih]
      cases decide (first.1.exactKey? = some e) <;> rfl

theorem WellKeyed.shows_view {t : Table} (h : t.WellKeyed) : t.Shows t.view :=
  { h with keys := rfl, find := t.find?_eq_view }

namespace Shows

variable {t : Table} {m : EntryMap}

theorem contains_eq (h : t.Shows m) (k : Key) : t.contains k = (m.get? k).isSome :=
  congrArg Option.isSome (h.find k)

theorem insert (h : t.Shows m) {k : Key} (hk : k.isNaN = false) (v : Value) :
    (t.insert k v).Shows (m.insert k v) := by
  have hfind : ∀ k', (t.insert k v).find? k' = (m.insert k v).get? k' := by
    intro k'
    refine (Entries.find?_insert t.entries k k' v).trans ?_
    rw [show t.entries.find? k' = m.get? k' from h.find k']
    exact (m.get?_insert k k' v).symm
  cases hcontains : t.contains k with
  | true =>
    have hkeys : (t.insert k v).entries.keys = t.entries.keys :=
      t.entries.keys_insert_of_contains hcontains v
    refine ⟨⟨hkeys ▸ h.numeric, hkeys ▸ h.apart⟩, ?_, hfind⟩
    rw [hkeys, EntryMap.insert, ← h.contains_eq, hcontains, if_pos rfl, h.keys]
  | false =>
    have hkeys : (t.insert k v).entries.keys = t.entries.keys ++ [k] :=
      t.entries.keys_insert_of_not_contains hcontains v
    refine ⟨⟨?_, ?_⟩, ?_, hfind⟩
    · rw [hkeys]
      exact List.forall_mem_append.2 ⟨h.numeric, List.forall_mem_singleton.2 hk⟩
    · rw [hkeys]
      refine List.pairwise_append.2 ⟨h.apart, List.pairwise_singleton _ _, fun k' hk' => ?_⟩
      exact List.forall_mem_singleton.2 (Entries.ne_of_mem_keys hcontains hk')
    · rw [hkeys, EntryMap.insert, ← h.contains_eq, hcontains, if_neg Bool.false_ne_true, h.keys]

theorem get?_congr (h : t.Shows m) {k k' : Key} (hk : (k' == k) = true) :
    m.get? k' = m.get? k := by
  rw [← h.find, ← h.find]
  exact Entries.lookup_congr hk t.entries.toList

theorem modify (h : t.Shows m) (k : Key) (f : Value → Value) :
    (t.modify k f).Shows (m.write k ((m.get? k).map f)) := by
  have hkeys : (t.modify k f).entries.keys = t.entries.keys := t.entries.keys_modify k f
  refine ⟨⟨hkeys ▸ h.numeric, hkeys ▸ h.apart⟩, hkeys.trans h.keys, fun k' => ?_⟩
  refine (Entries.find?_modify t.entries k k' f).trans ?_
  rw [show t.entries.find? k' = m.get? k' from h.find k', m.get?_write]
  cases hk : k' == k with
  | false => rfl
  | true => rw [h.get?_congr hk]

theorem erase (h : t.Shows m) (k : Key) : (t.erase k).Shows (m.erase k) := by
  have hkeys : (t.erase k).entries.keys = t.entries.keys.filter fun k' => !(k == k') :=
    Entries.keys_erase h.keysApart k
  have hspec : (t.entries.keys.filter fun k' => !(k == k')) = (m.erase k).keys := by
    rw [h.keys]
    refine List.filter_congr fun k' hk' => ?_
    -- what stands for something is told apart from `k` by that
    obtain ⟨e, he⟩ := Key.exists_exactKey? (h.numeric k' (h.keys ▸ hk'))
    rw [BEq.comm, Key.beq_eq_decide he, he, ← decide_not]
    exact decide_eq_decide.2 (not_congr eq_comm)
  refine ⟨⟨?_, ?_⟩, hkeys.trans hspec, fun k' => ?_⟩
  · rw [hkeys]
    exact fun k' hk' => h.numeric k' (List.mem_filter.1 hk').1
  · rw [hkeys]
    exact h.apart.filter _
  · refine (Entries.find?_erase h.keysApart k k').trans ?_
    rw [show t.entries.find? k' = m.get? k' from h.find k']
    exact (m.get?_write k k' none).symm

theorem insertMany (h : t.Shows m) {entries : List (Key × Value)}
    (hentries : ∀ e ∈ entries, e.1.isNaN = false) :
    (t.insertMany entries).Shows (m.change (.insertMany entries)) := by
  induction entries generalizing t m with
  | nil => exact h
  | cons e rest ih =>
    refine ih (h.insert ?_ e.2) fun e' he' => hentries e' (List.mem_cons_of_mem e he')
    exact hentries e List.mem_cons_self

theorem place (h : t.Shows m) (name : String) (f : Value → Value) :
    (t.change (.place name f)).Shows (m.change (.place name f)) := by
  have hchange : t.change (.place name f) = (t.ensure name).modify (.name name) f := rfl
  simp only [hchange, EntryMap.change, ensure, h.contains_eq]
  cases hget : m.get? (.name name) with
  | some v =>
    have hmodify := h.modify (.name name) f
    rwa [hget, Option.map_some, ← EntryMap.insert_of_isSome (by rw [hget]; rfl)] at hmodify
  | none =>
    have hself : (Key.name name == Key.name name) = true := beq_self_eq_true name
    have hmodify := (h.insert (k := .name name) rfl .null).modify (.name name) f
    rwa [EntryMap.get?_insert, if_pos hself, Option.map_some, EntryMap.write_insert] at hmodify

/-- **One change** of a table is the change of the map. -/
theorem change (h : t.Shows m) {c : Change} (hc : c.Numeric) : (t.change c).Shows (m.change c) := by
  cases c with
  | insert k v => exact h.insert hc v
  | insertMany entries => exact h.insertMany hc
  | edit k f => exact h.modify k f
  | editTable k f => exact h.modify k _
  | place name f => exact h.place name f
  | erase k => exact h.erase k

theorem changeAll (h : t.Shows m) {changes : List Change} (hnumeric : ∀ c ∈ changes, c.Numeric) :
    (t.changeAll changes).Shows (m.changeAll changes) := by
  induction changes generalizing t m with
  | nil => exact h
  | cons c rest ih =>
    refine ih (h.change ?_) fun c' hc' => hnumeric c' (List.mem_cons_of_mem c hc')
    exact hnumeric c List.mem_cons_self

/-! ## What follows -/

theorem exposed?_eq (h : t.Shows m) (c : Change) : t.exposed? c = m.exposed? c := by
  cases c with
  | insert k _ => exact h.find k
  | insertMany _ => rfl
  | edit k _ => exact h.find k
  | editTable k _ =>
    show ((t.find? k).bind Value.table?).map Value.table = (m.get? k).filter Value.isTable
    rw [h.find]
    cases m.get? k with
    | none => rfl
    | some v => cases v <;> rfl
  | place name _ =>
    show (t.ensure name).find? (.name name) = some ((m.get? (.name name)).getD .null)
    rw [ensure, h.contains_eq, ← h.find]
    cases hfind : t.find? (.name name) with
    | none => exact t.find?_insert_same (.name name) .null
    | some v => exact hfind
  | erase k => exact h.find k

/-- The entries are the keys with what is found under them. -/
theorem toList_eq (h : t.Shows m) : t.entries.toList = m.toList := by
  have hkey : ∀ e ∈ t.entries.toList, (m.get? e.1).map (fun v => (e.1, v)) = some e := by
    intro e he
    rw [← h.find, h.find?_of_mem he]
    rfl
  rw [EntryMap.toList, ← h.keys, Entries.keys, List.filterMap_map]
  exact List.filterMap_some.symm.trans (List.filterMap_congr fun e he => (hkey e he).symm)

theorem length_eq (h : t.Shows m) : t.length = m.length := by
  rw [length, Value.countNonNull, Entries.values, List.countP_map, EntryMap.length, ← h.keys,
    Entries.keys, List.countP_map]
  refine List.countP_congr fun e he => ?_
  show (!e.2.isNull) = true ↔ (m.get? e.1).any _ = true
  rw [← h.find, h.find?_of_mem he, Option.any_some]

end Shows

/-- Whether each operation on a table concerns one entry and leaves the others in their order. -/
structure OneEntryAtATime (t : Table) : Prop where
  insert_present : ∀ k v, t.contains k = true →
    (t.insert k v).entries.toList = t.entries.toList.map fun e => if k == e.1 then (e.1, v) else e
  insert_absent : ∀ k v, t.contains k = false →
    (t.insert k v).entries.toList = t.entries.toList ++ [(k, v)]
  modify : ∀ k f, (t.modify k f).entries.toList =
    t.entries.toList.map fun e => if k == e.1 then (e.1, f e.2) else e
  ensure_present : ∀ name, t.contains (.name name) = true → t.ensure name = t
  ensure_absent : ∀ name, t.contains (.name name) = false →
    (t.ensure name).entries.toList = t.entries.toList ++ [(.name name, .null)]
  erase : ∀ k, (t.erase k).entries.toList = t.entries.toList.filter fun e => !(k == e.1)

theorem WellKeyed.oneEntryAtATime {t : Table} (h : t.WellKeyed) : t.OneEntryAtATime where
  insert_present k v hcontains := Entries.toList_insert_of_contains h.keysApart k hcontains v
  insert_absent k v hcontains := Entries.toList_insert_of_not_contains hcontains v
  modify k f := Entries.toList_modify h.keysApart k f
  ensure_present name hcontains := by rw [ensure, if_pos hcontains]
  ensure_absent name hcontains := by
    rw [ensure, hcontains, if_neg Bool.false_ne_true]
    exact Entries.toList_insert_of_not_contains hcontains .null
  erase k := Entries.toList_erase h.keysApart k

/-- **A table is an insertion-ordered map**, whatever is done to it. Its keys stay apart, in the
order and the spelling in which they were first written; what is found under a key is what the map
has for what the key stands for, and so is what each operation returns or hands out; the number of
entries is that of keys under which there is something; the next operation concerns one entry. -/
theorem changeAll_entryMap {t₀ : Table} (h₀ : t₀.WellKeyed) {changes : List Change}
    (h : ∀ c ∈ changes, c.Numeric) :
    let t := t₀.changeAll changes
    let m := t₀.view.changeAll changes
    t.WellKeyed ∧ t.settings = t₀.settings ∧ t.entries.keys = m.keys ∧
      (∀ k, t.find? k = m.get? k) ∧ (∀ k, t.contains k = (m.get? k).isSome) ∧
      (∀ c, t.exposed? c = m.exposed? c) ∧ t.entries.toList = m.toList ∧ t.length = m.length ∧
      t.OneEntryAtATime := by
  intro t m
  have hshows : t.Shows m := h₀.shows_view.changeAll h
  exact ⟨hshows.toWellKeyed, t₀.settings_changeAll changes, hshows.keys, hshows.find,
    hshows.contains_eq, hshows.exposed?_eq, hshows.toList_eq, hshows.length_eq,
    hshows.oneEntryAtATime⟩

/-- Changes that name one frame as an integer and as a double, among names and positions. -/
def mixedKeys : List Change :=
  [.insert (.frame 24) (.int 1), .insert (.name "Loop") (.bool true), .insert (.index 0) .null,
    .insert (.frame (.float (.ofQuotient 24 1))) (.int 2), .place "Inputs" id,
    .insertMany [(.frame (.float (.ofQuotient 25 2)), .text "half"), (.name "Loop", .null)],
    .editTable (.name "Loop") (·.erase (.index 0)), .place "Loop" (fun _ => .table ∅),
    .edit (.frame 24) (fun _ => .int 3), .erase (.index 0), .insert (.index 0) (.int 5)]

theorem changeAll_entryMap_mixedKeys :
    let t := (∅ : Table).changeAll mixedKeys
    let m := (∅ : Table).view.changeAll mixedKeys
    (∅ : Table).WellKeyed ∧ (∀ c ∈ mixedKeys, c.Numeric) ∧ t.WellKeyed ∧
      m.keys = [.frame 24, .name "Loop", .name "Inputs", .frame (.float (.ofQuotient 25 2)),
        .index 0] ∧
      t.find? (.frame (.float (.ofQuotient 24 1))) = m.get? (.frame (.float (.ofQuotient 24 1))) ∧
      m.length = 4 := by
  intro t m
  have h₀ : (∅ : Table).WellKeyed := ⟨nofun, .nil⟩
  have h : ∀ c ∈ mixedKeys, c.Numeric := by decide +kernel
  obtain ⟨hkeyed, -, hkeys, hfind, -, -, -, hlength, -⟩ := changeAll_entryMap h₀ h
  refine ⟨h₀, h, hkeyed, ?_, hfind _, ?_⟩
  · rw [← hkeys]
    decide +kernel
  · rw [← hlength]
    decide +kernel

end TableOf

end SceneScript
