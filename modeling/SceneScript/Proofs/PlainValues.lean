import SceneScript.Proofs.DataValues

/-!
# Values described anew

A scene value describes itself as a piece of data, and every piece of data has a value or fails. The
two walks together never fail, but they need not end where they began: a description has no words
for identifiers, tuples, tags, switches and keys other than texts. `Value.plain` says where they
end: with texts for identifiers, sequences for tuples, and tables without tags and switches whose
entries stand under the texts of their old keys. Entries under keys with the same text become one,
as writes under one name do.

That nothing changes the second time has one reason. What the walks come to is plain at every depth,
and they leave a plain value as it is.

Main statements:

- `Value.gives_plain`: the value of the description of a value is its plain form;
- `Value.isPlain_plain`, `Value.plain_of_isPlain`: plain forms are plain, and plain values are their
  own plain forms;
- `Value.plain_laws`: what the walks keep, for values at every depth.
-/

namespace SceneScript

mutual

/-- A value as its description shows it. -/
def Value.plain : Value → Value
  | .fuId s => .text s
  | .tuple items => .sequence (Value.plainItems items)
  | .sequence items => .sequence (Value.plainItems items)
  | .table t => .table t.plain
  | v => v
termination_by structural v => v

def Value.plainItems : List Value → List Value
  | [] => []
  | v :: rest => v.plain :: Value.plainItems rest
termination_by structural l => l

/-- A table as its description shows it. -/
def TableOf.plain : TableOf Value → Table
  | ⟨_, ⟨entries⟩, _, _, _⟩ => .ofEntries (Value.plainEntries entries)
termination_by structural t => t

def Value.plainEntries : List (Key × Value) → List (Key × Value)
  | [] => []
  | (k, v) :: rest => (.name k.text, v.plain) :: Value.plainEntries rest
termination_by structural l => l

end

namespace Value

/-- An entry as a description shows it: under the text of its key. -/
def plainEntry (e : Key × Value) : Key × Value := (.name e.1.text, e.2.plain)

theorem plainItems_eq (items : List Value) : plainItems items = items.map plain := by
  induction items with
  | nil => rfl
  | cons v rest ih => rw [plainItems, ih, List.map_cons]

theorem plainEntries_eq (entries : List (Key × Value)) :
    plainEntries entries = entries.map plainEntry := by
  induction entries with
  | nil => rfl
  | cons e rest ih => rw [plainEntries, ih, List.map_cons, plainEntry]

theorem plain_tuple (items : List Value) : (tuple items).plain = .sequence (items.map plain) := by
  rw [plain, plainItems_eq]

theorem plain_sequence (items : List Value) :
    (sequence items).plain = .sequence (items.map plain) := by
  rw [plain, plainItems_eq]

theorem plain_table (t : Table) :
    (table t).plain = .table (.ofEntries (t.entries.toList.map plainEntry)) := by
  obtain ⟨name, ⟨entries⟩, forceIndent, forceUnindent, ordered⟩ := t
  rw [plain, TableOf.plain, plainEntries_eq]

/-- What holds nothing holds nothing afterwards, and the other way round. -/
theorem isNull_plain (v : Value) : v.plain.isNull = v.isNull := by
  cases v <;> rfl

/-! ## The two walks -/

theorem toData_eq (items : List Value) : toData items = items.map toDatum := by
  induction items with
  | nil => rfl
  | cons v rest ih => rw [toData, ih, List.map_cons]

/-- An integer of 64 bits is told as it is. -/
theorem toNumber_int64 (i : Int64) : (MachineInt.int64 i).toNumber = .integer i := by
  have hfits : Number.Fits (MachineInt.int64 i).toInt := Number.fits_toInt i
  rw [MachineInt.toNumber_of_fits hfits]
  exact congrArg Number.integer (Int64.ofInt_toInt i)

theorem toValues_toData {items : List Value}
    (h : ∀ v ∈ items, v.toDatum.Gives v.plain) :
    Datum.toValues (toData items) = .ok (items.map plain) := by
  rw [toData_eq, Datum.toValues_eq_ok_iff, List.forall₂_map_left_iff, List.forall₂_map_right_iff]
  exact List.forall₂_same.2 h

/-- The calls for an entry write it under the text of its key. -/
theorem addCalls_entryCalls {entries : List (Key × Value)}
    (h : ∀ e ∈ entries, e.2.toDatum.Gives e.2.plain) (t : Table) :
    Datum.addCalls t none (entryCalls entries) = .ok (t.insertMany (entries.map plainEntry)) := by
  induction entries generalizing t with
  | nil => rfl
  | cons e rest ih =>
    obtain ⟨k, v⟩ := e
    have hrun : Datum.addCalls t none (entryCalls ((k, v) :: rest)) =
        v.toDatum.toValue.bind fun w =>
          Datum.addCalls (t.insert (.name k.text) w) none (entryCalls rest) := rfl
    have hv : v.toDatum.toValue = .ok v.plain := h (k, v) List.mem_cons_self
    rw [hrun, hv]
    exact ih (fun e he => h e (List.mem_cons_of_mem _ he)) _

/-- **The value of the description of a value** is its plain form. -/
theorem gives_plain (v : Value) : v.toDatum.Gives v.plain := by
  induction v with
  | null | bool b | text s | fuId s => rfl
  | number n =>
    cases n with
    | integer i => exact congrArg (Except.ok ∘ Value.number) (toNumber_int64 i)
    | float x => rfl
  | tuple items ih =>
    rw [plain_tuple]
    exact congrArg (Except.map sequence) (toValues_toData ih)
  | sequence items ih =>
    rw [plain_sequence]
    exact congrArg (Except.map sequence) (toValues_toData ih)
  | table t ih =>
    rw [plain_table]
    obtain ⟨name, ⟨entries⟩, forceIndent, forceUnindent, ordered⟩ := t
    exact congrArg (Except.map table) (addCalls_entryCalls ih ∅)

end Value

/-! ## Plain values -/

/-- Whether a table has no tag, no switch on, and names only as keys, none of them twice. -/
structure TableOf.IsPlain (t : Table) : Prop extends t.WellKeyed where
  settings : t.settings = ("", false, false, false)
  named : ∀ k ∈ t.entries.keys, ∃ s, k = .name s

namespace Value

/-- Whether a value, apart from its parts, is no identifier, no tuple, and no table that is not
plain. -/
def PlainByItself : Value → Prop
  | .fuId _ | .tuple _ => False
  | .table t => t.IsPlain
  | _ => True

/-- Whether a value is plain, at any depth. -/
def IsPlain (v : Value) : Prop := v.Throughout PlainByItself

end Value

namespace TableOf

theorem isPlain_empty : (∅ : Table).IsPlain :=
  { numeric := nofun, apart := .nil, settings := rfl, named := nofun }

theorem IsPlain.insert {t : Table} (h : t.IsPlain) (s : String) (v : Value) :
    (t.insert (.name s) v).IsPlain := by
  refine { (h.shows_view.insert rfl v).toWellKeyed with settings := h.settings, named := ?_ }
  cases hcontains : t.contains (.name s) with
  | true => exact t.entries.keys_insert_of_contains hcontains v ▸ h.named
  | false =>
    have hkeys : (t.insert (.name s) v).entries.keys = t.entries.keys ++ [.name s] :=
      t.entries.keys_insert_of_not_contains hcontains v
    rw [hkeys]
    exact List.forall_mem_append.2 ⟨h.named, List.forall_mem_singleton.2 ⟨s, rfl⟩⟩

theorem IsPlain.insertMany {t : Table} (h : t.IsPlain) {entries : List (Key × Value)}
    (hnames : ∀ e ∈ entries, ∃ s, e.1 = .name s) : (t.insertMany entries).IsPlain := by
  induction entries generalizing t with
  | nil => exact h
  | cons e rest ih =>
    obtain ⟨s, hs⟩ := hnames e List.mem_cons_self
    refine ih (t := t.insert e.1 e.2) ?_ fun e' he' => hnames e' (List.mem_cons_of_mem e he')
    rw [hs]
    exact h.insert s e.2

/-- A plain table is what its entries make. -/
theorem IsPlain.eq_ofEntries {t : Table} (h : t.IsPlain) : t = .ofEntries t.entries.toList := by
  have hentries : Entries.ofList t.entries.toList = t.entries :=
    Entries.ofList_toList h.keysApart
  obtain ⟨name, entries, forceIndent, forceUnindent, ordered⟩ := t
  cases h.settings
  exact congrArg (fun entries => ({ entries } : Table)) hentries.symm

end TableOf

namespace Value

/-- Writing plain values under names makes a plain table. -/
theorem isPlain_table_ofEntries {entries : List (Key × Value)}
    (h : ∀ e ∈ entries, (∃ s, e.1 = .name s) ∧ e.2.IsPlain) :
    (table (.ofEntries entries)).IsPlain := by
  refine .intro (TableOf.isPlain_empty.insertMany fun e he => (h e he).1) fun p hp => ?_
  obtain ⟨e, he, rfl⟩ := Datum.exists_of_mem_parts hp
  exact (h e he).2

/-- **Plain forms are plain.** -/
theorem isPlain_plain (v : Value) : v.plain.IsPlain := by
  induction v with
  | null | bool b | number n | text s | fuId s => exact .intro trivial nofun
  | tuple items ih =>
    rw [plain_tuple]
    exact .intro trivial (List.forall_mem_map.2 ih)
  | sequence items ih =>
    rw [plain_sequence]
    exact .intro trivial (List.forall_mem_map.2 ih)
  | table t ih =>
    rw [plain_table]
    exact isPlain_table_ofEntries (List.forall_mem_map.2 fun e he => ⟨⟨e.1.text, rfl⟩, ih e he⟩)

/-- **Plain values are their own plain forms.** -/
theorem plain_of_isPlain {v : Value} (h : v.IsPlain) : v.plain = v := by
  induction v with
  | null | bool b | number n | text s => rfl
  | fuId s => exact h.own.elim
  | tuple items ih => exact h.own.elim
  | sequence items ih =>
    rw [plain_sequence, List.map_congr_left fun v hv => ih v hv (h.part hv), List.map_id']
  | table t ih =>
    have ht : t.IsPlain := h.own
    -- the text of a name is the name, so keys stay as well
    have hentry : ∀ e ∈ t.entries.toList, plainEntry e = e := by
      rintro ⟨k, v⟩ he
      obtain ⟨s, rfl⟩ : ∃ s, k = .name s := ht.named k (List.mem_map_of_mem he)
      exact congrArg (Prod.mk _) (ih _ he (h.part (List.mem_map_of_mem he)))
    rw [plain_table, List.map_congr_left hentry, List.map_id', ← ht.eq_ofEntries]

/-- Entries whose keys have different texts stay in their places. -/
theorem plain_table_of_nodup {t : Table} (h : (t.entries.keys.map Key.text).Nodup) :
    (table t).plain = .table { entries := ⟨t.entries.toList.map plainEntry⟩ } := by
  rw [Entries.keys, List.map_map] at h
  have hapart : Entries.KeysApart (t.entries.toList.map plainEntry) :=
    Entries.keysApart_names_iff.2 h
  rw [plain_table]
  exact congrArg (fun l => table { entries := ⟨l⟩ }) (Entries.toList_ofList hapart)

/-- **Describing a value anew makes it plain and no more.** The description of a value has a value,
which is plain and is left as it is from then on, as all plain values are. Tuples and sequences keep
their items in order, those that hold nothing included, and a table in which the texts of all keys
differ keeps its entries in order, each under the text of its key. In any table an entry is written
under the text of its key. Tables that are made by writing plain values under names are plain. -/
theorem plain_laws :
    (∀ v : Value, v.toDatum.toValue = .ok v.plain) ∧
    (∀ v : Value, v.plain.IsPlain ∧ v.plain.toDatum.toValue = .ok v.plain) ∧
    (∀ v : Value, v.IsPlain → v.toDatum.toValue = .ok v) ∧
    (∀ items : List Value, (Value.tuple items).plain = .sequence (items.map plain) ∧
      (Value.sequence items).plain = .sequence (items.map plain)) ∧
    (∀ v : Value, v.plain.isNull = v.isNull) ∧
    (∀ t : Table, (t.entries.keys.map Key.text).Nodup → (Value.table t).plain =
      .table { name := "", entries := ⟨t.entries.toList.map fun e => (.name e.1.text, e.2.plain)⟩,
               forceIndent := false, forceUnindent := false, ordered := false }) ∧
    (∀ t : Table, (Value.table t).plain =
      .table (.ofEntries (t.entries.toList.map fun e => (.name e.1.text, e.2.plain)))) ∧
    ∀ entries : List (Key × Value), (∀ e ∈ entries, (∃ s, e.1 = .name s) ∧ e.2.IsPlain) →
      (Value.table (.ofEntries entries)).IsPlain := by
  have hkept : ∀ v : Value, v.IsPlain → v.toDatum.toValue = .ok v := by
    intro v hv
    have hgives : v.toDatum.toValue = .ok v.plain := gives_plain v
    rwa [plain_of_isPlain hv] at hgives
  exact ⟨gives_plain, fun v => ⟨isPlain_plain v, hkept _ (isPlain_plain v)⟩, hkept,
    fun items => ⟨plain_tuple items, plain_sequence items⟩, isNull_plain,
    fun _ => plain_table_of_nodup, plain_table, fun _ => isPlain_table_ofEntries⟩

example : (table (.ofEntries [(.index 1, .fuId "Blur"), (.name "1", .null)])).toDatum.toValue =
    .ok (.table (.ofEntries [(.name "1", .null)])) := rfl

/-- A tagged table with keys of all kinds. -/
def mixedKeys : Table :=
  { name := "Fuse", ordered := true,
    entries := .ofList [(.index 1, .tuple [.null, .fuId "Blur"]),
      (.frame (.integer 1),
        .table { name := "Input", entries := .ofList [(.name "Value", .null)] }),
      (.name "[2]", .text "")] }

/-- The same table described anew. -/
def plainMixedKeys : Table :=
  .ofEntries [(.name "1", .sequence [.null, .text "Blur"]),
    (.name "[1]", .table (.ofEntries [(.name "Value", .null)])), (.name "[2]", .text "")]

theorem plain_laws_mixedKeys :
    (mixedKeys.entries.keys.map Key.text).Nodup ∧
      (table mixedKeys).plain = .table plainMixedKeys ∧ (table plainMixedKeys).IsPlain ∧
      (table plainMixedKeys).toDatum.toValue = .ok (table plainMixedKeys) := by
  obtain ⟨-, -, hkept, -, -, hplaces, -, hwritten⟩ := plain_laws
  have hnodup : (mixedKeys.entries.keys.map Key.text).Nodup := by decide
  have hplain : (table plainMixedKeys).IsPlain := by
    refine hwritten _ ?_
    simp only [List.forall_mem_cons]
    refine ⟨⟨⟨_, rfl⟩, .intro trivial ?_⟩, ⟨⟨_, rfl⟩, hwritten _ ?_⟩,
      ⟨⟨_, rfl⟩, .intro trivial nofun⟩, nofun⟩
    · exact List.forall_mem_cons.2
        ⟨.intro trivial nofun, List.forall_mem_singleton.2 (.intro trivial nofun)⟩
    · exact List.forall_mem_singleton.2 ⟨⟨_, rfl⟩, .intro trivial nofun⟩
  exact ⟨hnodup, hplaces mixedKeys hnodup, hplain, hkept _ hplain⟩

end Value

end SceneScript
