import SceneScript.Proofs.MapCalls
import SceneScript.Proofs.SinglePrecision
import SceneScript.Proofs.ValueEquality

/-!
# What data come to

The conversion of a datum looks at everything in the datum, in the order in which it describes
itself, and ends at the first thing that fails. `Datum.visits` lists what is looked at: every datum
before what it holds, and a key once more when its value is put to use. A datum fails on its own
account only if it says so or is an integer of 128 bits, and the use of a key fails if it is neither
a text nor a number. In maps each value is taken to come behind its key; what happens otherwise is
said for the calls themselves in `MapCall.addCalls_cases`.

If nothing fails, nothing is lost. `Datum.ShownBy` says for each kind of datum how its value shows
the datum: that of a scalar by itself, that of any other by the values of what it holds. The items
of a variant are the only ones whose place is worked out on the way, from the size of the table so
far, so the invariant there is that the table has exactly the positions below its size.

Main statements:

- `Datum.failsFirst`: the failure of a datum is the first among those of its visits;
- `Datum.shownBy_of_toValue`: the value of a datum shows the datum;
- `Datum.unswitched_of_toValue`: no table in it has a switch on;
- `toValue_first_failure`: all of this, for data at every depth.
-/

namespace SceneScript

/-! ## Data and what they hold -/

/-- The datum that a call is about. -/
def MapCall.content {α : Type} : MapCall α → α
  | .key a => a
  | .value a => a

namespace Datum

/-- What a datum holds, in its order. -/
def contents : Datum → List Datum
  | .some d | .wrapped d | .wrappedVariant _ d => [d]
  | .sequence items | .tuple items | .tupleVariant _ items => items
  | .record _ fields => fields.map Prod.snd
  | .map calls => calls.map MapCall.content
  | _ => []

theorem sizeOf_content_lt {calls : List (MapCall Datum)} {call : MapCall Datum}
    (h : call ∈ calls) : sizeOf call.content < sizeOf calls := by
  have hcall : sizeOf call.content < sizeOf call := by
    cases call <;> simp [MapCall.content]
  exact hcall.trans (List.sizeOf_lt_of_mem h)

theorem sizeOf_lt_of_mem_contents {d c : Datum} (h : c ∈ d.contents) : sizeOf c < sizeOf d := by
  cases d with
  | some d | wrapped d | wrappedVariant name d =>
    obtain rfl := List.mem_singleton.1 h
    simp
  | sequence items | tuple items | tupleVariant name items =>
    have : sizeOf c < sizeOf items := List.sizeOf_lt_of_mem h
    simp
    omega
  | record name fields =>
    obtain ⟨⟨field, c⟩, hfield, rfl⟩ := List.mem_map.1 h
    have := List.sizeOf_lt_of_mem hfield
    simp at this ⊢
    omega
  | map calls =>
    obtain ⟨call, hcall, rfl⟩ := List.mem_map.1 h
    have := sizeOf_content_lt hcall
    simp
    omega
  | _ => cases h

/-- Induction over data, from all that a datum holds to the datum. -/
theorem contents_induction {motive : Datum → Prop}
    (step : ∀ d, (∀ c ∈ d.contents, motive c) → motive d) (d : Datum) : motive d :=
  step d fun c _ => contents_induction step c
termination_by sizeOf d
decreasing_by exact sizeOf_lt_of_mem_contents ‹_›

/-! ## Visits -/

/-- What the conversion looks at: a datum, or the use of a datum as a key. -/
inductive Visit
  | datum (d : Datum)
  | asKey (d : Datum)

mutual

/-- The visits inside a datum, in order. -/
def innerVisits : Datum → List Visit
  | .some d | .wrapped d | .wrappedVariant _ d => .datum d :: d.innerVisits
  | .sequence items | .tuple items | .tupleVariant _ items => itemVisits items
  | .record _ fields => fieldVisits fields
  | .map calls => callVisits calls
  | _ => []
termination_by structural d => d

def itemVisits : List Datum → List Visit
  | [] => []
  | d :: rest => .datum d :: d.innerVisits ++ itemVisits rest
termination_by structural l => l

def fieldVisits : List (String × Datum) → List Visit
  | [] => []
  | (_, d) :: rest => .datum d :: d.innerVisits ++ fieldVisits rest
termination_by structural l => l

/-- A key is looked at first for itself and then for its use. -/
def callVisits : List (MapCall Datum) → List Visit
  | [] => []
  | .key d :: rest => .datum d :: d.innerVisits ++ .asKey d :: callVisits rest
  | .value d :: rest => .datum d :: d.innerVisits ++ callVisits rest
termination_by structural l => l

end

/-- Everything that the conversion of a datum looks at, in order. -/
def visits (d : Datum) : List Visit := .datum d :: d.innerVisits

/-- Why a datum fails by itself. -/
def ownFailure? : Datum → Option Error
  | .wide signed =>
    Option.some (.custom ((if signed then "i128" else "u128") ++ " is not supported"))
  | .failing reason => Option.some (.custom reason)
  | _ => Option.none

/-- Why a visit fails. -/
def Visit.failure? : Visit → Option Error
  | .datum d => d.ownFailure?
  | .asKey d => MapCall.keyOffence? d.toValue

/-- The first failure among visits. -/
def firstFailure? (visits : List Visit) : Option Error := visits.findSome? Visit.failure?

theorem itemVisits_eq (items : List Datum) : itemVisits items = items.flatMap visits := by
  induction items with
  | nil => rfl
  | cons d rest ih => rw [itemVisits, ih, List.flatMap_cons, visits]

theorem fieldVisits_eq (fields : List (String × Datum)) :
    fieldVisits fields = (fields.map Prod.snd).flatMap visits := by
  induction fields with
  | nil => rfl
  | cons field rest ih => rw [fieldVisits, ih, List.map_cons, List.flatMap_cons, visits]

/-- The visits of a call. -/
def callVisit : MapCall Datum → List Visit
  | .key d => d.visits ++ [Visit.asKey d]
  | .value d => d.visits

theorem callVisits_eq (calls : List (MapCall Datum)) :
    callVisits calls = calls.flatMap callVisit := by
  induction calls with
  | nil => rfl
  | cons call rest ih => cases call <;> simp [callVisits, ih, callVisit, visits]

theorem visits_subset_callVisit (call : MapCall Datum) : call.content.visits ⊆ callVisit call := by
  cases call with
  | key d => exact List.subset_append_left _ _
  | value d => exact List.Subset.refl _

/-- The visits of what a datum holds are visits of the datum. -/
theorem visits_subset_of_mem_contents {d c : Datum} (h : c ∈ d.contents) : c.visits ⊆ d.visits := by
  intro visit hvisit
  refine List.mem_cons_of_mem (Visit.datum d) ?_
  cases d with
  | some d | wrapped d | wrappedVariant name d =>
    obtain rfl := List.mem_singleton.1 h
    exact hvisit
  | sequence items | tuple items | tupleVariant name items =>
    rw [innerVisits, itemVisits_eq]
    exact List.mem_flatMap.2 ⟨c, h, hvisit⟩
  | record name fields =>
    rw [innerVisits, fieldVisits_eq]
    exact List.mem_flatMap.2 ⟨c, h, hvisit⟩
  | map calls =>
    obtain ⟨call, hcall, rfl⟩ := List.mem_map.1 h
    rw [innerVisits, callVisits_eq]
    exact List.mem_flatMap.2 ⟨call, hcall, visits_subset_callVisit call hvisit⟩
  | _ => cases h

/-- Whether each value comes behind its key, if a map is visited. -/
def Visit.KeyFirst : Visit → Prop
  | .datum (.map calls) =>
    ∀ p ∈ MapCall.valuesWithBefore [] calls, MapCall.keysSinceValue p.1 ≠ []
  | _ => True

instance : DecidablePred Visit.KeyFirst := fun visit => by
  unfold Visit.KeyFirst
  split <;> infer_instance

/-- Whether in every map of a datum each value comes behind its key. -/
def KeysFirst (d : Datum) : Prop := ∀ visit ∈ d.visits, visit.KeyFirst

instance (d : Datum) : Decidable d.KeysFirst :=
  inferInstanceAs (Decidable (∀ visit ∈ d.visits, visit.KeyFirst))

theorem KeysFirst.of_mem_contents {d c : Datum} (h : d.KeysFirst) (hc : c ∈ d.contents) :
    c.KeysFirst :=
  fun visit hvisit => h visit (visits_subset_of_mem_contents hc hvisit)

/-! ## The first failure -/

/-- The failure of a conversion. -/
def failureOf {α : Type} : Except Error α → Option Error
  | .error e => Option.some e
  | .ok _ => Option.none

/-- Whether the failure of a datum is the first among its visits. -/
def FailsFirst (d : Datum) : Prop := failureOf d.toValue = firstFailure? d.visits

theorem FailsFirst.eq {d : Datum} (h : d.FailsFirst) :
    firstFailure? d.visits = failureOf d.toValue :=
  Eq.symm h

theorem failureOf_map {α β : Type} (f : α → β) (x : Except Error α) :
    failureOf (x.map f) = failureOf x := by
  cases x <;> rfl

theorem firstFailure?_append (l l' : List Visit) :
    firstFailure? (l ++ l') = (firstFailure? l).or (firstFailure? l') :=
  List.findSome?_append

theorem firstFailure?_visits {d : Datum} (h : d.ownFailure? = Option.none) :
    firstFailure? d.visits = firstFailure? d.innerVisits := by
  simp [visits, firstFailure?, Visit.failure?, h]

theorem toValues_cons (d : Datum) (rest : List Datum) :
    toValues (d :: rest) = d.toValue.bind fun v => (toValues rest).map fun vs => v :: vs := rfl

theorem failureOf_toValues {items : List Datum} (ih : ∀ d ∈ items, d.FailsFirst) :
    failureOf (toValues items) = firstFailure? (items.flatMap visits) := by
  induction items with
  | nil => rfl
  | cons d rest ihrest =>
    have hd : d.FailsFirst := ih d List.mem_cons_self
    rw [List.flatMap_cons, firstFailure?_append, hd.eq, toValues_cons,
      ← ihrest fun c hc => ih c (List.mem_cons_of_mem d hc)]
    cases d.toValue with
    | error e => rfl
    | ok v => exact failureOf_map _ _

theorem offence?_key (before : List (MapCall Datum)) {d : Datum} (h : d.FailsFirst) :
    MapCall.offence? before (.key d) = firstFailure? (callVisit (.key d)) := by
  have huse : firstFailure? [.asKey d] = MapCall.keyOffence? d.toValue := by
    simp [firstFailure?, Visit.failure?]
  rw [callVisit, firstFailure?_append, h.eq, huse, MapCall.offence?]
  cases d.toValue <;> rfl

theorem offence?_value {before : List (MapCall Datum)}
    (hkey : MapCall.keysSinceValue before ≠ []) {d : Datum} (h : d.FailsFirst) :
    MapCall.offence? before (.value d) = firstFailure? (callVisit (.value d)) := by
  rw [callVisit, h.eq, MapCall.offence?, if_neg hkey]
  cases d.toValue <;> rfl

/-- The first call that is not in order is the first that fails, if values come behind keys. -/
theorem firstOffence?_eq {before calls : List (MapCall Datum)}
    (hkeys : ∀ p ∈ MapCall.valuesWithBefore before calls, MapCall.keysSinceValue p.1 ≠ [])
    (ih : ∀ call ∈ calls, call.content.FailsFirst) :
    MapCall.firstOffence? before calls = firstFailure? (calls.flatMap callVisit) := by
  induction calls generalizing before with
  | nil => rfl
  | cons call rest ihrest =>
    rw [MapCall.valuesWithBefore_cons] at hkeys
    have hcall : MapCall.offence? before call = firstFailure? (callVisit call) := by
      have hcontent : call.content.FailsFirst := ih call List.mem_cons_self
      cases call with
      | key d => exact offence?_key before hcontent
      | value d =>
        have hfirst : (before, d) ∈ MapCall.valuesWithBefore before [.value d] :=
          List.mem_cons_self
        exact offence?_value (hkeys _ (List.mem_append_left _ hfirst)) hcontent
    rw [List.flatMap_cons, firstFailure?_append, ← hcall]
    cases hoffence : MapCall.offence? before call with
    | some e => exact MapCall.firstOffence?_of_offence? hoffence
    | none =>
      rw [MapCall.firstOffence?_of_inOrder hoffence,
        ihrest (fun p hp => hkeys p (List.mem_append_right _ hp))
          fun c hc => ih c (List.mem_cons_of_mem call hc)]
      rfl

end Datum

/-! ## Tables that are filled on the way -/

namespace TableOf

/-- The table whose entries are the given values at their positions. -/
def positional (name : String) (values : List Value) : Table :=
  { name, entries := ⟨values.mapIdx fun i v => (.index i, v)⟩ }

theorem values_positional (name : String) (values : List Value) :
    (positional name values).entries.values = values := by
  simp [positional, Entries.values, List.ext_getElem_iff]

/-- The next position is the size of the table. -/
theorem insert_positional (name : String) (values : List Value) (v : Value) :
    (positional name values).insert (.index (positional name values).size) v =
      positional name (values ++ [v]) := by
  have hsize : (positional name values).size = values.length := List.length_mapIdx
  have hnew : ∀ e ∈ values.mapIdx fun i v => (Key.index i, v),
      (Key.index values.length == e.1) = false := by
    intro e he
    obtain ⟨i, hi, rfl⟩ := List.mem_mapIdx.1 he
    simp
    omega
  rw [hsize, positional, positional, insert, Entries.insert, Entries.insertList_of_forall_ne hnew,
    List.mapIdx_concat]

end TableOf

namespace Datum

theorem addItems_positional (name : String) (before : List Value) (items : List Datum) :
    addItems (.positional name before) items =
      (toValues items).map fun vs => .positional name (before ++ vs) := by
  induction items generalizing before with
  | nil => exact congrArg (Except.ok ∘ TableOf.positional name) (List.append_nil before).symm
  | cons d rest ih =>
    have hrun : addItems (.positional name before) (d :: rest) = d.toValue.bind fun v =>
        addItems (.positional name (before ++ [v])) rest := by
      simp only [← TableOf.insert_positional]
      rfl
    rw [hrun, toValues_cons]
    cases d.toValue with
    | error e => rfl
    | ok v =>
      show addItems _ rest = ((toValues rest).map _).map _
      rw [ih]
      cases toValues rest with
      | error e => rfl
      | ok vs =>
        exact congrArg (Except.ok ∘ TableOf.positional name) (List.append_assoc before [v] vs)

/-- The entries of a record, each under the name of its field. -/
def fieldEntries (fields : List (String × Datum)) (values : List Value) : List (Key × Value) :=
  (fields.zip values).map fun p => (.name p.1.1, p.2)

theorem addFields_eq (t : Table) (fields : List (String × Datum)) :
    addFields t fields =
      (toValues (fields.map Prod.snd)).map fun vs => t.insertMany (fieldEntries fields vs) := by
  induction fields generalizing t with
  | nil => rfl
  | cons field rest ih =>
    obtain ⟨name, d⟩ := field
    have hrun : addFields t ((name, d) :: rest) =
        d.toValue.bind fun v => addFields (t.insert (.name name) v) rest := rfl
    rw [hrun, List.map_cons, toValues_cons]
    cases d.toValue with
    | error e => rfl
    | ok v =>
      show addFields _ rest = ((toValues (rest.map Prod.snd)).map _).map _
      rw [ih]
      cases toValues (rest.map Prod.snd) <;> rfl

/-- **The failure of a datum is the first among its visits.** -/
theorem failsFirst (d : Datum) (h : d.KeysFirst) : d.FailsFirst := by
  induction d using contents_induction with
  | step d ih =>
    replace ih : ∀ c ∈ d.contents, c.FailsFirst := fun c hc => ih c hc (h.of_mem_contents hc)
    cases d with
    | some d | wrapped d => exact ih d List.mem_cons_self
    | wrappedVariant name d =>
      exact (failureOf_map _ d.toValue).trans (ih d List.mem_cons_self)
    | sequence items | tuple items =>
      have hitems : failureOf (toValues items) = _ := failureOf_toValues ih
      refine (failureOf_map _ (toValues items)).trans ?_
      rw [hitems, firstFailure?_visits rfl, innerVisits, itemVisits_eq]
    | tupleVariant name items =>
      have hitems : failureOf (toValues items) = _ := failureOf_toValues ih
      refine (failureOf_map _ (addItems (.positional name []) items)).trans ?_
      rw [addItems_positional, failureOf_map, hitems, firstFailure?_visits rfl, innerVisits,
        itemVisits_eq]
    | record name fields =>
      have hfields : failureOf (toValues (fields.map Prod.snd)) = _ := failureOf_toValues ih
      refine (failureOf_map _ (addFields { name } fields)).trans ?_
      rw [addFields_eq, failureOf_map, hfields, firstFailure?_visits rfl, innerVisits,
        fieldVisits_eq]
    | map calls =>
      have hoffence : MapCall.firstOffence? [] calls = firstFailure? (calls.flatMap callVisit) :=
        firstOffence?_eq (h (.datum (.map calls)) List.mem_cons_self)
          fun call hcall => ih _ (List.mem_map_of_mem hcall)
      -- the run is said in full for calls in any order; here no value lacks a key
      refine (failureOf_map _ (addCalls ∅ Option.none calls)).trans ?_
      rw [firstFailure?_visits rfl, innerVisits, callVisits_eq, ← hoffence]
      have hfresh : MapCall.Keeps [] Option.none := .nothing rfl
      rcases MapCall.addCalls_cases calls hfresh ∅ with
        ⟨e, hfirst, hrun⟩ | ⟨hfirst, entries, -, hrun⟩
      · rw [hfirst, hrun]
        rfl
      · rw [hfirst, hrun]
        rfl
    | _ => rfl

/-! ## What is shown -/

/-- Whether a value is that of a datum. -/
def Gives (d : Datum) (v : Value) : Prop := d.toValue = .ok v

/-- Whether a number is that of an integer: the integer itself if it fits 64 signed bits, and else
the double nearest to it. -/
def IsNumberOf (i : Int) (n : Number) : Prop :=
  (Number.Fits i → ∃ kept, n = .integer kept ∧ kept.toInt = i) ∧
    (¬ Number.Fits i → n = .float (.ofInt i))

/-- Whether a double is a single-precision number: it has the value and the sign of its bits. -/
def IsDoubleOf (bits : UInt32) (x : Binary64) : Prop :=
  (Number.float x).exactValue? = Binary64.singleValue? bits ∧
    (x.isNaN = false → x.isNegative = decide (bits.toNat >>> 31 = 1))

/-- How the value of a datum shows the datum. Scalars are shown as they are, and absent data by
nothing. All other data are shown by the values of what they hold. -/
def ShownBy : Datum → Value → Prop
  | .bool b, v => v = .bool b
  | .integer m, v => ∃ n, IsNumberOf m.toInt n ∧ v = .number n
  | .single bits, v => ∃ x, IsDoubleOf bits x ∧ v = .number (.float x)
  | .double x, v => v = .number (.float x)
  | .char c, v => ∃ s : String, s.toList = [c] ∧ v = .text s
  | .text s, v | .unitVariant s, v => v = .text s
  | .none, v | .unit, v => v = .null
  | .some d, v | .wrapped d, v => d.Gives v
  | .wrappedVariant name d, v => ∃ w, d.Gives w ∧ v = .table (.positional name [w])
  | .bytes content, v =>
    ∃ ns, List.Forall₂ (fun b n => IsNumberOf b.toNat n) content ns ∧
      v = .sequence (ns.map .number)
  | .sequence items, v => ∃ ws, List.Forall₂ Gives items ws ∧ v = .sequence ws
  | .tuple items, v => ∃ ws, List.Forall₂ Gives items ws ∧ v = .tuple ws
  | .tupleVariant name items, v =>
    ∃ ws, List.Forall₂ Gives items ws ∧ v = .table (.positional name ws)
  | .record name fields, v =>
    ∃ ws, List.Forall₂ (fun field w => field.2.Gives w) fields ws ∧
      v = .table { name, entries := .ofList (fieldEntries fields ws) } ∧
      ((fields.map Prod.fst).Nodup → v = .table { name, entries := ⟨fieldEntries fields ws⟩ })
  | .map calls, v =>
    ∃ entries, List.Forall₂ MapCall.Writes (MapCall.valuesWithBefore [] calls) entries ∧
      v = .table (.ofEntries entries)
  | .wide _, _ | .failing _, _ => False

theorem isNumberOf_toNumber (m : MachineInt) : IsNumberOf m.toInt m.toNumber := by
  refine ⟨fun h => ⟨_, MachineInt.toNumber_of_fits h, Number.toInt_ofInt h⟩, fun h => ?_⟩
  rw [MachineInt.toNumber, Number.ofInt?_eq_none.2 h]
  rfl

theorem isDoubleOf_ofSingleBits (bits : UInt32) : IsDoubleOf bits (.ofSingleBits bits) :=
  ⟨Binary64.exactValue?_ofSingleBits bits, Binary64.isNegative_ofSingleBits⟩

theorem exists_of_map_eq_ok {α β : Type} {f : α → β} {x : Except Error α} {b : β}
    (h : x.map f = .ok b) : ∃ a, x = .ok a ∧ f a = b := by
  cases x with
  | error e => cases h
  | ok a => exact ⟨a, rfl, Except.ok.inj h⟩

theorem toValues_eq_ok_iff {items : List Datum} {ws : List Value} :
    toValues items = .ok ws ↔ List.Forall₂ Gives items ws := by
  induction items generalizing ws with
  | nil => simp [toValues, eq_comm]
  | cons d rest ih =>
    rw [toValues_cons, List.forall₂_cons_left_iff]
    constructor
    · intro h
      cases hd : d.toValue with
      | error e =>
        rw [hd] at h
        cases h
      | ok w =>
        rw [hd] at h
        obtain ⟨ws', hrest, rfl⟩ := exists_of_map_eq_ok (x := toValues rest) h
        exact ⟨w, ws', hd, ih.1 hrest, rfl⟩
    · rintro ⟨w, ws', hd, hrest, rfl⟩
      rw [show d.toValue = _ from hd]
      show (toValues rest).map _ = _
      rw [ih.2 hrest]
      rfl

theorem keysApart_fieldEntries {fields : List (String × Datum)} {ws : List Value}
    (hlength : fields.length = ws.length) (h : (fields.map Prod.fst).Nodup) :
    Entries.KeysApart (fieldEntries fields ws) := by
  rw [← List.map_fst_zip (Nat.le_of_eq hlength), List.map_map] at h
  exact Entries.keysApart_names_iff.2 h

/-- **The value of a datum shows the datum.** -/
theorem shownBy_of_toValue {d : Datum} {v : Value} (h : d.toValue = .ok v) : d.ShownBy v := by
  cases d with
  | integer m =>
    obtain rfl := Except.ok.inj h
    exact ⟨_, isNumberOf_toNumber m, rfl⟩
  | single bits =>
    obtain rfl := Except.ok.inj h
    exact ⟨_, isDoubleOf_ofSingleBits bits, rfl⟩
  | char c =>
    obtain rfl := Except.ok.inj h
    exact ⟨_, String.toList_singleton c, rfl⟩
  | bool b | double x | text s | unitVariant name | none | unit => exact (Except.ok.inj h).symm
  | some d | wrapped d => exact h
  | wrappedVariant name d =>
    obtain ⟨w, hw, rfl⟩ := exists_of_map_eq_ok (x := d.toValue) h
    exact ⟨w, hw, rfl⟩
  | bytes content =>
    obtain rfl := Except.ok.inj h
    refine ⟨content.map fun b => (MachineInt.uint8 b).toNumber, ?_, ?_⟩
    · exact List.forall₂_map_right_iff.2
        (List.forall₂_same.2 fun b _ => isNumberOf_toNumber (.uint8 b))
    · rw [List.map_map]
      rfl
  | sequence items | tuple items =>
    obtain ⟨ws, hws, rfl⟩ := exists_of_map_eq_ok (x := toValues items) h
    exact ⟨ws, toValues_eq_ok_iff.1 hws, rfl⟩
  | tupleVariant name items =>
    obtain ⟨t, ht, rfl⟩ := exists_of_map_eq_ok (x := addItems (.positional name []) items) h
    rw [addItems_positional] at ht
    obtain ⟨ws, hws, rfl⟩ := exists_of_map_eq_ok ht
    exact ⟨ws, toValues_eq_ok_iff.1 hws, rfl⟩
  | record name fields =>
    obtain ⟨t, ht, rfl⟩ := exists_of_map_eq_ok (x := addFields { name } fields) h
    rw [addFields_eq] at ht
    obtain ⟨ws, hws, rfl⟩ := exists_of_map_eq_ok ht
    have hgives := List.forall₂_map_left_iff.1 (toValues_eq_ok_iff.1 hws)
    refine ⟨ws, hgives, rfl, fun hnodup => ?_⟩
    have hentries := Entries.toList_ofList (keysApart_fieldEntries hgives.length_eq hnodup)
    exact congrArg (fun entries => Value.table { name, entries := ⟨entries⟩ }) hentries
  | map calls =>
    obtain ⟨t, ht, rfl⟩ := exists_of_map_eq_ok (x := addCalls ∅ Option.none calls) h
    have hfresh : MapCall.Keeps [] Option.none := .nothing rfl
    rcases MapCall.addCalls_cases calls hfresh ∅ with
      ⟨e, -, hrun⟩ | ⟨-, entries, hwrites, hrun⟩
    · rw [hrun] at ht
      cases ht
    · rw [hrun] at ht
      cases ht
      exact ⟨entries, hwrites, rfl⟩
  | wide signed | failing reason => cases h

end Datum

/-! ## Switches -/

namespace Value

/-- Whether something is true of a value and of everything in it, at any depth. -/
inductive Throughout (P : Value → Prop) : Value → Prop
  | intro {v : Value} (own : P v) (parts : ∀ p ∈ v.parts, Throughout P p) : Throughout P v

theorem Throughout.own {P : Value → Prop} {v : Value} (h : v.Throughout P) : P v := by
  cases h with
  | intro own parts => exact own

theorem Throughout.part {P : Value → Prop} {v p : Value} (h : v.Throughout P) (hp : p ∈ v.parts) :
    p.Throughout P := by
  cases h with
  | intro own parts => exact parts p hp

/-- Whether a value is no table with a switch on. -/
def Unswitched : Value → Prop
  | .table t => t.forceIndent = false ∧ t.forceUnindent = false ∧ t.ordered = false
  | _ => True

end Value

theorem MapCall.mem_of_mem_valuesWithBefore {α : Type} {before calls : List (MapCall α)}
    {p : List (MapCall α) × α} (h : p ∈ MapCall.valuesWithBefore before calls) :
    .value p.2 ∈ calls := by
  obtain ⟨⟨before', call⟩, hmem, hp⟩ := List.mem_filterMap.1 h
  obtain ⟨mid, rest, -, rfl⟩ := MapCall.mem_withBefore.1 hmem
  cases call with
  | key k => cases hp
  | value v =>
    cases hp
    exact List.mem_append_right _ List.mem_cons_self

/-- What stands on the right of a relation between lists is related to something on the left. -/
theorem exists_of_mem_right {α β : Type} {R : α → β → Prop} {l : List α} {l' : List β}
    (h : List.Forall₂ R l l') {b : β} (hb : b ∈ l') : ∃ a ∈ l, R a b := by
  induction h with
  | nil => cases hb
  | @cons a b' l l' hab _ ih =>
    rcases List.mem_cons.1 hb with rfl | hb
    · exact ⟨a, List.mem_cons_self, hab⟩
    · obtain ⟨a', ha', hab'⟩ := ih hb
      exact ⟨a', List.mem_cons_of_mem a ha', hab'⟩

namespace Datum

/-- Whatever is written into a table, its parts are values that were written. -/
theorem exists_of_mem_parts {name : String} {entries : List (Key × Value)} {p : Value}
    (h : p ∈ (Value.table { name, entries := .ofList entries }).parts) :
    ∃ e ∈ entries, e.2 = p := by
  obtain ⟨e, he, rfl⟩ := List.mem_map.1 h
  exact Entries.exists_of_mem_ofList he

/-- **No table in the value of a datum has a switch on.** -/
theorem unswitched_of_toValue (d : Datum) {v : Value} (h : d.toValue = .ok v) :
    v.Throughout Value.Unswitched := by
  induction d using contents_induction generalizing v with
  | step d ih =>
    have hall : ∀ {items ws}, List.Forall₂ Gives items ws → items ⊆ d.contents →
        ∀ w ∈ ws, w.Throughout Value.Unswitched := by
      intro items ws hws hitems w hw
      obtain ⟨c, hc, hgives⟩ := exists_of_mem_right hws hw
      exact ih c (hitems hc) hgives
    have hshown : d.ShownBy v := shownBy_of_toValue h
    cases d with
    | some d | wrapped d => exact ih d List.mem_cons_self h
    | wrappedVariant name d =>
      obtain ⟨w, hw, rfl⟩ := hshown
      refine .intro ⟨rfl, rfl, rfl⟩ fun p hp => ?_
      obtain rfl := List.mem_singleton.1 hp
      exact ih d List.mem_cons_self hw
    | bytes content =>
      obtain ⟨ns, -, rfl⟩ := hshown
      refine .intro trivial fun p hp => ?_
      obtain ⟨n, -, rfl⟩ := List.mem_map.1 hp
      exact .intro trivial nofun
    | sequence items | tuple items =>
      obtain ⟨ws, hws, rfl⟩ := hshown
      exact .intro trivial (hall hws fun _ hc => hc)
    | tupleVariant name items =>
      obtain ⟨ws, hws, rfl⟩ := hshown
      refine .intro ⟨rfl, rfl, rfl⟩ fun p hp => hall hws (fun _ hc => hc) p ?_
      rwa [Value.parts, TableOf.values_positional] at hp
    | record name fields =>
      obtain ⟨ws, hws, rfl, -⟩ := hshown
      refine .intro ⟨rfl, rfl, rfl⟩ fun p hp => ?_
      obtain ⟨e, he, rfl⟩ := exists_of_mem_parts hp
      obtain ⟨pair, hpair, rfl⟩ := List.mem_map.1 he
      exact hall (List.forall₂_map_left_iff.2 hws) (fun _ hc => hc) _ (List.of_mem_zip hpair).2
    | map calls =>
      obtain ⟨entries, hentries, rfl⟩ := hshown
      refine .intro ⟨rfl, rfl, rfl⟩ fun p hp => ?_
      obtain ⟨e, he, rfl⟩ := exists_of_mem_parts hp
      obtain ⟨call, hcall, -, hvalue⟩ := exists_of_mem_right hentries he
      exact ih call.2 (List.mem_map_of_mem (MapCall.mem_of_mem_valuesWithBefore hcall)) hvalue
    | wide signed | failing reason => cases h
    | _ =>
      cases h
      exact .intro trivial nofun

/-! ## The whole of a conversion -/

theorem mem_innerVisits {d n : Datum} (h : .datum n ∈ d.innerVisits) :
    ∃ c ∈ d.contents, .datum n ∈ c.visits := by
  cases d with
  | some d | wrapped d | wrappedVariant name d => exact ⟨d, List.mem_cons_self, h⟩
  | sequence items | tuple items | tupleVariant name items =>
    rw [innerVisits, itemVisits_eq] at h
    exact List.mem_flatMap.1 h
  | record name fields =>
    rw [innerVisits, fieldVisits_eq] at h
    exact List.mem_flatMap.1 h
  | map calls =>
    rw [innerVisits, callVisits_eq] at h
    obtain ⟨call, hcall, h⟩ := List.mem_flatMap.1 h
    refine ⟨call.content, List.mem_map_of_mem hcall, ?_⟩
    cases call with
    | key d =>
      rcases List.mem_append.1 h with h | h
      · exact h
      · cases List.mem_singleton.1 h
    | value d => exact h
  | _ => cases h

/-- What is visited in a datum is visited with all that is in it. -/
theorem visits_subset_of_mem_visits {d n : Datum} (h : .datum n ∈ d.visits) :
    n.visits ⊆ d.visits := by
  induction d using contents_induction with
  | step d ih =>
    rcases List.mem_cons.1 h with heq | h
    · cases heq
      exact List.Subset.refl _
    · obtain ⟨c, hc, hmem⟩ := mem_innerVisits h
      exact List.Subset.trans (ih c hc hmem) (visits_subset_of_mem_contents hc)

theorem toValue_eq_error_iff {d : Datum} (h : d.KeysFirst) (e : Error) :
    d.toValue = .error e ↔ firstFailure? d.visits = Option.some e := by
  rw [(failsFirst d h).eq]
  cases d.toValue <;> simp [failureOf]

theorem exists_toValue_iff {d : Datum} (h : d.KeysFirst) :
    (∃ v, d.toValue = .ok v) ↔ ∀ visit ∈ d.visits, visit.failure? = Option.none := by
  rw [← List.findSome?_eq_none_iff]
  show _ ↔ firstFailure? d.visits = _
  rw [(failsFirst d h).eq]
  cases d.toValue <;> simp [failureOf]

theorem forall_visits_iff (d : Datum) :
    (∀ visit ∈ d.visits, visit.failure? = Option.none) ↔
      (∀ n, .datum n ∈ d.visits → n.ownFailure? = Option.none) ∧
      ∀ n, .asKey n ∈ d.visits → ∃ k, n.MakesKey k := by
  have hkey : ∀ n : Datum, (Visit.asKey n).failure? = Option.none ↔ ∃ k, n.MakesKey k := by
    intro n
    show MapCall.offence? [] (.key n) = Option.none ↔ _
    exact MapCall.offence?_key_eq_none_iff
  constructor
  · intro h
    exact ⟨fun n hn => h _ hn, fun n hn => (hkey n).1 (h _ hn)⟩
  · rintro ⟨hown, huse⟩ (n | n) hn
    · exact hown n hn
    · exact (hkey n).2 (huse n hn)

end Datum

/-- **A conversion fails exactly where it must and keeps everything.** Let values come behind their
keys in all maps of a datum. The datum has a value exactly if nothing in it fails by itself and the
value of every key in it is a text or a number. Otherwise the failure is that of the first visit
that fails. If there is a value, no table in it has a switch on, and every datum in the datum has a
value, which shows it: a scalar as it is, any other by the values of all that it holds. -/
theorem toValue_first_failure (d : Datum) (h : d.KeysFirst) :
    ((∃ v, d.toValue = .ok v) ↔
      (∀ n, .datum n ∈ d.visits → n.ownFailure? = none) ∧
      ∀ n, .asKey n ∈ d.visits → ∃ k, n.MakesKey k) ∧
    (∀ e, d.toValue = .error e ↔ d.visits.findSome? Datum.Visit.failure? = some e) ∧
    ∀ v, d.toValue = .ok v → v.Throughout Value.Unswitched ∧
      ∀ n, .datum n ∈ d.visits → ∃ w, n.toValue = .ok w ∧ n.ShownBy w := by
  refine ⟨(Datum.exists_toValue_iff h).trans d.forall_visits_iff, Datum.toValue_eq_error_iff h, ?_⟩
  intro v hv
  refine ⟨d.unswitched_of_toValue hv, fun n hn => ?_⟩
  have hsubset : n.visits ⊆ d.visits := Datum.visits_subset_of_mem_visits hn
  have hnone : ∀ visit ∈ n.visits, visit.failure? = none :=
    fun visit hvisit => (Datum.exists_toValue_iff h).1 ⟨v, hv⟩ visit (hsubset hvisit)
  obtain ⟨w, hw⟩ := (Datum.exists_toValue_iff fun visit hvisit => h visit (hsubset hvisit)).2 hnone
  exact ⟨w, hw, Datum.shownBy_of_toValue hw⟩

/-- A record with fields of many kinds, one of them a map whose keys are wrapped. -/
def mixedRecord : Datum :=
  .record "Layer" [("Opacity", .some (.double (.ofInt 0))), ("Mask", .none),
    ("Points", .sequence [.tuple [.integer (.int8 1), .unit], .bytes [0, 255]]),
    ("Mode", .tupleVariant "Blend" [.text "add", .tupleVariant "Nested" [.none, .bool true]]),
    ("Keys", .map [.key (.wrapped (.integer (.uint16 24))), .value (.unitVariant "Hold"),
      .key (.char 'x'), .value (.wrappedVariant "Point" (.single 0x3fc00000))])]

/-- The table that it comes to. -/
def mixedTable : Table :=
  .record "Layer" [("Opacity", .float (.ofInt 0)), ("Mask", .null),
    ("Points", .sequence [.tuple [.int 1, .null], .sequence [.int 0, .int 255]]),
    ("Mode", .table (.positional "Blend"
      [.text "add", .table (.positional "Nested" [.null, .bool true])])),
    ("Keys", .table { entries := ⟨[(.frame 24, .text "Hold"),
      (.name "x", .table (.positional "Point" [.float (.ofQuotient 3 2)]))]⟩ })]

theorem toValue_first_failure_mixedRecord :
    mixedRecord.KeysFirst ∧ mixedRecord.toValue = .ok (.table mixedTable) ∧
      (Value.table mixedTable).Throughout Value.Unswitched ∧
      mixedRecord.ShownBy (.table mixedTable) := by
  have hkeys : mixedRecord.KeysFirst := by decide
  have hsingle : Binary64.ofSingleBits 0x3fc00000 = .ofQuotient 3 2 := by decide +kernel
  have hpoint : (MachineInt.int8 1).toNumber = .integer 1 := by decide +kernel
  have hframe : (MachineInt.uint16 24).toNumber = 24 := by decide +kernel
  have hbytes : ([0, 255] : List UInt8).map (fun b => Value.number (MachineInt.uint8 b).toNumber) =
      [.int 0, .int 255] := by
    have hlow : (MachineInt.uint8 0).toNumber = .integer 0 := by decide +kernel
    have hhigh : (MachineInt.uint8 255).toNumber = .integer 255 := by decide +kernel
    rw [List.map_cons, List.map_cons, hlow, hhigh]
    rfl
  have hvalue : mixedRecord.toValue = .ok (.table mixedTable) := by
    simp only [mixedRecord, Datum.toValue, Datum.toValues, Datum.addFields, Datum.addItems,
      Datum.addCalls, hsingle, hpoint, hframe, hbytes]
    rfl
  obtain ⟨-, -, hshown⟩ := toValue_first_failure mixedRecord hkeys
  obtain ⟨hunswitched, hall⟩ := hshown _ hvalue
  obtain ⟨v, hv, hown⟩ := hall mixedRecord List.mem_cons_self
  obtain rfl : Value.table mixedTable = v := Except.ok.inj (hvalue.symm.trans hv)
  exact ⟨hkeys, hvalue, hunswitched, hown⟩

end SceneScript
