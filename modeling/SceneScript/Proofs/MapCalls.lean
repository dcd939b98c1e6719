import Mathlib.Data.List.Forall2
import SceneScript.Datum
import SceneScript.Proofs.InsertionOrder

/-!
# Maps as calls

A map describes itself by calls for keys and values, in any order and number. What the calls come to
can be said without following them one by one. A call is in order or not by what stands before it:
a key has to be a text or a number, and a value needs a key since the last value. The first call
that is not in order decides the failure. If there is none, every value is written under the latest
key before it, and nothing else is written.

The run itself keeps one key at most, and the invariant is what that key has to do with the calls so
far: it is there exactly if the call before was for a key, which is the same as a key since the last
value.

Main statements:

- `addCalls_step`: what one call does;
- `addCalls_cases`: from any point on, the first call that is not in order fails, or every value is
  written;
- `toValue_map`: what a map comes to, for all calls.
-/

namespace SceneScript

namespace MapCall

variable {α : Type}

/-! ## Calls and what stands before them -/

/-- The calls, each with those before it. -/
def withBefore (before : List (MapCall α)) :
    List (MapCall α) → List (List (MapCall α) × MapCall α)
  | [] => []
  | call :: rest => (before, call) :: withBefore (before ++ [call]) rest

def key? : MapCall α → Option α
  | .key k => some k
  | .value _ => none

/-- The value calls, each with all calls before it. -/
def valuesWithBefore (before calls : List (MapCall α)) : List (List (MapCall α) × α) :=
  (withBefore before calls).filterMap fun p =>
    match p.2 with
    | .key _ => none
    | .value v => some (p.1, v)

/-- The keys called for since the last value, the latest first. -/
def keysSinceValue (before : List (MapCall α)) : List (MapCall α) :=
  before.reverse.takeWhile fun call => call.key?.isSome

/-- The key called for last, whether or not it has been used. -/
def latestKey? (before : List (MapCall α)) : Option α := before.reverse.findSome? key?

theorem mem_withBefore {before before' calls : List (MapCall α)} {call : MapCall α} :
    (before', call) ∈ withBefore before calls ↔
      ∃ mid rest, before' = before ++ mid ∧ calls = mid ++ call :: rest := by
  induction calls generalizing before with
  | nil => simp [withBefore]
  | cons first rest ih =>
    rw [withBefore, List.mem_cons, ih]
    constructor
    · rintro (heq | ⟨mid, rest', rfl, rfl⟩)
      · cases heq
        exact ⟨[], rest, by simp, rfl⟩
      · exact ⟨first :: mid, rest', by simp, rfl⟩
    · rintro ⟨mid, rest', rfl, heq⟩
      cases mid with
      | nil =>
        cases heq
        exact .inl (by simp)
      | cons c mid =>
        cases heq
        exact .inr ⟨mid, rest', by simp, rfl⟩

theorem keysSinceValue_key (before : List (MapCall α)) (k : α) :
    keysSinceValue (before ++ [.key k]) ≠ [] := by
  simp [keysSinceValue, key?]

theorem keysSinceValue_value (before : List (MapCall α)) (v : α) :
    keysSinceValue (before ++ [.value v]) = [] := by
  simp [keysSinceValue, key?]

theorem latestKey?_key (before : List (MapCall α)) (k : α) :
    latestKey? (before ++ [.key k]) = some k := by
  rw [latestKey?, List.reverse_concat]
  rfl

end MapCall

theorem TableOf.insertMany_append {α : Type} (t : TableOf α) (l l' : List (Key × α)) :
    t.insertMany (l ++ l') = (t.insertMany l).insertMany l' := by
  simp [insertMany, Entries.insertMany]

/-! ## What is in order -/

/-- Texts are names and numbers are frames; nothing else is a key. -/
inductive Value.IsKey : Value → Key → Prop
  | text (s : String) : IsKey (.text s) (.name s)
  | number (n : Number) : IsKey (.number n) (.frame n)

/-- Whether a datum has a value, and that value is a key. -/
def Datum.MakesKey (d : Datum) (k : Key) : Prop := ∃ v, d.toValue = .ok v ∧ v.IsKey k

namespace MapCall

/-- Why a datum cannot be a key: it has no value, or a value of another kind. -/
def keyOffence? : Except Error Value → Option Error
  | .error e => some e
  | .ok (.text _) => none
  | .ok (.number _) => none
  | .ok other => some (.unsupported (.tableKey other))

/-- Why a datum cannot be a value. -/
def valueOffence? : Except Error Value → Option Error
  | .error e => some e
  | .ok _ => none

/-- What is wrong with a call after those before it. That a key is missing is noticed before the
value is looked at. -/
def offence? (before : List (MapCall Datum)) : MapCall Datum → Option Error
  | .key d => keyOffence? d.toValue
  | .value d =>
    if keysSinceValue before = [] then
      some (.custom "serialize_value called without serialize_key")
    else valueOffence? d.toValue

/-- What is wrong with the first call that is not in order. -/
def firstOffence? (before calls : List (MapCall Datum)) : Option Error :=
  (withBefore before calls).findSome? fun p => offence? p.1 p.2

/-- Whether an entry is what a value call writes: its value under the latest key before it. -/
def Writes (p : List (MapCall Datum) × Datum) (e : Key × Value) : Prop :=
  (∃ d, latestKey? p.1 = some d ∧ d.MakesKey e.1) ∧ p.2.toValue = .ok e.2

theorem keyOffence?_cases (result : Except Error Value) :
    (∃ e, keyOffence? result = some e ∧ result.bind Datum.keyOf = .error e) ∨
      keyOffence? result = none ∧
        ∃ v k, result = .ok v ∧ v.IsKey k ∧ result.bind Datum.keyOf = .ok k := by
  cases result with
  | error e => exact .inl ⟨e, rfl, rfl⟩
  | ok v =>
    cases v with
    | text s => exact .inr ⟨rfl, _, _, rfl, .text s, rfl⟩
    | number n => exact .inr ⟨rfl, _, _, rfl, .number n, rfl⟩
    | _ => exact .inl ⟨_, rfl, rfl⟩

variable {before : List (MapCall Datum)}

theorem offence?_key_eq_none_iff {d : Datum} :
    offence? before (.key d) = none ↔ ∃ k, d.MakesKey k := by
  constructor
  · intro h
    rcases keyOffence?_cases d.toValue with ⟨e, he, -⟩ | ⟨-, v, k, hv, hkey, -⟩
    · cases he.symm.trans h
    · exact ⟨k, v, hv, hkey⟩
  · rintro ⟨k, v, hv, hkey⟩
    show keyOffence? d.toValue = none
    rw [hv]
    cases hkey <;> rfl

theorem offence?_value_eq_none_iff {d : Datum} :
    offence? before (.value d) = none ↔ keysSinceValue before ≠ [] ∧ ∃ v, d.toValue = .ok v := by
  unfold offence?
  by_cases h : keysSinceValue before = []
  · simp [h]
  · cases hd : d.toValue <;> simp [h, hd, valueOffence?]

theorem firstOffence?_eq_none_iff {calls : List (MapCall Datum)} :
    firstOffence? [] calls = none ↔
      (∀ d, .key d ∈ calls → ∃ k, d.MakesKey k) ∧
      (∀ d, .value d ∈ calls → ∃ v, d.toValue = .ok v) ∧
      ∀ before d rest, calls = before ++ .value d :: rest → keysSinceValue before ≠ [] := by
  have hall : firstOffence? [] calls = none ↔
      ∀ before call rest, calls = before ++ call :: rest → offence? before call = none := by
    rw [firstOffence?, List.findSome?_eq_none_iff]
    constructor
    · rintro h before call rest rfl
      exact h _ (mem_withBefore.2 ⟨before, rest, rfl, rfl⟩)
    · rintro h ⟨before, call⟩ hmem
      obtain ⟨_, rest, rfl, hcalls⟩ := mem_withBefore.1 hmem
      exact h _ call rest hcalls
  rw [hall]
  constructor
  · intro h
    refine ⟨fun d hd => ?_, fun d hd => ?_, fun before d rest hcalls => ?_⟩
    · obtain ⟨before, rest, hcalls⟩ := List.append_of_mem hd
      exact offence?_key_eq_none_iff.1 (h before _ rest hcalls)
    · obtain ⟨before, rest, hcalls⟩ := List.append_of_mem hd
      exact (offence?_value_eq_none_iff.1 (h before _ rest hcalls)).2
    · exact (offence?_value_eq_none_iff.1 (h before _ rest hcalls)).1
  · rintro ⟨hkeys, hvalues, hpaired⟩ before call rest hcalls
    have hmem : call ∈ calls := hcalls ▸ List.mem_append_right _ List.mem_cons_self
    cases call with
    | key d => exact offence?_key_eq_none_iff.2 (hkeys d hmem)
    | value d => exact offence?_value_eq_none_iff.2 ⟨hpaired before d rest hcalls, hvalues d hmem⟩

/-! ## The run -/

/-- What is kept of the calls so far: the key that was called for last, if no value has been. -/
inductive Keeps : List (MapCall Datum) → Option Key → Prop
  | nothing {before : List (MapCall Datum)} : keysSinceValue before = [] → Keeps before none
  | key (before : List (MapCall Datum)) {d : Datum} {k : Key} :
      d.MakesKey k → Keeps (before ++ [.key d]) (some k)

variable {call : MapCall Datum} {rest : List (MapCall Datum)}

theorem firstOffence?_of_offence? {e : Error} (h : offence? before call = some e) :
    firstOffence? before (call :: rest) = some e := by
  rw [firstOffence?, withBefore, List.findSome?_cons, h]

theorem firstOffence?_of_inOrder (h : offence? before call = none) :
    firstOffence? before (call :: rest) = firstOffence? (before ++ [call]) rest := by
  rw [firstOffence?, withBefore, List.findSome?_cons, h, firstOffence?]

theorem valuesWithBefore_cons :
    valuesWithBefore before (call :: rest) =
      valuesWithBefore before [call] ++ valuesWithBefore (before ++ [call]) rest := by
  cases call <;> rfl

/-- **One call** fails if it is not in order. Otherwise it is kept if it is for a key, and written
under the key that is kept if it is for a value. -/
theorem addCalls_step (call : MapCall Datum) {pending : Option Key} (h : Keeps before pending)
    (t : Table) :
    (∃ e, offence? before call = some e ∧
      ∀ rest, Datum.addCalls t pending (call :: rest) = .error e) ∨
    offence? before call = none ∧ ∃ pending' entries, Keeps (before ++ [call]) pending' ∧
      List.Forall₂ Writes (valuesWithBefore before [call]) entries ∧
      ∀ rest, Datum.addCalls t pending (call :: rest) =
        Datum.addCalls (t.insertMany entries) pending' rest := by
  cases call with
  | key d =>
    have hrun : ∀ rest, Datum.addCalls t pending (.key d :: rest) =
        (d.toValue.bind Datum.keyOf).bind fun k => Datum.addCalls t (some k) rest := by
      intro rest
      show (d.toValue.bind fun v => (Datum.keyOf v).bind _) = _
      cases d.toValue <;> rfl
    rcases keyOffence?_cases d.toValue with ⟨e, he, hfails⟩ | ⟨hnone, v, k, hv, hkey, hmade⟩
    · rw [hfails] at hrun
      exact .inl ⟨e, he, hrun⟩
    · rw [hmade] at hrun
      exact .inr ⟨hnone, some k, [], .key before ⟨v, hv, hkey⟩, .nil, hrun⟩
  | value d =>
    cases h with
    | nothing hnone => exact .inl ⟨_, if_pos hnone, fun _ => rfl⟩
    | @key before d' k hkey =>
      have hoffence : offence? (before ++ [.key d']) (.value d) = valueOffence? d.toValue :=
        if_neg (keysSinceValue_key before d')
      have hrun : ∀ rest, Datum.addCalls t (some k) (.value d :: rest) =
          d.toValue.bind fun v => Datum.addCalls (t.insert k v) none rest := fun _ => rfl
      cases hd : d.toValue with
      | error e =>
        rw [hd] at hoffence hrun
        exact .inl ⟨e, hoffence, hrun⟩
      | ok v =>
        rw [hd] at hoffence hrun
        have hwrites : Writes (before ++ [.key d'], d) (k, v) :=
          ⟨⟨d', latestKey?_key before d', hkey⟩, hd⟩
        exact .inr ⟨hoffence, none, [(k, v)], .nothing (keysSinceValue_value _ d),
          .cons hwrites .nil, hrun⟩

/-- **From any point on**, the first call that is not in order fails, or every value is written. -/
theorem addCalls_cases (calls : List (MapCall Datum)) {pending : Option Key}
    (h : Keeps before pending) (t : Table) :
    (∃ e, firstOffence? before calls = some e ∧ Datum.addCalls t pending calls = .error e) ∨
    firstOffence? before calls = none ∧
      ∃ entries, List.Forall₂ Writes (valuesWithBefore before calls) entries ∧
        Datum.addCalls t pending calls = .ok (t.insertMany entries) := by
  induction calls generalizing before pending t with
  | nil => exact .inr ⟨rfl, [], .nil, rfl⟩
  | cons call rest ih =>
    rcases addCalls_step call h t with
      ⟨e, hoffence, hrun⟩ | ⟨hinOrder, pending', entries, hkeeps, hwrites, hrun⟩
    · exact .inl ⟨e, firstOffence?_of_offence? hoffence, hrun rest⟩
    · rw [firstOffence?_of_inOrder hinOrder, hrun, valuesWithBefore_cons]
      refine (ih hkeeps (t.insertMany entries)).imp_right ?_
      rintro ⟨hnone, entries', hwrites', hentries'⟩
      refine ⟨hnone, entries ++ entries', List.rel_append hwrites hwrites', ?_⟩
      rw [hentries', TableOf.insertMany_append]

/-- **What a map comes to.** For all calls for keys and values: there is a value exactly if every
key is a text or a number, every value converts, and no value lacks a key since the value before.
It is the unnamed table, without flags, into which each value is inserted under the latest key
before it. Otherwise the error is that of the first call that is not in order. -/
theorem toValue_map (calls : List (MapCall Datum)) :
    ((∃ v, (Datum.map calls).toValue = .ok v) ↔
      (∀ d, .key d ∈ calls → ∃ k, d.MakesKey k) ∧
      (∀ d, .value d ∈ calls → ∃ v, d.toValue = .ok v) ∧
      ∀ before d rest, calls = before ++ .value d :: rest → keysSinceValue before ≠ []) ∧
    (∀ v, (Datum.map calls).toValue = .ok v →
      ∃ entries, List.Forall₂ Writes (valuesWithBefore [] calls) entries ∧
        v = .table { name := "", entries := .ofList entries, forceIndent := false,
                     forceUnindent := false, ordered := false }) ∧
    ∀ e, (Datum.map calls).toValue = .error e ↔ firstOffence? [] calls = some e := by
  have hmap : (Datum.map calls).toValue = (Datum.addCalls ∅ none calls).map .table := rfl
  rw [← firstOffence?_eq_none_iff, hmap]
  have hfresh : Keeps [] none := .nothing rfl
  rcases addCalls_cases calls hfresh ∅ with
    ⟨e, hfirst, hrun⟩ | ⟨hfirst, entries, hwrites, hrun⟩
  · rw [hfirst, hrun]
    refine ⟨⟨nofun, nofun⟩, nofun, fun e' => ?_⟩
    exact ⟨fun h => congrArg some (Except.error.inj h),
      fun h => congrArg Except.error (Option.some.inj h)⟩
  · rw [hfirst, hrun]
    refine ⟨⟨fun _ => rfl, fun _ => ⟨_, rfl⟩⟩, ?_, fun _ => ⟨nofun, nofun⟩⟩
    rintro v ⟨⟩
    exact ⟨entries, hwrites, rfl⟩

/-- Calls with a key that no value follows at once, a frame that is called for again in another
spelling, and a key at the end without a value. -/
def overwritingCalls : List (MapCall Datum) :=
  [.key (.text "A"), .key (.integer (.int8 24)), .value (.bool true),
    .key (.double (.ofInt 24)), .value (.bool false), .key (.text "B")]

theorem toValue_map_overwritingCalls :
    (Datum.map overwritingCalls).toValue =
      .ok (.table { name := "", entries := ⟨[(.frame 24, .bool false)]⟩, forceIndent := false,
                    forceUnindent := false, ordered := false }) ∧
    (∀ d, .key d ∈ overwritingCalls → ∃ k, d.MakesKey k) ∧
    (Datum.map (overwritingCalls ++ [.value .unit, .value .unit])).toValue =
      .error (.custom "serialize_value called without serialize_key") := by
  have hint : (MachineInt.int8 24).toNumber = 24 := by decide +kernel
  have hsame : (Key.frame (.float (.ofInt 24)) == Key.frame 24) = true := by decide +kernel
  have hwritten : Entries.insertList (.frame (.float (.ofInt 24))) (.bool false)
      [(.frame 24, .bool true)] = [(Key.frame 24, Value.bool false)] := if_pos hsame
  have hvalue : (Datum.map overwritingCalls).toValue =
      .ok (.table { entries := ⟨[(.frame 24, .bool false)]⟩ }) := by
    simp only [overwritingCalls, Datum.toValue, Datum.addCalls, hint]
    rw [← hwritten]
    rfl
  obtain ⟨hiff, -, -⟩ := toValue_map overwritingCalls
  obtain ⟨hkeys, -, -⟩ := hiff.1 ⟨_, hvalue⟩
  obtain ⟨-, -, herror⟩ := toValue_map (overwritingCalls ++ [.value .unit, .value .unit])
  exact ⟨hvalue, hkeys, (herror _).2 rfl⟩

end MapCall

end SceneScript
