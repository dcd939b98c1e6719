import SceneScript.Composition.Scene
import SceneScript.Proofs.ValueTree

/-!
# What can be written

A tree has a text unless something in it cannot be spelled: a number that is not finite, be it a
value, a member of a tuple or the frame of a key, or a member of a tuple that is no scalar. The
checks for this are spread over the writers. Keys and scalars check numbers, tuples check their
members, and a bare value checks that it is something at all; an entry that holds nothing is skipped
before any of them looks, so it hides its own key.

What the writers leave behind are faults, so the question is which faults stand among the pieces of
a tree. Each writer has one answer (`fault_mem_ofKey`, `fault_mem_ofScalar`, `fault_mem_ofTuple`,
`fault_mem_sequence`, `TableOf.fault_mem_pieces`), and the rest is an induction over the tree.

Main statements:

- `Value.fault_free_iff`: a value is written without a fault exactly if it is spellable and all
  tables that it reaches are spelled;
- `Value.cause_of_fault`: a fault is about a number that is not finite or a member that is no
  scalar, but for the value that is nothing;
- `exists_render_iff_spelled`: tables and values have a text exactly under that condition.
-/

namespace SceneScript

/-! ## Spelling
-/

/-- Whether a key has a text: the number of a frame has to be finite. -/
def Key.isSpellable : Key → Bool
  | .frame n => n.isFinite
  | _ => true

/-- Whether a value has a text as a member of a tuple. -/
def Value.isMember : Value → Bool
  | .bool _ | .text _ | .fuId _ => true
  | .number n => n.isFinite
  | _ => false

mutual

/-- Whether a value has a text, the tables inside it aside. -/
def Value.isSpellable : Value → Bool
  | .null => false
  | .number n => n.isFinite
  | .tuple items => items.all Value.isMember
  | .sequence items => Value.allSpellable items
  | _ => true
termination_by structural v => v

/-- Whether all items that hold something are spellable. -/
def Value.allSpellable : List Value → Bool
  | [] => true
  | v :: rest => (v.isNull || v.isSpellable) && Value.allSpellable rest
termination_by structural l => l

end

theorem Value.isSpellable_sequence {items : List Value} :
    (Value.sequence items).isSpellable = true ↔
      ∀ v ∈ items, v.isNull = false → v.isSpellable = true := by
  show Value.allSpellable items = true ↔ _
  induction items with
  | nil => simp [Value.allSpellable]
  | cons v rest ih => cases h : v.isNull <;> simp [Value.allSpellable, h, ih]

/-- The tables that a value reaches through entries and items: it may be one itself. Tuples and what
holds nothing reach none. -/
inductive Value.Reaches : Value → Table → Prop
  | self (t : Table) : Reaches (.table t) t
  | entry {t u : Table} {e : Key × Value} (he : e ∈ t.entries.toList) (h : Reaches e.2 u) :
    Reaches (.table t) u
  | item {items : List Value} {v : Value} {u : Table} (hv : v ∈ items) (h : Reaches v u) :
    Reaches (.sequence items) u

/-- Whether each entry of a table that holds something has a key and a value that are spellable. -/
def TableOf.Spelled (t : TableOf Value) : Prop :=
  ∀ e ∈ t.entries.toList, e.2.isNull = false →
    e.1.isSpellable = true ∧ e.2.isSpellable = true

/-- What makes a tree unspellable: a number that is not finite, or a member of a tuple that is no
scalar. -/
inductive Unsupported.OfTree : Unsupported → Prop
  | notFinite {n : Number} (h : n.isFinite = false) : OfTree (.notFinite n)
  | tupleMember {v : Value} (h : v.isScalar = false) : OfTree (.tupleMember v)

/-! ## The faults of each writer -/

namespace Piece

theorem fault_not_mem_inBlock {c : Unsupported} {block : Bool} {p : Piece} (hp : p.fault? = none) :
    .fault c ∉ inBlock block p := by
  intro h
  cases block with
  | false => cases h
  | true =>
    obtain rfl := List.mem_singleton.1 h
    cases hp

theorem fault_mem_ofNumber {c : Unsupported} {n : Number} :
    .fault c = ofNumber n ↔ n.isFinite = false ∧ c = .notFinite n := by
  unfold ofNumber
  cases n.isFinite <;> simp

theorem fault_mem_ofKey {c : Unsupported} {k : Key} :
    .fault c ∈ ofKey k ↔ ∃ n, k = .frame n ∧ n.isFinite = false ∧ c = .notFinite n := by
  cases k with
  | frame n => cases h : n.isFinite <;> simp [ofKey, h]
  | _ => simp [ofKey]

theorem fault_mem_ofScalar {c : Unsupported} {v : Value} :
    .fault c ∈ ofScalar v ↔
      (v.isScalar = false ∧ c = .tupleMember v) ∨
        ∃ n, v = .number n ∧ n.isFinite = false ∧ c = .notFinite n := by
  cases v with
  | number n => simp [ofScalar, Value.isScalar, fault_mem_ofNumber]
  | _ => simp [ofScalar, Value.isScalar]

theorem fault_mem_ofTuple {c : Unsupported} {items : List Value} :
    .fault c ∈ ofTuple items ↔ ∃ v ∈ items, .fault c ∈ ofScalar v := by
  cases items with
  | nil => simp [ofTuple]
  | cons first rest => simp [ofTuple, List.mem_flatMap]

theorem fault_mem_entry {c : Unsupported} {level : Nat} {block : Bool} {k : Key}
    {value : List Piece} :
    .fault c ∈ entry level block k value ↔ .fault c ∈ ofKey k ∨ .fault c ∈ value := by
  have htabs : .fault c ∉ inBlock block (.tabs level) := fault_not_mem_inBlock rfl
  have hbreak : .fault c ∉ inBlock block .newline := fault_not_mem_inBlock rfl
  simp [entry, htabs, hbreak]

end Piece

open Piece

theorem Value.fault_mem_sequence {c : Unsupported} {items : List Value} {level : Nat} :
    .fault c ∈ (Value.sequence items).pieces level ↔
      ∃ v ∈ items, v.isNull = false ∧ .fault c ∈ v.pieces (level + 1) := by
  show .fault c ∈ .text "[" :: .newline :: itemPieces (level + 1) items ++ _ ↔ _
  rw [itemPieces_eq]
  simp [and_assoc]

theorem TableOf.fault_mem_pieces {c : Unsupported} {t : TableOf Value} {level : Nat} :
    .fault c ∈ t.pieces level ↔
      ∃ e ∈ t.entries.toList, e.2.isNull = false ∧
        (.fault c ∈ ofKey e.1 ∨ .fault c ∈ e.2.pieces level) := by
  have hopening : .fault c ∉ opening t.name t.mustIndent := by
    have hbreak : .fault c ∉ inBlock t.mustIndent .newline := fault_not_mem_inBlock rfl
    unfold opening
    split <;> simp [hbreak]
  have hclosing : .fault c ∉ closing level t.mustIndent := by
    have htabs : .fault c ∉ inBlock t.mustIndent (.tabs (level - 1)) := fault_not_mem_inBlock rfl
    simp [closing, htabs]
  rw [pieces_eq]
  simp only [List.mem_append, List.mem_cons, reduceCtorEq, hopening, hclosing, List.mem_flatMap,
    mem_written, fault_mem_entry, false_or, or_false, and_assoc]

/-! ## Trees -/

/-- A key is written without a fault exactly if it is spellable. -/
theorem Key.isSpellable_iff {k : Key} : k.isSpellable = true ↔ ∀ c, .fault c ∉ ofKey k := by
  simp only [fault_mem_ofKey]
  cases k with
  | frame n => cases h : n.isFinite <;> simp [isSpellable, h]
  | _ => simp [isSpellable]

/-- A scalar is written without a fault exactly if it may be a member of a tuple. -/
theorem Value.isMember_iff {v : Value} : v.isMember = true ↔ ∀ c, .fault c ∉ ofScalar v := by
  simp only [fault_mem_ofScalar]
  cases v with
  | number n => cases h : n.isFinite <;> simp [isMember, isScalar, h]
  | _ => simp [isMember, isScalar]

theorem Value.Reaches.isNull_eq_false {v : Value} {u : Table} (h : v.Reaches u) :
    v.isNull = false := by
  cases h <;> rfl

/-- A table is written without a fault if all tables that it reaches are spelled, and only then,
provided that its values are. -/
theorem TableOf.fault_free_iff_of_forall {t : TableOf Value} {level : Nat}
    (h : ∀ e ∈ t.entries.toList, (∀ c, .fault c ∉ e.2.pieces level) ↔
      e.2.isSpellable = true ∧ ∀ u, e.2.Reaches u → u.Spelled) :
    (∀ c, .fault c ∉ t.pieces level) ↔ ∀ u, (Value.table t).Reaches u → u.Spelled := by
  constructor
  · intro hfree u hu
    have hentry : ∀ e ∈ t.entries.toList, e.2.isNull = false →
        e.1.isSpellable = true ∧ e.2.isSpellable = true ∧ ∀ u, e.2.Reaches u → u.Spelled := by
      intro e he hn
      refine ⟨Key.isSpellable_iff.2 ?_, (h e he).1 ?_⟩
      · exact fun c hc => hfree c (fault_mem_pieces.2 ⟨e, he, hn, .inl hc⟩)
      · exact fun c hc => hfree c (fault_mem_pieces.2 ⟨e, he, hn, .inr hc⟩)
    cases hu with
    | self =>
      intro e he hn
      obtain ⟨hkey, hvalue, -⟩ := hentry e he hn
      exact ⟨hkey, hvalue⟩
    | entry he hu => exact (hentry _ he hu.isNull_eq_false).2.2 u hu
  · intro hall c hc
    obtain ⟨e, he, hn, hfault⟩ := fault_mem_pieces.1 hc
    obtain ⟨hkey, hvalue⟩ := hall t (.self t) e he hn
    rcases hfault with hfault | hfault
    · exact Key.isSpellable_iff.1 hkey c hfault
    · exact (h e he).2 ⟨hvalue, fun u hu => hall u (.entry he hu)⟩ c hfault

/-- **Faults are what cannot be spelled**: a value is written without a fault, at any level, exactly
if it is spellable and all tables that it reaches are spelled. -/
theorem Value.fault_free_iff (v : Value) (level : Nat) :
    (∀ c, .fault c ∉ v.pieces level) ↔
      v.isSpellable = true ∧ ∀ u, v.Reaches u → u.Spelled := by
  induction v generalizing level with
  | null =>
    refine iff_of_false (fun hfree => hfree .null List.mem_cons_self) ?_
    rintro ⟨h, -⟩
    cases h
  | bool b => exact iff_of_true (by simp [pieces, ofScalar]) ⟨rfl, fun _ hu => nomatch hu⟩
  | text s => exact iff_of_true (by simp [pieces, ofScalar]) ⟨rfl, fun _ hu => nomatch hu⟩
  | fuId s => exact iff_of_true (by simp [pieces, ofScalar]) ⟨rfl, fun _ hu => nomatch hu⟩
  | number n =>
    show (∀ c, .fault c ∉ ofScalar (.number n)) ↔ _
    rw [← isMember_iff]
    exact ⟨fun h => ⟨h, fun _ hu => nomatch hu⟩, fun h => h.1⟩
  | tuple items _ =>
    show (∀ c, .fault c ∉ ofTuple items) ↔ items.all isMember = true ∧ _
    simp only [fault_mem_ofTuple, List.all_eq_true, isMember_iff]
    constructor
    · intro hfree
      exact ⟨fun v hv c hc => hfree c ⟨v, hv, hc⟩, fun _ hu => nomatch hu⟩
    · rintro ⟨hmembers, -⟩ c ⟨v, hv, hc⟩
      exact hmembers v hv c hc
  | sequence items ih =>
    simp only [fault_mem_sequence, isSpellable_sequence]
    constructor
    · intro hfree
      have hitem : ∀ v ∈ items, v.isNull = false →
          v.isSpellable = true ∧ ∀ u, v.Reaches u → u.Spelled := by
        intro v hv hn
        exact (ih v hv (level + 1)).1 fun c hc => hfree c ⟨v, hv, hn, hc⟩
      refine ⟨fun v hv hn => (hitem v hv hn).1, ?_⟩
      intro u hu
      cases hu with
      | item hv hu => exact (hitem _ hv hu.isNull_eq_false).2 u hu
    · rintro ⟨hspellable, hall⟩ c ⟨v, hv, hn, hc⟩
      exact (ih v hv (level + 1)).2
        ⟨hspellable v hv hn, fun u hu => hall u (.item hv hu)⟩ c hc
  | table t ih =>
    show (∀ c, .fault c ∉ t.pieces (level + 1)) ↔ _
    rw [TableOf.fault_free_iff_of_forall fun e he => ih e he (level + 1)]
    exact ⟨fun h => ⟨rfl, h⟩, fun h => h.2⟩

theorem Piece.cause_of_fault_ofScalar {c : Unsupported} {v : Value} (h : .fault c ∈ ofScalar v) :
    c.OfTree := by
  rcases fault_mem_ofScalar.1 h with ⟨hscalar, rfl⟩ | ⟨n, -, hinfinite, rfl⟩
  · exact .tupleMember hscalar
  · exact .notFinite hinfinite

/-- What a fault is about. Nothing is a fault of its own only where it stands bare, since entries
and items that hold nothing are skipped. -/
theorem Value.cause_of_fault {v : Value} {level : Nat} {c : Unsupported}
    (h : .fault c ∈ v.pieces level) : c.OfTree ∨ v = .null ∧ c = .null := by
  induction v generalizing level with
  | null =>
    cases List.mem_singleton.1 h
    exact .inr ⟨rfl, rfl⟩
  | bool b => exact .inl (cause_of_fault_ofScalar (v := .bool b) h)
  | number n => exact .inl (cause_of_fault_ofScalar (v := .number n) h)
  | text s => exact .inl (cause_of_fault_ofScalar (v := .text s) h)
  | fuId s => exact .inl (cause_of_fault_ofScalar (v := .fuId s) h)
  | tuple items _ =>
    obtain ⟨v, -, hv⟩ := fault_mem_ofTuple.1 h
    exact .inl (cause_of_fault_ofScalar hv)
  | sequence items ih =>
    obtain ⟨v, hv, hn, hfault⟩ := fault_mem_sequence.1 h
    rcases ih v hv hfault with hcause | ⟨rfl, -⟩
    · exact .inl hcause
    · cases hn
  | table t ih =>
    obtain ⟨e, he, hn, hfault | hfault⟩ := TableOf.fault_mem_pieces.1 h
    · obtain ⟨n, -, hinfinite, rfl⟩ := fault_mem_ofKey.1 hfault
      exact .inl (.notFinite hinfinite)
    · rcases ih e he hfault with hcause | ⟨hnull, -⟩
      · exact .inl hcause
      · rw [hnull] at hn
        cases hn

/-! ## Texts -/

/-- Pieces have a text if there is no fault among them; otherwise one of the faults is the
answer. -/
theorem Piece.assemble_cases (ps : List Piece) :
    ((∀ c, .fault c ∉ ps) ∧ ∃ s, assemble ps = .ok s) ∨
      ∃ c, .fault c ∈ ps ∧ assemble ps = .error c := by
  unfold assemble
  cases h : ps.findSome? fault? with
  | some c =>
    obtain ⟨p, hp, hc⟩ := List.exists_of_findSome?_eq_some h
    obtain rfl : p = .fault c := by cases p <;> cases hc; rfl
    exact .inr ⟨c, hp, rfl⟩
  | none =>
    refine .inl ⟨fun c hc => ?_, _, rfl⟩
    cases List.findSome?_eq_none_iff.1 h _ hc

/-- A value has a text at a level exactly if no fault stands among its pieces there. -/
theorem Value.exists_assemble_iff (v : Value) (level : Nat) :
    ((∃ s, assemble (v.pieces level) = .ok s) ↔
      v.isSpellable = true ∧ ∀ u, v.Reaches u → u.Spelled) ∧
    ((¬ (v.isSpellable = true ∧ ∀ u, v.Reaches u → u.Spelled)) →
      ∃ c, assemble (v.pieces level) = .error c ∧ (c.OfTree ∨ v = .null ∧ c = .null)) := by
  rw [← v.fault_free_iff level]
  rcases assemble_cases (v.pieces level) with ⟨hfree, s, hs⟩ | ⟨c, hc, hcause⟩
  · exact ⟨iff_of_true ⟨s, hs⟩ hfree, fun hfault => absurd hfree hfault⟩
  · have hfault : ¬ ∀ c, .fault c ∉ v.pieces level := fun hfree => hfree c hc
    refine ⟨iff_of_false ?_ hfault, fun _ => ⟨c, hcause, cause_of_fault hc⟩⟩
    rintro ⟨s, hs⟩
    rw [hs] at hcause
    cases hcause

/-- **What can be written**: a table has a text exactly if every table that it reaches is spelled,
and a value exactly if it is spellable and every table that it reaches is spelled. Otherwise the
answer is an unsupported value, namely a number that is not finite or a member of a tuple that is no
scalar, or the value itself if it is nothing. -/
theorem exists_render_iff_spelled (t : Table) (v : Value) :
    (((∃ s, t.write.value = .ok s) ↔ ∀ u, (Value.table t).Reaches u → u.Spelled) ∧
      ((¬ ∀ u, (Value.table t).Reaches u → u.Spelled) →
        ∃ c, t.write.value = .error (.unsupported c) ∧ c.OfTree)) ∧
    ((∃ s, v.render = .ok s) ↔ v.isSpellable = true ∧ ∀ u, v.Reaches u → u.Spelled) ∧
      ((¬ (v.isSpellable = true ∧ ∀ u, v.Reaches u → u.Spelled)) →
        ∃ c, v.render = .error c ∧ (c.OfTree ∨ v = .null ∧ c = .null)) := by
  refine ⟨?_, v.exists_assemble_iff 1⟩
  -- a table at the first level is a value at the level before it
  have hrender : t.render = assemble ((Value.table t).pieces 0) := rfl
  have hwrite : t.write.value = t.render.mapError .unsupported := rfl
  obtain ⟨hok, herror⟩ := (Value.table t).exists_assemble_iff 0
  have htable : (Value.table t).isSpellable = true := rfl
  simp only [htable, true_and, ← hrender] at hok herror
  constructor
  · rw [← hok, hwrite]
    cases t.render with
    | ok s => exact iff_of_true ⟨s, rfl⟩ ⟨s, rfl⟩
    | error c => exact iff_of_false (fun ⟨_, h⟩ => nomatch h) (fun ⟨_, h⟩ => nomatch h)
  · intro hall
    obtain ⟨c, hc, hcause | ⟨hnull, -⟩⟩ := herror hall
    · exact ⟨c, by rw [hwrite, hc]; rfl, hcause⟩
    · cases hnull

/-- An entry that holds nothing hides a frame that is no number. -/
example : ∃ s, ({ entries := ⟨[(.frame (.float .nan), .null)]⟩ } : Table).write.value = .ok s :=
  ⟨_, rfl⟩

end SceneScript
