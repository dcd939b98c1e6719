import Mathlib.Data.List.Induction
import Mathlib.Data.List.Infix
import SceneScript.Composition.Scene
import SceneScript.Proofs.SceneText
import SceneScript.Proofs.TreeAddresses

/-!
# The trace is a walk through the tree

Writing a tree leaves a record of each table that is begun, in front of the text of the table. A
value is written as a head, the values inside with something around each of them, and a foot. Of all
this only the head of a table begins one. So what is written in front of a table is known from its
address, and the records come in the order of addresses, in which the opening braces stand in the
text, too. A fault ends the trace and does nothing else to it.

Main statements:

- `Piece.trace_eq_filter`: a visit is traced exactly if no fault is in front of it;
- `Value.pieces_at?`: behind what is written in front of an address stands the value there;
- `Value.visits_pieces`: the visits among the pieces of a tree are its tables;
- `TableOf.pairwise_textBefore`: their opening braces stand one behind the other;
- `TableOf.trace_walks_tree`: the trace of a tree that has a text, and of one that has none.
-/

namespace SceneScript

/-! ## Visits among pieces -/

namespace Piece

/-- Visits and the pieces in front of them, once further pieces are put in front. -/
def behind (ps : List Piece) (visits : List (List Piece × Visit)) : List (List Piece × Visit) :=
  visits.map fun e => (ps ++ e.1, e.2)

/-- The visits in a list of pieces, each with the pieces in front of it. -/
def visits : List Piece → List (List Piece × Visit)
  | [] => []
  | p :: rest => p.visit?.toList.map (([], ·)) ++ behind [p] (visits rest)

theorem eq_visit_of_visit? {p : Piece} {v : Visit} (h : p.visit? = some v) : p = .visit v := by
  cases p <;> cases h
  rfl

theorem visits_append (ps qs : List Piece) :
    visits (ps ++ qs) = visits ps ++ behind ps (visits qs) := by
  induction ps with
  | nil => simp [visits, behind]
  | cons p rest ih => simp [visits, behind, ih, Function.comp_def]

/-- The visits of several things: those of each stand behind all the things before it. -/
theorem visits_flatMap {α : Type} (f : α → List Piece) (l : List α) :
    visits (l.flatMap f) =
      l.zipIdx.flatMap (fun e => behind ((l.take e.2).flatMap f) (visits (f e.1))) := by
  -- at the end of the list, since what is in front of a thing does not depend on what follows
  induction l using List.reverseRecOn with
  | nil => rfl
  | append_singleton l a ih =>
    have hfront : l.zipIdx.flatMap (fun e => behind ((l.take e.2).flatMap f) (visits (f e.1))) =
        l.zipIdx.flatMap (fun e => behind (((l ++ [a]).take e.2).flatMap f) (visits (f e.1))) := by
      refine List.flatMap_congr fun e he => ?_
      rw [List.take_append_of_le_length (Nat.le_of_lt (List.snd_lt_of_mem_zipIdx he))]
    rw [List.flatMap_append, visits_append, ih, hfront, List.zipIdx_append, List.flatMap_append]
    simp

theorem map_snd_visits (ps : List Piece) : (visits ps).map Prod.snd = ps.filterMap visit? := by
  induction ps with
  | nil => rfl
  | cons p rest ih => cases hv : p.visit? <;> simp [visits, behind, hv, ← ih, Function.comp_def]

theorem trace_prefix (ps : List Piece) : trace ps <+: ps.filterMap visit? :=
  (List.takeWhile_prefix _).filterMap visit?

/-- A visit is traced exactly if no fault stands in front of it. -/
theorem trace_eq_filter (ps : List Piece) :
    trace ps = ((visits ps).filter (fun e => e.1.all (·.fault?.isNone))).map Prod.snd := by
  induction ps with
  | nil => rfl
  | cons p rest ih =>
    cases hp : p.fault? with
    | some c =>
      have hvisit : p.visit? = none := by cases p <;> first | rfl | cases hp
      simp [trace, visits, behind, hp, hvisit, Function.comp_def, List.filter_map]
    | none =>
      simp only [trace] at ih
      cases hv : p.visit? <;>
        simp [trace, visits, behind, hp, hv, ih, Function.comp_def, List.filter_map,
          List.filter_cons]

theorem visits_prefix {ps : List Piece} {e : List Piece × Visit} (h : e ∈ visits ps) :
    e.1 ++ [.visit e.2] <+: ps := by
  induction ps generalizing e with
  | nil => cases h
  | cons p rest ih =>
    rcases List.mem_append.1 h with h | h
    · obtain ⟨v, hv, rfl⟩ := List.mem_map.1 h
      rw [eq_visit_of_visit? (Option.mem_toList.1 hv)]
      exact List.prefix_append _ _
    · obtain ⟨e, he, rfl⟩ := List.mem_map.1 h
      exact (List.prefix_cons_inj p).2 (ih he)

/-- All earlier visits are among the pieces in front of a visit. -/
theorem pairwise_visits (ps : List Piece) :
    (visits ps).Pairwise (fun a b => a.1 ++ [.visit a.2] <+: b.1) := by
  induction ps with
  | nil => exact .nil
  | cons p rest ih =>
    have hbehind : (behind [p] (visits rest)).Pairwise
        (fun a b => a.1 ++ [.visit a.2] <+: b.1) := by
      refine List.pairwise_map.2 (ih.imp fun h => ?_)
      exact (List.prefix_cons_inj p).2 h
    cases hv : p.visit? with
    | none => simpa [visits, hv] using hbehind
    | some v =>
      rw [visits, hv]
      refine List.pairwise_cons.2 ⟨fun e he => ?_, hbehind⟩
      obtain ⟨e, -, rfl⟩ := List.mem_map.1 he
      rw [eq_visit_of_visit? hv]
      exact List.prefix_append _ _

/-! ## Pieces without visits -/

/-- No table is begun in the pieces. -/
def Silent (ps : List Piece) : Prop := ∀ p ∈ ps, p.visit? = none

theorem Silent.visits_eq_nil {ps : List Piece} (h : Silent ps) : visits ps = [] := by
  induction ps with
  | nil => rfl
  | cons p rest ih =>
    obtain ⟨hp, hrest⟩ := List.forall_mem_cons.1 h
    rw [visits, hp, ih hrest]
    rfl

theorem silent_nil : Silent [] := List.forall_mem_nil _

theorem silent_cons {p : Piece} {ps : List Piece} :
    Silent (p :: ps) ↔ p.visit? = none ∧ Silent ps :=
  List.forall_mem_cons

theorem silent_append {ps qs : List Piece} : Silent (ps ++ qs) ↔ Silent ps ∧ Silent qs :=
  List.forall_mem_append

theorem silent_inBlock (block : Bool) {p : Piece} (hp : p.visit? = none) :
    Silent (inBlock block p) := by
  cases block <;> simp [Silent, inBlock, hp]

theorem silent_ofKey (k : Key) : Silent (ofKey k) := by
  cases k with
  | frame n => cases h : n.isFinite <;> simp [Silent, ofKey, visit?, h]
  | _ => simp [Silent, ofKey, visit?]

theorem silent_ofScalar (v : Value) : Silent (ofScalar v) := by
  cases v with
  | number n => cases h : n.isFinite <;> simp [Silent, ofScalar, ofNumber, visit?, h]
  | _ => simp [Silent, ofScalar, visit?]

theorem silent_ofTuple (items : List Value) : Silent (ofTuple items) := by
  cases items with
  | nil => simp [Silent, ofTuple, visit?]
  | cons first rest =>
    have hrest : Silent (rest.flatMap fun v => .text ", " :: ofScalar v) := by
      intro p hp
      obtain ⟨v, -, hp⟩ := List.mem_flatMap.1 hp
      exact silent_cons.2 ⟨rfl, silent_ofScalar v⟩ p hp
    have hfirst := silent_ofScalar first
    simp only [ofTuple, silent_append, silent_cons]
    exact ⟨⟨⟨rfl, hfirst⟩, hrest⟩, rfl, silent_nil⟩

theorem silent_opening (name : String) (block : Bool) : Silent (opening name block) := by
  unfold opening
  cases block <;> split <;> simp [Silent, inBlock, visit?]

theorem silent_closing (level : Nat) (block : Bool) : Silent (closing level block) := by
  cases block <;> simp [Silent, closing, inBlock, visit?]

/-- What is written directly behind a visit, and has no visit in it, stands in front of each later
one. -/
theorem prefix_of_visit {ps front next later : List Piece} {a b : Visit} (hnext : Silent next)
    (ha : front ++ .visit a :: next <+: ps) (hb : later ++ [.visit b] <+: ps)
    (h : front ++ [.visit a] <+: later) : front ++ .visit a :: next <+: later := by
  obtain ⟨inner, rfl⟩ := h
  obtain ⟨rest, rfl⟩ := ha
  simp only [List.append_assoc, List.prefix_append_right_inj, List.cons_append, List.nil_append,
    List.prefix_cons_inj] at hb ⊢
  have hlast : .visit b ∈ inner ++ [.visit b] := List.mem_append_right _ List.mem_cons_self
  -- otherwise `next` would reach as far as the later visit and hold it
  rcases List.prefix_or_prefix_of_prefix hb (List.prefix_append next rest) with hle | hle
  · cases hnext _ (hle.subset hlast)
  · rcases List.prefix_concat_iff.1 hle with rfl | hle
    · cases hnext _ hlast
    · exact hle

end Piece

/-! ## Visits of tables -/

namespace Occurrence

/-- The visit of a table of a tree, where the level is that of the tree as a table. -/
def visit (level : Nat) (o : Occurrence) : Visit :=
  ⟨o.table.name, level + o.address.length, o.table.mustIndent⟩

theorem visit_under (level i : Nat) (o : Occurrence) :
    (o.under i).visit level = o.visit (level + 1) := by
  simp only [visit, under, List.length_cons, Visit.mk.injEq, true_and, and_true]
  omega

end Occurrence

/-! ## Heads, slots and feet -/

/-- A value inside another one, with what is written around it. -/
structure Slot where
  lead : List Piece
  value : Value
  trail : List Piece

def Slot.pieces (level : Nat) (s : Slot) : List Piece := s.lead ++ s.value.pieces level ++ s.trail

namespace Value

open Piece (Silent)

/-- What is written of a value in front of the values inside; all of it, if there can be none. -/
def head (level : Nat) : Value → List Piece
  | .table t => .visit ⟨t.name, level + 1, t.mustIndent⟩ :: Piece.opening t.name t.mustIndent
  | .sequence _ => [.text "[", .newline]
  | v => v.pieces level

/-- The values inside a value at a level, with what is written around each of them. -/
def slots (level : Nat) : Value → List Slot
  | .table t => t.written.map fun e =>
    ⟨Piece.inBlock t.mustIndent (.tabs (level + 1)) ++ Piece.ofKey e.1, e.2,
      .text ", " :: Piece.inBlock t.mustIndent .newline⟩
  | .sequence items => (items.filter (!·.isNull)).map fun v =>
    ⟨[.tabs (level + 1)], v, [.text ",", .newline]⟩
  | _ => []

/-- What is written of a value behind the values inside. -/
def foot (level : Nat) : Value → List Piece
  | .table t => Piece.closing (level + 1) t.mustIndent
  | .sequence _ => [.tabs level, .text "]"]
  | _ => []

theorem map_value_slots (level : Nat) (v : Value) : (v.slots level).map Slot.value = v.written := by
  cases v <;> simp [slots, written, Function.comp_def]

/-- A value is written as its head, its slots, and its foot. -/
theorem pieces_eq_slots (level : Nat) (v : Value) :
    v.pieces level =
      v.head level ++ (v.slots level).flatMap (Slot.pieces (level + 1)) ++ v.foot level := by
  cases v with
  | table t =>
    show t.pieces (level + 1) = _
    rw [TableOf.pieces_eq, slots, List.flatMap_map]
    simp [head, foot, Slot.pieces, Piece.entry]
  | sequence items =>
    show .text "[" :: .newline :: itemPieces (level + 1) items ++ [.tabs level, .text "]"] = _
    rw [itemPieces_eq, slots, List.flatMap_map]
    simp [head, foot, Slot.pieces]
  | _ => simp [head, slots, foot]

/-- The head of a value begins no table but the value itself. -/
theorem visits_head (level : Nat) (v : Value) :
    Piece.visits (v.head level) = v.self.map (fun o => ([], o.visit (level + 1))) := by
  cases v with
  | table t =>
    have hopening := (Piece.silent_opening t.name t.mustIndent).visits_eq_nil
    simp [head, Piece.visits, Piece.visit?, hopening, self, Occurrence.visit, Piece.behind]
  | tuple items => exact (Piece.silent_ofTuple items).visits_eq_nil
  | number n => exact (Piece.silent_ofScalar (.number n)).visits_eq_nil
  | _ => rfl

theorem silent_foot (level : Nat) (v : Value) : Silent (v.foot level) := by
  cases v with
  | table t => exact Piece.silent_closing _ _
  | _ => simp [Silent, foot, Piece.visit?]

theorem silent_of_mem_slots {level : Nat} {v : Value} {s : Slot} (h : s ∈ v.slots level) :
    Silent s.lead ∧ Silent s.trail := by
  cases v with
  | table t =>
    obtain ⟨e, -, rfl⟩ := List.mem_map.1 h
    exact ⟨Piece.silent_append.2 ⟨Piece.silent_inBlock _ rfl, Piece.silent_ofKey _⟩,
      Piece.silent_cons.2 ⟨rfl, Piece.silent_inBlock _ rfl⟩⟩
  | sequence items =>
    obtain ⟨w, -, rfl⟩ := List.mem_map.1 h
    simp [Silent, Piece.visit?]
  | _ => cases h

theorem visits_slot {v : Value} {level : Nat} {s : Slot} (h : s ∈ v.slots level) :
    Piece.visits (s.pieces (level + 1)) =
      Piece.behind s.lead (Piece.visits (s.value.pieces (level + 1))) := by
  obtain ⟨hlead, htrail⟩ := silent_of_mem_slots h
  rw [Slot.pieces, Piece.visits_append, Piece.visits_append, hlead.visits_eq_nil,
    htrail.visits_eq_nil]
  simp [Piece.behind]

/-! ## What is written in front of an address -/

/-- What is written of a value in front of an address. -/
def piecesBefore (level : Nat) (v : Value) : List Nat → List Piece
  | [] => []
  | i :: p =>
    v.head level ++ ((v.slots level).take i).flatMap (Slot.pieces (level + 1)) ++
      (v.slots level)[i]?.elim [] fun s => s.lead ++ s.value.piecesBefore (level + 1) p

theorem piecesBefore_cons {level : Nat} {v : Value} {i : Nat} {s : Slot} (p : List Nat)
    (h : (v.slots level)[i]? = some s) :
    v.piecesBefore level (i :: p) =
      v.head level ++ ((v.slots level).take i).flatMap (Slot.pieces (level + 1)) ++
        (s.lead ++ s.value.piecesBefore (level + 1) p) := by
  rw [piecesBefore, h, Option.elim_some]

/-- Behind what is written in front of an address stands the value there. -/
theorem pieces_at? {v w : Value} {p : List Nat} (h : v.at? p = some w) (level : Nat) :
    v.piecesBefore level p ++ w.pieces (level + p.length) <+: v.pieces level := by
  induction p generalizing v level with
  | nil =>
    obtain rfl := Option.some.inj h
    exact List.prefix_rfl
  | cons i p ih =>
    obtain ⟨x, hx, hw⟩ := Option.bind_eq_some_iff.1 h
    rw [← map_value_slots level v, List.getElem?_map, Option.map_eq_some_iff] at hx
    obtain ⟨s, hs, rfl⟩ := hx
    -- the slot on the way is the last of the first `i + 1`
    have hslot : s.lead ++
        (s.value.piecesBefore (level + 1) p ++ w.pieces (level + 1 + p.length)) <+:
          s.pieces (level + 1) := by
      rw [Slot.pieces, List.append_assoc, List.prefix_append_right_inj]
      exact (ih hw (level + 1)).trans (List.prefix_append _ _)
    have hslots :=
      List.IsPrefix.flatMap (List.take_prefix (i + 1) (v.slots level)) (Slot.pieces (level + 1))
    rw [List.take_add_one, hs, List.flatMap_append] at hslots
    have hlevel : level + (i :: p).length = level + 1 + p.length := by
      rw [List.length_cons]
      omega
    rw [piecesBefore_cons p hs, pieces_eq_slots level v, hlevel]
    simp only [List.append_assoc, List.prefix_append_right_inj]
    refine .trans ?_ (hslots.trans (List.prefix_append _ _))
    simpa using hslot

/-- **Each table is begun at its address**: the visits among the pieces of a tree are its tables in
order, each behind what is written in front of its address. -/
theorem visits_pieces (v : Value) (level : Nat) :
    Piece.visits (v.pieces level) =
      v.occurrences.map (fun o => (v.piecesBefore level o.address, o.visit (level + 1))) := by
  induction v using written_induction generalizing level with
  | step v ih =>
    have hself : v.self.map (fun o => (([] : List Piece), o.visit (level + 1))) =
        v.self.map (fun o => (v.piecesBefore level o.address, o.visit (level + 1))) := by
      refine List.map_congr_left fun o ho => ?_
      rw [(mem_self.1 ho).1, piecesBefore]
    rw [pieces_eq_slots, Piece.visits_append, Piece.visits_append, visits_head, hself,
      (silent_foot level v).visits_eq_nil, Piece.visits_flatMap, occurrences_eq,
      ← map_value_slots level v, List.zipIdx_map, List.flatMap_map]
    simp only [Piece.behind, List.map_nil, List.append_nil, List.map_append, List.map_flatMap]
    congr 1
    refine List.flatMap_congr ?_
    rintro ⟨s, i⟩ he
    have hs : (v.slots level)[i]? = some s := List.mem_zipIdx_iff_getElem?.1 he
    have hmem := List.mem_of_getElem? hs
    have hinside : s.value ∈ v.written := map_value_slots level v ▸ List.mem_map_of_mem hmem
    rw [visits_slot hmem, ih s.value hinside]
    simp [Piece.behind, Occurrence.visit_under, piecesBefore_cons _ hs]

end Value

/-! ## The trace -/

namespace TableOf

open Piece (allChars tagChars)

/-- The text of a tree in front of the opening brace of one of its tables. -/
def textBefore (t : TableOf Value) (o : Occurrence) : List Char :=
  allChars ((Value.table t).piecesBefore 0 o.address) ++ tagChars o.table.name

theorem visits_pieces (t : Table) : Piece.visits (t.pieces 1) =
    (Value.table t).occurrences.map
      (fun o => ((Value.table t).piecesBefore 0 o.address, o.visit 1)) :=
  Value.visits_pieces (.table t) 0

theorem pieces_of_mem_occurrences {t : Table} {o : Occurrence}
    (h : o ∈ (Value.table t).occurrences) :
    (Value.table t).piecesBefore 0 o.address ++ o.table.pieces (1 + o.address.length) <+:
      t.pieces 1 := by
  have hlevel : 1 + o.address.length = 0 + o.address.length + 1 := by omega
  rw [hlevel]
  exact Value.pieces_at? (Value.mem_occurrences.1 h) 0

/-- Behind that text stand the opening brace of the table, its inside, and its closing brace. -/
theorem textBefore_prefix {t : Table} {o : Occurrence} (h : o ∈ (Value.table t).occurrences) :
    t.textBefore o ++ ('{' :: o.table.inside (1 + o.address.length) ++ ['}']) <+:
      allChars (t.pieces 1) := by
  have hchars := List.IsPrefix.flatMap (pieces_of_mem_occurrences h) Piece.chars
  rw [← allChars, ← allChars, Piece.allChars_append, allChars_pieces, ← List.append_assoc] at hchars
  exact hchars

/-- The opening braces stand in the order of the tables, one behind the other. -/
theorem pairwise_textBefore (t : Table) : (Value.table t).occurrences.Pairwise
    (fun a b => t.textBefore a ++ ['{'] <+: t.textBefore b) := by
  have hpairwise := Piece.pairwise_visits (t.pieces 1)
  rw [visits_pieces, List.pairwise_map] at hpairwise
  refine hpairwise.imp_of_mem fun {a b} ha hb hab => ?_
  have hlater := Piece.visits_prefix (t.visits_pieces ▸ List.mem_map_of_mem hb)
  have hopening : (Value.table t).piecesBefore 0 a.address ++
      .visit (a.visit 1) :: Piece.opening a.table.name a.table.mustIndent <+: t.pieces 1 := by
    have hpieces := pieces_of_mem_occurrences ha
    rw [pieces_eq] at hpieces
    refine .trans ?_ hpieces
    rw [List.append_assoc, List.prefix_append_right_inj]
    exact List.prefix_append _ _
  -- the tag and the brace are written before the next table is begun
  have hfront := Piece.prefix_of_visit (Piece.silent_opening _ _) hopening hlater hab
  have hchars := List.IsPrefix.flatMap hfront Piece.chars
  rw [← allChars, ← allChars, Piece.allChars_append, Piece.allChars_cons,
    Piece.allChars_opening] at hchars
  refine .trans ?_ (hchars.trans (List.prefix_append _ _))
  simp [textBefore, Piece.chars]

theorem filterMap_visit?_pieces (t : Table) :
    (t.pieces 1).filterMap Piece.visit? = (Value.table t).occurrences.map (·.visit 1) := by
  rw [← Piece.map_snd_visits, visits_pieces, List.map_map]
  rfl

theorem trace_prefix (t : Table) :
    t.trace <+: (Value.table t).occurrences.map (·.visit 1) := by
  rw [← filterMap_visit?_pieces]
  exact Piece.trace_prefix _

theorem trace_eq_filter (t : Table) :
    t.trace = ((Value.table t).occurrences.filter fun o =>
      ((Value.table t).piecesBefore 0 o.address).all (·.fault?.isNone)).map (·.visit 1) := by
  rw [trace, Piece.trace_eq_filter, visits_pieces, List.filter_map, List.map_map]
  rfl

/-- **The trace is a walk through the tree.** Its tables, each at its address, are in the order of a
walk, and the records are a beginning of this list: those of the tables in front of which nothing
is a fault. Each has the tag of the table, its level, which is one more than there are tables and
sequences around it, and whether it is a block. If there is a text, no table is missing, and the
opening braces stand in the text in the same order, each in front of the inside of its table. -/
theorem trace_walks_tree (t : Table) :
    let tables := (Value.table t).occurrences
    let record (o : Occurrence) : Event :=
      .begun ⟨o.table.name, 1 + o.address.length, o.table.mustIndent⟩
    tables.Pairwise (·.address < ·.address) ∧
    (∀ o, o ∈ tables ↔ (Value.table t).at? o.address = some (.table o.table)) ∧
    t.write.events <+: tables.map record ∧
    t.write.events = (tables.filter fun o =>
      ((Value.table t).piecesBefore 0 o.address).all (·.fault?.isNone)).map record ∧
    ∀ text, t.write.value = .ok text →
      t.write.events = tables.map record ∧
      tables.Pairwise (fun a b => t.textBefore a ++ ['{'] <+: t.textBefore b) ∧
      ∀ o ∈ tables, t.textBefore o ++ ('{' :: o.table.inside (1 + o.address.length) ++ ['}']) <+:
        text.toList := by
  intro tables record
  have hevents : t.write.events = t.trace.map .begun := rfl
  have hrecord : ∀ l : List Occurrence, l.map record = (l.map (·.visit 1)).map .begun := by
    intro l
    rw [List.map_map]
    rfl
  refine ⟨Value.pairwise_occurrences _, fun o => Value.mem_occurrences, ?_, ?_, ?_⟩
  · rw [hevents, hrecord]
    exact t.trace_prefix.map _
  · rw [hevents, hrecord, trace_eq_filter]
  · intro text htext
    obtain ⟨hfaultless, rfl⟩ := render_eq_ok_iff.1 (write_eq_ok_iff.1 htext)
    refine ⟨?_, pairwise_textBefore t, fun o ho => ?_⟩
    · rw [hevents, hrecord, trace, Piece.trace_of_faultless hfaultless, filterMap_visit?_pieces]
    · rw [String.toList_ofList]
      exact textBefore_prefix ho

/-- An ordered table, whose frame is written before its name, with a sequence of tables inside. -/
def framesFirst : Table where
  name := "Path"
  entries := ⟨[(.name "Points", .sequence [.null, .table { name := "P" }, .table { name := "Q" }]),
    (.frame 24, .table { name := "K" }), (.frame 0, .null)]⟩
  ordered := true

theorem trace_walks_tree_framesFirst :
    (∃ text, framesFirst.write.value = .ok text) ∧
      (Value.table framesFirst).occurrences.map
          (fun o => Event.begun ⟨o.table.name, 1 + o.address.length, o.table.mustIndent⟩) =
        [.begun ⟨"Path", 1, true⟩, .begun ⟨"K", 2, false⟩, .begun ⟨"P", 3, false⟩,
          .begun ⟨"Q", 3, false⟩] := by
  have hwrite : ∃ text, framesFirst.write.value = .ok text := ⟨_, rfl⟩
  obtain ⟨text, htext⟩ := hwrite
  obtain ⟨-, -, -, -, hok⟩ := trace_walks_tree framesFirst
  refine ⟨⟨text, htext⟩, (hok text htext).1.symm.trans ?_⟩
  decide +kernel

/-- A fault ends the trace: the last table is not begun. -/
example :
    ({ entries := ⟨[(.index 0, .table { name := "A" }), (.index 1, .number (.float .nan)),
      (.index 2, .table { name := "B" })]⟩ } : Table).write.events =
        [.begun ⟨"", 1, true⟩, .begun ⟨"A", 2, false⟩] := by
  decide +kernel

end TableOf

end SceneScript
