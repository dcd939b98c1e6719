import SceneScript.Proofs.NumberText
import SceneScript.Proofs.SceneText
import SceneScript.Proofs.ValueTree

/-!
# Where lines break

Layout is decided twice. Whether a table is a block is read off from below: a table asks for it by
its switch, its entries or a sequence in it, and the tables around it follow, up to the first one
that is forced to be one line. The text is written from above, and there every table decides for
itself again, so a table on one line may hold a block. Sequences are never on one line, although
those with one item do not count for the tables around them.

If no text in a tree breaks a line, a line breaks only where a block or a sequence is written. That
is the one fact about the text here, by induction over the tree (`Value.newline_mem_pieces_iff`);
the rest is about the decision.

Main statements:

- `TableOf.mustIndent_iff_exists_chain`: what makes a table a block, as a chain of tables;
- `line_breaks_iff_blocks`: the text of a table is one line exactly if no block and no sequence is
  reached from it;
- `line_breaks_of_forceUnindent`: a table that is forced to be one line breaks no line itself;
- `not_forall_one_line`: that does not make its text one line.
-/

namespace SceneScript

/-- The wording without line breaks. -/
def Wording.unbroken : Wording := .everywhere fun s => s.toList.all (· != '\n')

theorem unbroken_iff {s : String} : s.toList.all (· != '\n') = true ↔ '\n' ∉ s.toList := by
  constructor
  · intro h hmem
    have hne := List.all_eq_true.1 h '\n' hmem
    cases hne
  · intro h
    refine List.all_eq_true.2 fun c hc => bne_iff_ne.2 ?_
    rintro rfl
    exact h hc

/-! ## What is reached -/

namespace Value

/-- The values that a value reaches through entries of tables and items of sequences, with the
number of tables and sequences around them. -/
inductive HoldsAt : Nat → Value → Value → Prop
  | self (v : Value) : HoldsAt 0 v v
  | entry {depth : Nat} {t : Table} {e : Key × Value} {w : Value} (he : e ∈ t.entries.toList)
    (h : HoldsAt depth e.2 w) : HoldsAt (depth + 1) (.table t) w
  | item {depth : Nat} {items : List Value} {v w : Value} (hv : v ∈ items)
    (h : HoldsAt depth v w) : HoldsAt (depth + 1) (.sequence items) w

/-- Whether a value reaches another one, at any depth; it reaches itself. -/
def Holds (v w : Value) : Prop := ∃ depth, HoldsAt depth v w

theorem Holds.refl (v : Value) : v.Holds v := ⟨0, .self v⟩

theorem Holds.entry {t : Table} {e : Key × Value} {w : Value} (he : e ∈ t.entries.toList)
    (h : e.2.Holds w) : (table t).Holds w := by
  obtain ⟨depth, h⟩ := h
  exact ⟨depth + 1, .entry he h⟩

theorem Holds.item {items : List Value} {v w : Value} (hv : v ∈ items) (h : v.Holds w) :
    (sequence items).Holds w := by
  obtain ⟨depth, h⟩ := h
  exact ⟨depth + 1, .item hv h⟩

theorem Holds.trans {u v w : Value} (huv : u.Holds v) (hvw : v.Holds w) : u.Holds w := by
  obtain ⟨depth, huv⟩ := huv
  induction huv with
  | self => exact hvw
  | entry he _ ih => exact .entry he (ih hvw)
  | item hv _ ih => exact .item hv (ih hvw)

/-- What a table reaches is the table itself or reached from one of its entries. -/
theorem holds_table_iff {t : Table} {w : Value} :
    (table t).Holds w ↔ w = table t ∨ ∃ e ∈ t.entries.toList, e.2.Holds w := by
  constructor
  · rintro ⟨depth, h⟩
    cases h with
    | self => exact .inl rfl
    | entry he h => exact .inr ⟨_, he, _, h⟩
  · rintro (rfl | ⟨e, he, h⟩)
    · exact .refl _
    · exact .entry he h

/-- Whether a value takes several lines of its own: blocks and sequences do. -/
def spansLines : Value → Bool
  | .table t => t.mustIndent
  | .sequence _ => true
  | _ => false

/-- A value that is neither a table nor a sequence reaches itself only. -/
theorem holds_iff_eq {v w : Value} (hv : (v.isTable || v.sequence?.isSome) = false) :
    v.Holds w ↔ w = v := by
  constructor
  · rintro ⟨depth, h⟩
    cases h with
    | self => rfl
    | entry | item => cases hv
  · rintro rfl
    exact .refl _

theorem not_holds_spansLines {v : Value} (hv : (v.isTable || v.sequence?.isSome) = false) :
    ¬ ∃ w, v.Holds w ∧ w.spansLines = true := by
  simp only [holds_iff_eq hv, exists_eq_left, Bool.not_eq_true]
  cases v with
  | table | sequence => cases hv
  | _ => rfl

end Value

/-! ## Line breaks in the text -/

namespace Piece

theorem newline_not_mem_number (n : Number) : '\n' ∉ n.text.toList := n.not_mem_text rfl

theorem newline_not_mem_tagChars {name : String} (h : name.toList.all (· != '\n') = true) :
    '\n' ∉ tagChars name := by
  unfold tagChars
  split
  · exact List.not_mem_nil
  · simp [unbroken_iff.1 h]

theorem newline_not_mem_keyChars {k : Key} (h : k.worded .unbroken = true) :
    '\n' ∉ keyChars k := by
  cases k with
  | index i => exact List.not_mem_nil
  | frame n => simp [keyChars, newline_not_mem_number]
  | name s => simp [keyChars, unbroken_iff.1 h]

theorem newline_not_mem_ofScalar {v : Value} (h : v.worded .unbroken = true) :
    '\n' ∉ allChars (ofScalar v) := by
  cases v with
  | bool b => cases b <;> decide
  | number n =>
    show '\n' ∉ allChars [ofNumber n]
    unfold ofNumber
    split
    · simp [chars, newline_not_mem_number]
    · exact List.not_mem_nil
  | text s => simp [allChars_text, unbroken_iff.1 h]
  | fuId s => simp [allChars_fuId, unbroken_iff.1 h]
  | _ => exact List.not_mem_nil

theorem newline_not_mem_ofTuple {items : List Value}
    (h : ∀ v ∈ items, v.worded .unbroken = true) : '\n' ∉ allChars (ofTuple items) := by
  cases items with
  | nil => decide
  | cons first rest =>
    obtain ⟨hfirst, hrest⟩ := List.forall_mem_cons.1 h
    have hothers : ∀ v ∈ rest, '\n' ∉ allChars (ofScalar v) :=
      fun v hv => newline_not_mem_ofScalar (hrest v hv)
    simpa [allChars_ofTuple, newline_not_mem_ofScalar hfirst] using hothers

end Piece

open Piece

/-- The lines of a table are broken by the table, if it is a block, and by the values in it. -/
theorem TableOf.newline_mem_pieces_iff {t : TableOf Value} (ht : t.worded .unbroken = true)
    (level : Nat) :
    '\n' ∈ allChars (t.pieces level) ↔
      t.mustIndent = true ∨ ∃ e ∈ t.entries.toList, '\n' ∈ allChars (e.2.pieces level) := by
  obtain ⟨htag, hentries⟩ := TableOf.worded_iff.1 ht
  have hline : ∀ e ∈ t.written, '\n' ∈ line level e ↔ '\n' ∈ allChars (e.2.pieces level) := by
    intro e he
    simp [line, newline_not_mem_keyChars (hentries e (mem_written.1 he).1).1]
  rw [allChars_pieces, inside]
  cases t.mustIndent with
  | true => simp [breakChars]
  | false =>
    -- what holds nothing is not written, and has no text that could break a line
    have hwritten : (∃ e ∈ t.written, '\n' ∈ line level e) ↔
        ∃ e ∈ t.entries.toList, '\n' ∈ allChars (e.2.pieces level) := by
      constructor
      · rintro ⟨e, he, hmem⟩
        exact ⟨e, (mem_written.1 he).1, (hline e he).1 hmem⟩
      · rintro ⟨e, he, hmem⟩
        have hnull : e.2.isNull = false := by
          cases hv : e.2 <;> first | rfl | (rw [hv] at hmem; cases hmem)
        have he := mem_written.2 ⟨he, hnull⟩
        exact ⟨e, he, (hline e he).2 hmem⟩
    simpa [breakChars, tabChars, newline_not_mem_tagChars htag] using hwritten

/-- **A line breaks where a block or a sequence is written**, and nowhere else. -/
theorem Value.newline_mem_pieces_iff (v : Value) (hv : v.worded .unbroken = true) (level : Nat) :
    '\n' ∈ allChars (v.pieces level) ↔ ∃ w, v.Holds w ∧ w.spansLines = true := by
  induction v generalizing level with
  | null => exact iff_of_false List.not_mem_nil (not_holds_spansLines rfl)
  | bool | number | text | fuId =>
    exact iff_of_false (newline_not_mem_ofScalar hv) (not_holds_spansLines rfl)
  | tuple items _ =>
    exact iff_of_false (newline_not_mem_ofTuple (Value.worded_tuple.1 hv))
      (not_holds_spansLines rfl)
  | sequence items _ =>
    refine iff_of_true ?_ ⟨.sequence items, .refl _, rfl⟩
    simp [Value.allChars_sequence]
  | table t ih =>
    have hentries := (TableOf.worded_iff.1 hv).2
    show '\n' ∈ allChars (t.pieces (level + 1)) ↔ _
    rw [TableOf.newline_mem_pieces_iff hv]
    constructor
    · rintro (hblock | ⟨e, he, hmem⟩)
      · exact ⟨.table t, .refl _, hblock⟩
      · obtain ⟨w, hw, hspans⟩ := (ih e he (hentries e he).2 (level + 1)).1 hmem
        exact ⟨w, .entry he hw, hspans⟩
    · rintro ⟨w, hw, hspans⟩
      rcases holds_table_iff.1 hw with rfl | ⟨e, he, hw⟩
      · exact .inl hspans
      · exact .inr ⟨e, he, (ih e he (hentries e he).2 (level + 1)).2 ⟨w, hw, hspans⟩⟩

/-! ## What makes a table a block -/

namespace TableOf

/-- Whether a table is directly inside another one. -/
def Nests (t u : Table) : Prop := ∃ e ∈ t.entries.toList, e.2 = .table u

/-- Whether a table is to be a block whatever the tables in it are: by its switch, by two entries
that hold something, or by two such items of a sequence in it. -/
def AsksForBlock (t : Table) : Prop :=
  t.forceIndent = true ∨ 2 ≤ t.length ∨
    ∃ e ∈ t.entries.toList, ∃ items, e.2 = .sequence items ∧ 2 ≤ Value.countNonNull items

/-- A chain of tables behind `t`, each directly inside the one before: none of them is forced to be
one line, and the last one asks for a block. -/
structure BlockChain (t : Table) (chain : List Table) : Prop where
  nested : (t :: chain).IsChain Nests
  free : ∀ u ∈ t :: chain, u.forceUnindent = false
  asks : (chain.getLastD t).AsksForBlock

end TableOf

theorem Value.indents_iff {v : Value} : v.indents = true ↔
    (∃ items, v = .sequence items ∧ 2 ≤ countNonNull items) ∨
      ∃ u, v = .table u ∧ u.mustIndent = true := by
  cases v <;> simp [indents]

namespace TableOf

/-- The decision looks one table down: a table that is free to be a block is one if it asks for it,
or if a table directly inside is one. -/
theorem mustIndent_iff (t : Table) :
    t.mustIndent = true ↔
      t.forceUnindent = false ∧ (t.AsksForBlock ∨ ∃ u, t.Nests u ∧ u.mustIndent = true) := by
  have hnested : (∃ e ∈ t.entries.toList, ∃ u, e.2 = .table u ∧ u.mustIndent = true) ↔
      ∃ u, t.Nests u ∧ u.mustIndent = true := by
    constructor
    · rintro ⟨e, he, u, hu, hblock⟩
      exact ⟨u, ⟨e, he, hu⟩, hblock⟩
    · rintro ⟨u, ⟨e, he, hu⟩, hblock⟩
      exact ⟨e, he, u, hu, hblock⟩
  rw [mustIndent_eq, ← hnested]
  simp only [Bool.and_eq_true, Bool.or_eq_true, Bool.not_eq_true', decide_eq_true_eq,
    List.any_eq_true, Value.indents_iff, and_or_left, exists_or, AsksForBlock, or_assoc]

/-- Induction over tables: the statement may be assumed for the tables directly inside. -/
theorem induction_nests {motive : Table → Prop} (h : ∀ t, (∀ u, t.Nests u → motive u) → motive t)
    (t : Table) : motive t := by
  have hvalue : ∀ v : Value, ∀ t, v = .table t → motive t := by
    intro v
    induction v with
    | table t ih =>
      rintro _ ⟨⟩
      refine h t ?_
      rintro u ⟨e, he, hu⟩
      exact ih e he u hu
    | _ => nofun
  exact hvalue _ t rfl

/-- **What makes a table a block** is a chain of tables that asks for it at its end and is cut
nowhere by a table that is forced to be one line. -/
theorem mustIndent_iff_exists_chain (t : Table) :
    t.mustIndent = true ↔ ∃ chain, t.BlockChain chain := by
  constructor
  · induction t using induction_nests with
    | h t ih =>
      intro hblock
      obtain ⟨hfree, hasks | ⟨u, hnests, hu⟩⟩ := (mustIndent_iff t).1 hblock
      · exact ⟨[], .singleton t, by simpa using hfree, hasks⟩
      · obtain ⟨chain, hchain⟩ := ih u hnests hu
        refine ⟨u :: chain, .cons_cons hnests hchain.nested, ?_, ?_⟩
        · exact List.forall_mem_cons.2 ⟨hfree, hchain.free⟩
        · rw [List.getLastD_cons]
          exact hchain.asks
  · rintro ⟨chain, hchain⟩
    induction chain generalizing t with
    | nil => exact (mustIndent_iff t).2 ⟨hchain.free t List.mem_cons_self, .inl hchain.asks⟩
    | cons u chain ih =>
      obtain ⟨hnests, hnested⟩ := List.isChain_cons_cons.1 hchain.nested
      obtain ⟨hfree, hrest⟩ := List.forall_mem_cons.1 hchain.free
      have hasks := hchain.asks
      rw [List.getLastD_cons] at hasks
      have hu := ih u ⟨hnested, hrest, hasks⟩
      exact (mustIndent_iff t).2 ⟨hfree, .inr ⟨u, hnests, hu⟩⟩

theorem BlockChain.holds_last {t : Table} {chain : List Table} (h : t.BlockChain chain) :
    (Value.table t).Holds (.table (chain.getLastD t)) := by
  have hnested := h.nested
  clear h
  induction chain generalizing t with
  | nil => exact .refl _
  | cons u chain ih =>
    obtain ⟨⟨e, he, hu⟩, hnested⟩ := List.isChain_cons_cons.1 hnested
    rw [List.getLastD_cons]
    refine .entry he ?_
    rw [hu]
    exact ih hnested

/-- Where no sequence is reached and no table is forced to be one line, there is no block exactly if
no table has two entries to write or is forced to be a block. -/
theorem forall_not_mustIndent_iff {t : Table}
    (hsequence : ∀ items, ¬ (Value.table t).Holds (.sequence items))
    (hfree : ∀ u, (Value.table t).Holds (.table u) → u.forceUnindent = false) :
    (∀ u, (Value.table t).Holds (.table u) → u.mustIndent = false) ↔
      ∀ u, (Value.table t).Holds (.table u) → u.length ≤ 1 ∧ u.forceIndent = false := by
  constructor
  · intro h u hu
    have hasks : ¬ u.AsksForBlock := by
      intro hasks
      have hblock := (mustIndent_iff u).2 ⟨hfree u hu, .inl hasks⟩
      rw [h u hu] at hblock
      cases hblock
    obtain ⟨hswitch, hlength, -⟩ : ¬ u.forceIndent = true ∧ ¬ 2 ≤ u.length ∧ _ := by
      simpa only [AsksForBlock, not_or] using hasks
    exact ⟨by omega, Bool.eq_false_iff.2 hswitch⟩
  · intro h u hu
    refine Bool.eq_false_iff.2 fun hblock => ?_
    -- the table at the end of the chain is reached, too
    obtain ⟨chain, hchain⟩ := (mustIndent_iff_exists_chain u).1 hblock
    have hlast := hu.trans hchain.holds_last
    obtain ⟨hlength, hswitch⟩ := h _ hlast
    rcases hchain.asks with hasks | hasks | ⟨e, he, items, hitems, -⟩
    · rw [hswitch] at hasks
      cases hasks
    · omega
    · refine hsequence items (hlast.trans (.entry he ?_))
      rw [hitems]
      exact .refl _

end TableOf

/-! ## Texts -/

/-- A line of a text breaks where a block or a sequence is written. -/
theorem TableOf.newline_mem_render_iff {t : Table} (ht : t.worded .unbroken = true) {text : String}
    (h : t.render = .ok text) :
    '\n' ∈ text.toList ↔ ∃ w, (Value.table t).Holds w ∧ w.spansLines = true := by
  obtain ⟨-, rfl⟩ := render_eq_ok_iff.1 h
  rw [String.toList_ofList]
  exact (Value.table t).newline_mem_pieces_iff ht 0

/-- **The layout decision matches the text.** A table is a block exactly if a chain of tables asks
for it. A text whose tree has no line breaks in its wording has one exactly if a block or a sequence
is reached. So, where no sequence is reached and no table is forced to be one line, the text is one
line exactly if each table that is reached has at most one entry to write and is not forced to be a
block. -/
theorem line_breaks_iff_blocks (t : Table) :
    (t.mustIndent = true ↔ ∃ chain, t.BlockChain chain) ∧
    (t.worded .unbroken = true → ∀ text, t.render = .ok text →
      ('\n' ∈ text.toList ↔
        (∃ u, (Value.table t).Holds (.table u) ∧ u.mustIndent = true) ∨
          ∃ items, (Value.table t).Holds (.sequence items)) ∧
      ((∀ items, ¬ (Value.table t).Holds (.sequence items)) →
        (∀ u, (Value.table t).Holds (.table u) → u.forceUnindent = false) →
          ('\n' ∉ text.toList ↔
            ∀ u, (Value.table t).Holds (.table u) → u.length ≤ 1 ∧ u.forceIndent = false))) := by
  refine ⟨t.mustIndent_iff_exists_chain, ?_⟩
  intro ht text h
  have hbreaks : '\n' ∈ text.toList ↔
      (∃ u, (Value.table t).Holds (.table u) ∧ u.mustIndent = true) ∨
        ∃ items, (Value.table t).Holds (.sequence items) := by
    rw [TableOf.newline_mem_render_iff ht h]
    constructor
    · rintro ⟨w, hw, hspans⟩
      cases w with
      | table u => exact .inl ⟨u, hw, hspans⟩
      | sequence items => exact .inr ⟨items, hw⟩
      | _ => cases hspans
    · rintro (⟨u, hu, hblock⟩ | ⟨items, hitems⟩)
      · exact ⟨.table u, hu, hblock⟩
      · exact ⟨.sequence items, hitems, rfl⟩
  refine ⟨hbreaks, ?_⟩
  intro hsequence hfree
  rw [hbreaks, ← TableOf.forall_not_mustIndent_iff hsequence hfree]
  simp only [hsequence, exists_false, or_false, not_exists, not_and, Bool.not_eq_true]

/-- A table with one entry to write, in a table with one entry. -/
def TableOf.oneEntryEach : Table :=
  let inner : Table :=
    ⟨"", ⟨[(.name "Width", .int 8), (.name "Mask", .null)]⟩, false, false, false⟩
  ⟨"Tool", ⟨[(.name "Inputs", .table inner)]⟩, false, false, false⟩

theorem line_breaks_iff_blocks_oneEntryEach :
    TableOf.oneEntryEach.worded .unbroken = true ∧
    (∀ items, ¬ (Value.table TableOf.oneEntryEach).Holds (.sequence items)) ∧
    (∀ u, (Value.table TableOf.oneEntryEach).Holds (.table u) → u.forceUnindent = false) ∧
    ∃ text, TableOf.oneEntryEach.render = .ok text ∧
      ('\n' ∉ text.toList ↔
        ∀ u, (Value.table TableOf.oneEntryEach).Holds (.table u) →
          u.length ≤ 1 ∧ u.forceIndent = false) := by
  have hworded : TableOf.oneEntryEach.worded .unbroken = true := by decide
  have hreached : ∀ w, (Value.table TableOf.oneEntryEach).Holds w →
      (∀ items, w ≠ .sequence items) ∧ ∀ u, w = .table u → u.forceUnindent = false := by
    have hnumber : ∀ n w, (Value.number n).Holds w ↔ w = .number n :=
      fun _ _ => Value.holds_iff_eq rfl
    have hmask : ∀ w, Value.null.Holds w ↔ w = .null := fun _ => Value.holds_iff_eq rfl
    simp [TableOf.oneEntryEach, Value.holds_table_iff, hnumber, hmask, Value.int]
  have hsequence : ∀ items, ¬ (Value.table TableOf.oneEntryEach).Holds (.sequence items) :=
    fun items h => (hreached _ h).1 items rfl
  have hfree : ∀ u, (Value.table TableOf.oneEntryEach).Holds (.table u) → u.forceUnindent = false :=
    fun u h => (hreached _ h).2 u rfl
  have hrender : TableOf.oneEntryEach.render =
      .ok "Tool \x7b Inputs = \x7b Width = 8, \x7d, \x7d" := by rfl
  refine ⟨hworded, hsequence, hfree, _, hrender, ?_⟩
  exact ((line_breaks_iff_blocks _).2 hworded _ hrender).2 hsequence hfree

/-- **A table that is forced to be one line breaks no line itself.** Its text is its tag and its
lines in a row, between braces on the same line. A line breaks in it only where a block or a
sequence is written that is reached from an entry. -/
theorem line_breaks_of_forceUnindent {t : Table} (hflag : t.forceUnindent = true)
    (ht : t.worded .unbroken = true) {text : String} (h : t.render = .ok text) :
    text.toList = tagChars t.name ++ ('{' :: ' ' :: t.written.flatMap (line 1) ++ ['}']) ∧
    ('\n' ∈ text.toList ↔
      ∃ e ∈ t.entries.toList, ∃ w, e.2.Holds w ∧ w.spansLines = true) := by
  have hblock := TableOf.mustIndent_of_forceUnindent hflag
  constructor
  · obtain ⟨-, rfl⟩ := TableOf.render_eq_ok_iff.1 h
    rw [String.toList_ofList, TableOf.allChars_pieces, TableOf.inside, hblock]
    simp [breakChars, tabChars]
  · rw [TableOf.newline_mem_render_iff ht h]
    constructor
    · rintro ⟨w, hw, hspans⟩
      rcases Value.holds_table_iff.1 hw with rfl | ⟨e, he, hw⟩
      · rw [Value.spansLines, hblock] at hspans
        cases hspans
      · exact ⟨e, he, w, hw, hspans⟩
    · rintro ⟨e, he, w, hw, hspans⟩
      exact ⟨w, .entry he hw, hspans⟩

/-- A table that is forced to be one line and has one entry. -/
def TableOf.oneLineAround (v : Value) : Table :=
  ⟨"Tool", ⟨[(.name "A", v)]⟩, true, true, false⟩

/-- A table with two entries, which is a block. -/
def TableOf.twoEntries : Table :=
  ⟨"", ⟨[(.name "X", .int 1), (.name "Y", .int 2)]⟩, false, false, false⟩

theorem line_breaks_of_forceUnindent_twoEntries :
    let t := TableOf.oneLineAround (.table TableOf.twoEntries)
    t.forceUnindent = true ∧ t.worded .unbroken = true ∧ ∃ text, t.render = .ok text ∧
      text.toList = tagChars t.name ++ ('{' :: ' ' :: t.written.flatMap (line 1) ++ ['}']) ∧
      ('\n' ∈ text.toList ↔
        ∃ e ∈ t.entries.toList, ∃ w, e.2.Holds w ∧ w.spansLines = true) := by
  have hrender : (TableOf.oneLineAround (.table TableOf.twoEntries)).render =
      .ok "Tool \x7b A = \x7b \n\t\tX = 1, \n\t\tY = 2, \n\t\x7d, \x7d" := by rfl
  exact ⟨rfl, by decide, _, hrender, line_breaks_of_forceUnindent rfl (by decide) hrender⟩

/-- The text of a table that is forced to be one line need not be one line: a block in it stays a
block, and a sequence in it has its brackets on lines of their own. -/
theorem not_forall_one_line :
    (TableOf.oneLineAround (.table TableOf.twoEntries)).render =
      .ok "Tool \x7b A = \x7b \n\t\tX = 1, \n\t\tY = 2, \n\t\x7d, \x7d" ∧
    (TableOf.oneLineAround (.sequence [.int 1])).render = .ok "Tool \x7b A = [\n\t\t1,\n\t], \x7d" ∧
    ¬ ∀ t : Table, t.forceUnindent = true → t.worded .unbroken = true →
      ∀ text, t.render = .ok text → '\n' ∉ text.toList := by
  have hblock : (TableOf.oneLineAround (.table TableOf.twoEntries)).render =
      .ok "Tool \x7b A = \x7b \n\t\tX = 1, \n\t\tY = 2, \n\t\x7d, \x7d" := by rfl
  refine ⟨hblock, by rfl, ?_⟩
  intro hone
  exact hone _ rfl (by decide) _ hblock (by decide)

end SceneScript
