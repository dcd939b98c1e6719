import SceneScript.Proofs.LineBreaks

/-!
# Nesting only re-indents

The level at which a value is written is the number of tabs at the start of its lines, and nothing
else depends on it. So a value that is written deeper has the same text with more tabs behind each
line break, if no line breaks inside of its wording: a break there has no tabs behind it.

Two facts make this up. The pieces at a deeper level are the pieces at the level itself with the
levels in them moved, so there is a text at both levels or at none (`Value.pieces_add`). And in the
text of a block every line break stands right before the tabs of the next line, or of the closing
brace, so that tabs added behind the break are tabs added to the level (`Text.indentBy_lines`).

Main statements:

- `Value.assemble_pieces_add`: a value written deeper;
- `nesting_reindents`: how a table is written inside of others.
-/

namespace SceneScript

/-! ## More tabs behind each line break -/

namespace Text

variable {k : Nat} {cs : List Char}

/-- Characters with `k` tabs added behind each line break. -/
def indentBy (k : Nat) (cs : List Char) : List Char :=
  cs.flatMap fun c => if c = '\n' then '\n' :: List.replicate k '\t' else [c]

/-- A text with `k` tabs added behind each line break. -/
def indent (k : Nat) (s : String) : String := String.ofList (indentBy k s.toList)

@[simp] theorem indentBy_append (cs ds : List Char) :
    indentBy k (cs ++ ds) = indentBy k cs ++ indentBy k ds :=
  List.flatMap_append

@[simp] theorem indentBy_break :
    indentBy k ('\n' :: cs) = '\n' :: (List.replicate k '\t' ++ indentBy k cs) := rfl

theorem indentBy_cons {c : Char} (hc : c ≠ '\n') :
    indentBy k (c :: cs) = c :: indentBy k cs := by
  simp [indentBy, hc]

theorem indentBy_of_not_mem (h : '\n' ∉ cs) : indentBy k cs = cs := by
  induction cs with
  | nil => rfl
  | cons c rest ih =>
    obtain ⟨hc, hrest⟩ := not_or.1 (mt List.mem_cons.2 h)
    rw [indentBy_cons (Ne.symm hc), ih hrest]

theorem indentBy_flatMap {α : Type} {f g : α → List Char} {l : List α}
    (h : ∀ a ∈ l, indentBy k (f a) = g a) : indentBy k (l.flatMap f) = l.flatMap g := by
  induction l with
  | nil => rfl
  | cons a rest ih =>
    obtain ⟨ha, hrest⟩ := List.forall_mem_cons.1 h
    rw [List.flatMap_cons, List.flatMap_cons, indentBy_append, ha, ih hrest]

/-- Lines behind a break, each with its own break at the end: the tabs that are added stand at the
start of the lines, and in front of what comes behind them. -/
theorem indentBy_lines {α : Type} {f g : α → List Char} {l : List α}
    (h : ∀ a ∈ l, indentBy k (f a) = g a) (n m : Nat) :
    indentBy k ('\n' :: (l.flatMap (fun a => List.replicate n '\t' ++ f a ++ ['\n']) ++
        List.replicate m '\t')) =
      '\n' :: (l.flatMap (fun a => List.replicate (n + k) '\t' ++ g a ++ ['\n']) ++
        List.replicate (m + k) '\t') := by
  have htabs : ∀ n, List.replicate k '\t' ++ indentBy k (List.replicate n '\t') =
      List.replicate (n + k) '\t' := by
    intro n
    rw [indentBy_of_not_mem (by simp), List.replicate_append_replicate, Nat.add_comm]
  induction l with
  | nil => simp [htabs]
  | cons a rest ih =>
    obtain ⟨ha, hrest⟩ := List.forall_mem_cons.1 h
    -- the break at the end of the first line is the one in front of the others
    have hsplit : ∀ (T : List Char) (f : α → List Char) (M : List Char),
        '\n' :: ((a :: rest).flatMap (fun a => T ++ f a ++ ['\n']) ++ M) =
          '\n' :: T ++ f a ++ '\n' :: (rest.flatMap (fun a => T ++ f a ++ ['\n']) ++ M) := by
      simp
    rw [hsplit, hsplit, indentBy_append, ih hrest, indentBy_append, ha, indentBy_break, htabs]

end Text

/-! ## Pieces at a deeper level -/

namespace Piece

/-- A piece as it is written `k` levels deeper. -/
def shift (k : Nat) : Piece → Piece
  | .tabs n => .tabs (n + k)
  | .visit v => .visit { v with level := v.level + k }
  | p => p

theorem map_shift_inBlock (k : Nat) (block : Bool) (p : Piece) :
    (inBlock block p).map (shift k) = inBlock block (p.shift k) := by
  cases block <;> rfl

theorem map_shift_ofKey (k : Nat) (key : Key) : (ofKey key).map (shift k) = ofKey key := by
  cases key with
  | frame n =>
    have hfault : (if n.isFinite then [] else [Piece.fault (.notFinite n)]).map (shift k) =
        if n.isFinite then [] else [Piece.fault (.notFinite n)] := by
      split <;> rfl
    rw [ofKey, List.map_append, hfault]
    rfl
  | _ => rfl

theorem map_shift_opening (k : Nat) (name : String) (block : Bool) :
    (opening name block).map (shift k) = opening name block := by
  have htag : (if name.isEmpty then [] else [Piece.text name, .text " "]).map (shift k) =
      if name.isEmpty then [] else [Piece.text name, .text " "] := by
    split <;> rfl
  rw [opening, List.map_append, htag, List.map_cons, map_shift_inBlock]
  rfl

theorem map_shift_entry (k level : Nat) (block : Bool) (key : Key) (value : List Piece) :
    (entry level block key value).map (shift k) =
      entry (level + k) block key (value.map (shift k)) := by
  simp only [entry, List.map_append, List.map_cons, map_shift_inBlock, map_shift_ofKey]
  rfl

/-- The closing brace of a table inside another one. Outermost the brace has no tabs, at every
level below `1`, and moving the level does not move it. -/
theorem map_shift_closing (k level : Nat) (block : Bool) :
    (closing (level + 1) block).map (shift k) = closing (level + 1 + k) block := by
  have hlevel : level + 1 + k - 1 = level + k := by omega
  simp only [closing, List.map_append, map_shift_inBlock, hlevel]
  rfl

theorem map_shift_ofScalar (k : Nat) (v : Value) : (ofScalar v).map (shift k) = ofScalar v := by
  cases v with
  | number n =>
    show [(ofNumber n).shift k] = [ofNumber n]
    unfold ofNumber
    split <;> rfl
  | _ => rfl

theorem map_shift_ofTuple (k : Nat) (items : List Value) :
    (ofTuple items).map (shift k) = ofTuple items := by
  cases items with
  | nil => rfl
  | cons first rest =>
    have hrest : (rest.flatMap fun v => .text ", " :: ofScalar v).map (shift k) =
        rest.flatMap fun v => .text ", " :: ofScalar v := by
      rw [List.map_flatMap]
      exact congrArg rest.flatMap (funext fun v => by rw [List.map_cons, map_shift_ofScalar]; rfl)
    simp only [ofTuple, List.map_append, List.map_cons, map_shift_ofScalar, hrest]
    rfl

theorem findSome?_fault?_map_shift (k : Nat) (ps : List Piece) :
    (ps.map (shift k)).findSome? fault? = ps.findSome? fault? := by
  rw [List.findSome?_map]
  congr 1
  funext p
  cases p <;> rfl

end Piece

open Piece

/-- The pieces of a table move if those of its entries do. -/
theorem TableOf.pieces_add_of_forall {t : Table} {k level : Nat}
    (h : ∀ e ∈ t.entries.toList,
      e.2.pieces (level + 1 + k) = (e.2.pieces (level + 1)).map (shift k)) :
    t.pieces (level + 1 + k) = (t.pieces (level + 1)).map (shift k) := by
  have hentries : ∀ e ∈ t.written,
      entry (level + 1 + k) t.mustIndent e.1 (e.2.pieces (level + 1 + k)) =
        (entry (level + 1) t.mustIndent e.1 (e.2.pieces (level + 1))).map (shift k) := by
    intro e he
    rw [map_shift_entry, h e (mem_written.1 he).1]
  rw [pieces_eq, pieces_eq, List.map_append, List.map_append, List.map_cons, map_shift_opening,
    map_shift_closing, List.map_flatMap, List.flatMap_congr hentries]
  rfl

/-- **What is written deeper** is the same, with the levels moved. -/
theorem Value.pieces_add (v : Value) (level k : Nat) :
    v.pieces (level + k) = (v.pieces level).map (shift k) := by
  induction v generalizing level with
  | null => rfl
  | bool b => exact (map_shift_ofScalar k (.bool b)).symm
  | number n => exact (map_shift_ofScalar k (.number n)).symm
  | text s => exact (map_shift_ofScalar k (.text s)).symm
  | fuId s => exact (map_shift_ofScalar k (.fuId s)).symm
  | tuple items _ => exact (map_shift_ofTuple k items).symm
  | sequence items ih =>
    have hitems : itemPieces (level + k + 1) items =
        (itemPieces (level + 1) items).map (shift k) := by
      rw [itemPieces_eq, itemPieces_eq, List.map_flatMap, Nat.add_right_comm]
      refine List.flatMap_congr ?_
      intro v hv
      rw [ih v (List.mem_filter.1 hv).1]
      simp [shift]
    show .text "[" :: .newline :: itemPieces (level + k + 1) items ++ [.tabs (level + k), .text "]"]
      = List.map (shift k)
        (.text "[" :: .newline :: itemPieces (level + 1) items ++ [.tabs level, .text "]"])
    rw [hitems]
    simp [shift]
  | table t ih =>
    show t.pieces (level + k + 1) = (t.pieces (level + 1)).map (shift k)
    rw [Nat.add_right_comm]
    exact TableOf.pieces_add_of_forall fun e he => ih e he (level + 1)

/-! ## Characters at a deeper level -/

open Text

/-- The text of a table is indented if those of its entries are. -/
theorem TableOf.indentBy_pieces_of_forall {t : Table} {k level : Nat}
    (ht : t.worded .unbroken = true)
    (h : ∀ e ∈ t.entries.toList,
      indentBy k (allChars (e.2.pieces (level + 1))) = allChars (e.2.pieces (level + 1 + k))) :
    indentBy k (allChars (t.pieces (level + 1))) = allChars (t.pieces (level + 1 + k)) := by
  obtain ⟨htag, hentries⟩ := TableOf.worded_iff.1 ht
  have hline : ∀ e ∈ t.written, indentBy k (line (level + 1) e) = line (level + 1 + k) e := by
    intro e he
    obtain ⟨he, -⟩ := mem_written.1 he
    have hkey := newline_not_mem_keyChars (hentries e he).1
    rw [line, indentBy_append, indentBy_append, indentBy_of_not_mem hkey, h e he,
      indentBy_of_not_mem (by decide)]
    rfl
  have hlevel : level + 1 + k - 1 = level + 1 - 1 + k := by omega
  have hinside : indentBy k (t.inside (level + 1)) = t.inside (level + 1 + k) := by
    unfold inside
    by_cases hblock : t.mustIndent = true
    · simpa [hblock, hlevel, tabChars, breakChars, indentBy_cons] using
        indentBy_lines hline (level + 1) (level + 1 - 1)
    · simpa [hblock, tabChars, breakChars, indentBy_cons] using indentBy_flatMap hline
  rw [allChars_pieces, allChars_pieces, indentBy_append,
    indentBy_of_not_mem (newline_not_mem_tagChars htag), indentBy_append,
    indentBy_cons (by decide), hinside, indentBy_of_not_mem (by decide)]

/-- **The text of what is written deeper** has tabs added behind each line break. -/
theorem Value.indentBy_pieces (v : Value) (hv : v.worded .unbroken = true) (level k : Nat) :
    indentBy k (allChars (v.pieces level)) = allChars (v.pieces (level + k)) := by
  induction v generalizing level with
  | null => rfl
  | bool | number | text | fuId => exact indentBy_of_not_mem (newline_not_mem_ofScalar hv)
  | tuple items _ =>
    exact indentBy_of_not_mem (newline_not_mem_ofTuple (Value.worded_tuple.1 hv))
  | sequence items ih =>
    have hitems : ∀ v ∈ items.filter (!·.isNull),
        indentBy k (allChars (v.pieces (level + 1)) ++ [',']) =
          allChars (v.pieces (level + k + 1)) ++ [','] := by
      intro v hv'
      have hmem := (List.mem_filter.1 hv').1
      rw [indentBy_append, ih v hmem (Value.worded_sequence.1 hv v hmem), Nat.add_right_comm]
      rfl
    have htext : ∀ level, allChars ((sequence items).pieces level) =
        '[' :: '\n' :: ((items.filter (!·.isNull)).flatMap (fun v =>
          List.replicate (level + 1) '\t' ++ (allChars (v.pieces (level + 1)) ++ [',']) ++
            ['\n']) ++ List.replicate level '\t') ++ [']'] := by
      intro level
      simp [allChars_sequence]
    rw [htext, htext, indentBy_append, indentBy_cons (by decide), indentBy_lines hitems,
      Nat.add_right_comm, indentBy_of_not_mem (by decide)]
  | table t ih =>
    have hentries := (TableOf.worded_iff.1 hv).2
    show indentBy k (allChars (t.pieces (level + 1))) = allChars (t.pieces (level + k + 1))
    rw [Nat.add_right_comm]
    exact TableOf.indentBy_pieces_of_forall hv fun e he => ih e he (hentries e he).2 (level + 1)

/-! ## Inside of others -/

theorem TableOf.infix_pieces {t : Table} {e : Key × Value} (he : e ∈ t.written) (level : Nat) :
    e.2.pieces level <:+: t.pieces level := by
  have hentry : e.2.pieces level <:+: entry level t.mustIndent e.1 (e.2.pieces level) :=
    List.infix_append _ _ _
  have hentries : entry level t.mustIndent e.1 (e.2.pieces level) <:+:
      t.written.flatMap fun e => entry level t.mustIndent e.1 (e.2.pieces level) :=
    List.infix_of_mem_flatten (List.mem_map_of_mem he)
  rw [pieces_eq]
  exact (hentry.trans hentries).trans (List.infix_append _ _ _)

theorem Value.infix_itemPieces {items : List Value} {v : Value}
    (hv : v ∈ items.filter (!·.isNull)) (level : Nat) :
    v.pieces level <:+: itemPieces level items := by
  have hitem : v.pieces level <:+: .tabs level :: v.pieces level ++ [.text ",", .newline] :=
    List.infix_append [_] _ _
  rw [itemPieces_eq]
  exact hitem.trans (List.infix_of_mem_flatten (List.mem_map_of_mem hv))

namespace Value.HoldsAt

variable {depth : Nat} {v : Value} {t : Table}

theorem isNull_eq_false (h : v.HoldsAt depth (.table t)) : v.isNull = false := by
  cases v with
  | null => cases h
  | _ => rfl

theorem worded {w : Wording} {u : Value} (h : v.HoldsAt depth u) (hv : v.worded w = true) :
    u.worded w = true := by
  induction h with
  | self => exact hv
  | entry he _ ih => exact ih ((TableOf.worded_iff.1 hv).2 _ he).2
  | item hv' _ ih => exact ih (worded_sequence.1 hv _ hv')

/-- A table is written inside of others at its depth. -/
theorem infix_pieces (h : v.HoldsAt depth (.table t)) (level : Nat) :
    t.pieces (level + depth + 1) <:+: v.pieces level := by
  generalize hu : Value.table t = u at h
  induction h generalizing level with
  | self =>
    subst hu
    exact List.infix_rfl
  | @entry depth t' e _ he h ih =>
    subst hu
    have hwritten := TableOf.mem_written.2 ⟨he, h.isNull_eq_false⟩
    have hpieces := ih (level + 1) rfl
    rw [Nat.add_right_comm level 1] at hpieces
    exact hpieces.trans (TableOf.infix_pieces hwritten (level + 1))
  | @item depth items v _ hv h ih =>
    subst hu
    have hwritten : v ∈ items.filter (!·.isNull) :=
      List.mem_filter.2 ⟨hv, by rw [h.isNull_eq_false]; rfl⟩
    have hpieces := ih (level + 1) rfl
    rw [Nat.add_right_comm level 1] at hpieces
    have hitems := hpieces.trans (infix_itemPieces hwritten (level + 1))
    exact hitems.trans (List.infix_append [_, _] _ _)

end Value.HoldsAt

/-- **A value written deeper** has a text at both levels or at none, and the text is indented. -/
theorem Value.assemble_pieces_add (v : Value) (hv : v.worded .unbroken = true) (level k : Nat) :
    assemble (v.pieces (level + k)) = (assemble (v.pieces level)).map (indent k) := by
  have hfault : (v.pieces (level + k)).findSome? fault? = (v.pieces level).findSome? fault? := by
    rw [pieces_add, findSome?_fault?_map_shift]
  unfold assemble
  rw [hfault]
  cases (v.pieces level).findSome? fault? with
  | some cause => rfl
  | none =>
    rw [← v.indentBy_pieces hv level k]
    simp [Except.map, indent]

/-- The text of what is written before, of a part, and of what is written behind. -/
theorem Piece.assemble_append_eq_ok_iff {before part after : List Piece} {text : String} :
    assemble (before ++ part ++ after) = .ok text ↔
      ∃ a b c, assemble before = .ok a ∧ assemble part = .ok b ∧ assemble after = .ok c ∧
        text = a ++ b ++ c := by
  simp only [assemble_eq_ok_iff, List.forall_mem_append, allChars_append, String.ofList_append]
  constructor
  · rintro ⟨⟨⟨hbefore, hpart⟩, hafter⟩, rfl⟩
    exact ⟨_, _, _, ⟨hbefore, rfl⟩, ⟨hpart, rfl⟩, ⟨hafter, rfl⟩, rfl⟩
  · rintro ⟨_, _, _, ⟨hbefore, rfl⟩, ⟨hpart, rfl⟩, ⟨hafter, rfl⟩, rfl⟩
    exact ⟨⟨⟨hbefore, hpart⟩, hafter⟩, rfl⟩

/-- **Nesting only re-indents.** A value written `k` levels deeper has the same text with `k` tabs
added behind each line break, or no text at either level. So a table as a value has its text
with one tab added, and a table inside of others is written with its own text, with as many tabs
added as it is deep. (The text of a table is written at the level `0`, and that of a value at the
level `1`.) -/
theorem nesting_reindents (v : Value) (hv : v.worded .unbroken = true) :
    (∀ level k, assemble (v.pieces (level + k)) = (assemble (v.pieces level)).map (indent k)) ∧
    (∀ t, v = .table t → v.render = t.render.map (indent 1)) ∧
    ∀ depth t, v.HoldsAt depth (.table t) → ∀ level, ∃ before after,
      v.pieces level = before ++ t.pieces (level + depth + 1) ++ after ∧
      ∀ text, assemble (v.pieces level) = .ok text → ∃ a b c, assemble before = .ok a ∧
        t.render = .ok b ∧ assemble after = .ok c ∧ text = a ++ indent (level + depth) b ++ c := by
  refine ⟨v.assemble_pieces_add hv, ?_, ?_⟩
  · rintro t rfl
    exact (Value.table t).assemble_pieces_add hv 0 1
  · intro depth t h level
    obtain ⟨before, after, hpieces⟩ := h.infix_pieces level
    refine ⟨before, after, hpieces.symm, ?_⟩
    intro text htext
    rw [← hpieces] at htext
    obtain ⟨a, b, c, ha, hb, hc, rfl⟩ := assemble_append_eq_ok_iff.1 htext
    -- the table on its own is written at the level `0`
    have hown := (Value.table t).assemble_pieces_add (h.worded hv) 0 (level + depth)
    rw [Nat.zero_add] at hown
    have hinside : .ok b = t.render.map (indent (level + depth)) := hb.symm.trans hown
    cases hrender : t.render with
    | error cause =>
      rw [hrender] at hinside
      cases hinside
    | ok inner =>
      rw [hrender] at hinside
      cases hinside
      exact ⟨a, inner, c, ha, rfl, hc, rfl⟩

/-- A block on one line of the table around it, written as a value. -/
theorem nesting_reindents_twoEntries :
    let v := Value.table (.oneLineAround (.table .twoEntries))
    v.worded .unbroken = true ∧ v.HoldsAt 1 (.table .twoEntries) ∧ ∃ before after,
      v.pieces 1 = before ++ TableOf.twoEntries.pieces 3 ++ after ∧
      ∀ text, v.render = .ok text → ∃ a b c, assemble before = .ok a ∧
        TableOf.twoEntries.render = .ok b ∧ assemble after = .ok c ∧
        text = a ++ indent 2 b ++ c := by
  have hworded : (Value.table (.oneLineAround (.table .twoEntries))).worded .unbroken = true := by
    decide
  have hinside : (Value.table (.oneLineAround (.table .twoEntries))).HoldsAt 1
      (.table .twoEntries) :=
    .entry List.mem_cons_self (.self _)
  exact ⟨hworded, hinside, (nesting_reindents _ hworded).2.2 1 _ hinside 1⟩

end SceneScript
