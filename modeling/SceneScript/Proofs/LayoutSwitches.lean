import Mathlib.Data.List.Basic
import SceneScript.Proofs.KeyOrder
import SceneScript.Proofs.ValueTree
import SceneScript.Render

/-!
# Layout does not change content

Two switches of a table ask for a block or for one line. `withoutLayout` turns both off at every
depth, so two trees differ in nothing but these switches exactly if they agree without layout.

Each table picks block or line from its own switches and from what is inside it, so two such trees
are written along different branches at many nodes. What the branches share is their *content*: the
pieces that are neither line breaks nor tabs nor notes for the trace. A tree and the tree without
layout have the same content, whatever the two levels are; a fault shows the member of a tuple it is
about with all switches, so faults agree only after those are turned off as well.

Main statements:

- `Value.content_pieces`: a value has the content it has without layout;
- `render_of_withoutLayout_eq`: trees that differ in layout switches only are both written, with the
  same text but for line breaks and tabs, or both fail for the same cause.
-/

namespace SceneScript

/-! ## Turning the switches off -/

mutual

/-- A value with all layout switches inside it turned off. -/
def Value.withoutLayout : Value → Value
  | .table t => .table t.withoutLayout
  | .sequence items => .sequence (Value.allWithoutLayout items)
  | .tuple items => .tuple (Value.allWithoutLayout items)
  | v => v
termination_by structural v => v

def Value.allWithoutLayout : List Value → List Value
  | [] => []
  | v :: rest => v.withoutLayout :: Value.allWithoutLayout rest
termination_by structural l => l

/-- A table with its layout switches, and all of those inside it, turned off. -/
def TableOf.withoutLayout : TableOf Value → TableOf Value
  | ⟨name, ⟨entries⟩, _, _, ordered⟩ =>
    ⟨name, ⟨Value.entriesWithoutLayout entries⟩, false, false, ordered⟩
termination_by structural t => t

def Value.entriesWithoutLayout : List (Key × Value) → List (Key × Value)
  | [] => []
  | (k, v) :: rest => (k, v.withoutLayout) :: Value.entriesWithoutLayout rest
termination_by structural l => l

end

/-- The cause of a fault, with the layout switches of the value it shows turned off. -/
def Unsupported.withoutLayout : Unsupported → Unsupported
  | .tupleMember v => .tupleMember v.withoutLayout
  | .tableKey v => .tableKey v.withoutLayout
  | .published v => .published v.withoutLayout
  | cause => cause

namespace Value

theorem allWithoutLayout_eq (items : List Value) :
    allWithoutLayout items = items.map withoutLayout := by
  induction items with
  | nil => rfl
  | cons v rest ih => rw [List.map_cons, ← ih]; rfl

theorem entriesWithoutLayout_eq (entries : List (Key × Value)) :
    entriesWithoutLayout entries = entries.map (fun e => (e.1, e.2.withoutLayout)) := by
  induction entries with
  | nil => rfl
  | cons e rest ih => rw [List.map_cons, ← ih]; rfl

@[simp] theorem isNull_withoutLayout (v : Value) : v.withoutLayout.isNull = v.isNull := by
  cases v <;> rfl

end Value

namespace TableOf

theorem withoutLayout_eq (t : TableOf Value) :
    t.withoutLayout =
      ⟨t.name, ⟨Value.entriesWithoutLayout t.entries.toList⟩, false, false, t.ordered⟩ := by
  obtain ⟨name, ⟨entries⟩, forceIndent, forceUnindent, ordered⟩ := t
  rfl

/-- The same entries are written, in the same order. -/
theorem written_withoutLayout (t : TableOf Value) :
    t.withoutLayout.written = t.written.map (fun e => (e.1, e.2.withoutLayout)) := by
  rw [withoutLayout_eq, written, arranged, Value.entriesWithoutLayout_eq, arrange_map]
  exact filter_entries_map Value.isNull_withoutLayout t.arranged

end TableOf

/-! ## Content -/

namespace Piece

/-- What is left of a piece without layout: its text, or its fault with the cause read by `g`. -/
def content? (g : Unsupported → Unsupported) : Piece → Option Piece
  | .text s => some (.text s)
  | .fault cause => some (.fault (g cause))
  | _ => none

/-- Whether a list of pieces has the content of another one whose switches are off. -/
def ContentEq (ps qs : List Piece) : Prop :=
  ps.filterMap (content? Unsupported.withoutLayout) = qs.filterMap (content? id)

theorem ContentEq.append {ps qs ps' qs' : List Piece} (h : ContentEq ps qs)
    (h' : ContentEq ps' qs') : ContentEq (ps ++ ps') (qs ++ qs') := by
  rw [ContentEq, List.filterMap_append, List.filterMap_append, h, h']

theorem ContentEq.text_cons {ps qs : List Piece} (s : String) (h : ContentEq ps qs) :
    ContentEq (.text s :: ps) (.text s :: qs) :=
  congrArg (Piece.text s :: ·) h

theorem contentEq_flatMap {α : Type} {f g : α → List Piece} {l : List α}
    (h : ∀ a ∈ l, ContentEq (f a) (g a)) : ContentEq (l.flatMap f) (l.flatMap g) := by
  induction l with
  | nil => rfl
  | cons a rest ih =>
    rw [List.flatMap_cons, List.flatMap_cons]
    exact (h a List.mem_cons_self).append (ih fun b hb => h b (List.mem_cons_of_mem a hb))

/-- A line break or an indentation has no content, whether it is written or not. -/
theorem contentEq_inBlock (block block' : Bool) {p q : Piece}
    (hp : p.content? Unsupported.withoutLayout = none) (hq : q.content? id = none) :
    ContentEq (inBlock block p) (inBlock block' q) := by
  cases block <;> cases block' <;> simp [inBlock, ContentEq, hp, hq]

theorem contentEq_ofNumber (n : Number) : ContentEq [ofNumber n] [ofNumber n] := by
  unfold ofNumber
  split <;> rfl

theorem contentEq_ofKey (k : Key) : ContentEq (ofKey k) (ofKey k) := by
  cases k with
  | frame n =>
    have hfinite : ContentEq (if n.isFinite then [] else [.fault (.notFinite n)])
        (if n.isFinite then [] else [.fault (.notFinite n)]) := by
      split <;> rfl
    exact hfinite.append rfl
  | _ => rfl

theorem contentEq_opening (name : String) (block block' : Bool) :
    ContentEq (opening name block) (opening name block') := by
  have hname : ContentEq (if name.isEmpty then [] else [.text name, .text " "])
      (if name.isEmpty then [] else [.text name, .text " "]) := by
    split <;> rfl
  exact hname.append (.text_cons _ (contentEq_inBlock block block' rfl rfl))

theorem contentEq_closing (level level' : Nat) (block block' : Bool) :
    ContentEq (closing level block) (closing level' block') :=
  (contentEq_inBlock block block' rfl rfl).append rfl

theorem contentEq_entry (level level' : Nat) (block block' : Bool) (k : Key) {ps qs : List Piece}
    (h : ContentEq ps qs) : ContentEq (entry level block k ps) (entry level' block' k qs) := by
  have hcomma : ContentEq [.text ", "] [.text ", "] := rfl
  exact (((contentEq_inBlock block block' rfl rfl).append (contentEq_ofKey k)).append h).append
    (hcomma.append (contentEq_inBlock block block' rfl rfl))

theorem contentEq_ofScalar (v : Value) : ContentEq (ofScalar v) (ofScalar v.withoutLayout) := by
  cases v with
  | number n => exact contentEq_ofNumber n
  | _ => rfl

theorem contentEq_ofTuple (items : List Value) :
    ContentEq (ofTuple items) (ofTuple (items.map Value.withoutLayout)) := by
  cases items with
  | nil => rfl
  | cons first rest =>
    have hrest : ContentEq (rest.flatMap (fun v => .text ", " :: ofScalar v))
        ((rest.map Value.withoutLayout).flatMap (fun v => .text ", " :: ofScalar v)) := by
      rw [List.flatMap_map]
      exact contentEq_flatMap fun v _ => .text_cons _ (contentEq_ofScalar v)
    exact ((ContentEq.text_cons _ (contentEq_ofScalar first)).append hrest).append rfl

end Piece

open Piece (ContentEq contentEq_flatMap)

/-- A table has the content it has without layout, if its values do. -/
theorem TableOf.content_pieces_of_forall {t : TableOf Value} {level level' : Nat}
    (h : ∀ e ∈ t.entries.toList,
      ContentEq (e.2.pieces level) (e.2.withoutLayout.pieces level')) :
    ContentEq (t.pieces level) (t.withoutLayout.pieces level') := by
  have hname : t.withoutLayout.name = t.name := by rw [withoutLayout_eq]
  rw [pieces_eq, pieces_eq, hname, written_withoutLayout, List.flatMap_map]
  have hentries := contentEq_flatMap fun e he =>
    Piece.contentEq_entry level level' t.mustIndent t.withoutLayout.mustIndent e.1
      (h e (mem_written.1 he).1)
  exact ((Piece.contentEq_opening t.name _ _).append hentries).append
    (Piece.contentEq_closing level level' _ _)

/-- A value has the content it has without layout, whatever the levels are. -/
theorem Value.content_pieces (v : Value) (level level' : Nat) :
    ContentEq (v.pieces level) (v.withoutLayout.pieces level') := by
  induction v generalizing level level' with
  | number n => exact Piece.contentEq_ofNumber n
  | tuple items _ =>
    show ContentEq (Piece.ofTuple items) (Piece.ofTuple (allWithoutLayout items))
    rw [allWithoutLayout_eq]
    exact Piece.contentEq_ofTuple items
  | sequence items ih =>
    have hitems : ContentEq (itemPieces (level + 1) items)
        (itemPieces (level' + 1) (items.map withoutLayout)) := by
      rw [itemPieces_eq, itemPieces_eq, filter_items_map isNull_withoutLayout, List.flatMap_map]
      refine contentEq_flatMap ?_
      intro v hv
      have hcomma : ContentEq [.text ",", .newline] [.text ",", .newline] := rfl
      exact (ih v (List.mem_filter.1 hv).1 (level + 1) (level' + 1)).append hcomma
    show ContentEq _
      (.text "[" :: .newline :: itemPieces (level' + 1) (allWithoutLayout items) ++ _)
    rw [allWithoutLayout_eq]
    exact .text_cons _ (hitems.append rfl)
  | table t ih =>
    exact TableOf.content_pieces_of_forall fun e he => ih e he (level + 1) (level' + 1)
  | _ => rfl

/-! ## Texts -/

/-- Whether a character is more than a line break or a tab. -/
def Text.isInk (c : Char) : Bool := c != '\n' && c != '\t'

/-- A text with every line break and every tab deleted. -/
def Text.inked (s : String) : String := String.ofList (s.toList.filter Text.isInk)

namespace Piece

/-- All ink of a text is in its content. -/
theorem filter_isInk_allChars (g : Unsupported → Unsupported) (ps : List Piece) :
    (allChars ps).filter Text.isInk =
      (allChars (ps.filterMap (content? g))).filter Text.isInk := by
  induction ps with
  | nil => rfl
  | cons p rest ih =>
    have hp : allChars (p :: rest) = p.chars ++ allChars rest := rfl
    rw [hp, List.filter_append, ih, List.filterMap_cons]
    cases p with
    | text s => exact (List.filter_append _ _).symm
    | tabs n => simp [chars, content?, Text.isInk]
    | _ => rfl

/-- The first fault is the first one of the content. -/
theorem findSome?_fault? (g : Unsupported → Unsupported) (ps : List Piece) :
    (ps.findSome? fault?).map g = (ps.filterMap (content? g)).findSome? fault? := by
  induction ps with
  | nil => rfl
  | cons p rest ih =>
    rw [List.findSome?_cons, List.filterMap_cons]
    cases p with
    | fault cause => rfl
    | text s =>
      show (rest.findSome? fault?).map g = (.text s :: rest.filterMap (content? g)).findSome? fault?
      rw [List.findSome?_cons, ih]
      rfl
    | _ => exact ih

/-- Lists of pieces with the same content have the same text but for line breaks and tabs, or the
same fault but for layout switches. -/
theorem ContentEq.assemble {ps qs : List Piece} (h : ContentEq ps qs) :
    (∃ a b, assemble ps = .ok a ∧ assemble qs = .ok b ∧ Text.inked a = Text.inked b) ∨
      ∃ c, assemble ps = .error c ∧ assemble qs = .error c.withoutLayout := by
  have hfault : (ps.findSome? fault?).map Unsupported.withoutLayout = qs.findSome? fault? := by
    rw [findSome?_fault?, h, ← findSome?_fault?, Option.map_id, id]
  -- the first fault decides, and it is the same one on both sides
  cases hps : ps.findSome? fault? with
  | some c =>
    have hqs : qs.findSome? fault? = some c.withoutLayout := by rw [← hfault, hps]; rfl
    exact .inr ⟨c, by rw [Piece.assemble, hps], by rw [Piece.assemble, hqs]⟩
  | none =>
    have hqs : qs.findSome? fault? = none := by rw [← hfault, hps]; rfl
    refine .inl ⟨_, _, by rw [Piece.assemble, hps], by rw [Piece.assemble, hqs], ?_⟩
    rw [Text.inked, Text.inked, String.toList_ofList, String.toList_ofList,
      filter_isInk_allChars Unsupported.withoutLayout, h, ← filter_isInk_allChars id]

end Piece

/-- A table is written with the ink of the table without layout, or it fails like that one. -/
theorem TableOf.render_withoutLayout (t : Table) :
    (∃ a b, t.render = .ok a ∧ t.withoutLayout.render = .ok b ∧ Text.inked a = Text.inked b) ∨
      ∃ c, t.render = .error c ∧ t.withoutLayout.render = .error c.withoutLayout :=
  (content_pieces_of_forall fun e _ => Value.content_pieces e.2 1 1).assemble

/-- **Layout does not change content**: two trees that differ in layout switches only, at any depth,
are both written, and with the same text but for line breaks and tabs, or both fail because of an
unsupported value, and for the same cause but for the switches of the value it shows. -/
theorem render_of_withoutLayout_eq {t u : Table} (h : t.withoutLayout = u.withoutLayout) :
    (∃ a b, t.render = .ok a ∧ u.render = .ok b ∧ Text.inked a = Text.inked b) ∨
      ∃ c d, t.render = .error c ∧ u.render = .error d ∧ c.withoutLayout = d.withoutLayout := by
  -- both are compared with the tree without layout, which they share
  rcases t.render_withoutLayout with ⟨a, a', ha, ha', hinka⟩ | ⟨c, hc, hc'⟩ <;>
    rcases u.render_withoutLayout with ⟨b, b', hb, hb', hinkb⟩ | ⟨d, hd, hd'⟩
  · rw [h, hb'] at ha'
    obtain rfl : b' = a' := Except.ok.inj ha'
    exact .inl ⟨a, b, ha, hb, hinka.trans hinkb.symm⟩
  · rw [h, hd'] at ha'
    cases ha'
  · rw [h, hb'] at hc'
    cases hc'
  · rw [h, hd'] at hc'
    exact .inr ⟨c, d, hc, hd, (Except.error.inj hc').symm⟩

/-- A table with one entry in a table with one entry, each of them a block or one line as asked. -/
def TableOf.nestedOnce (outerBlock innerBlock : Bool) : Table :=
  let inner : Table := ⟨"", ⟨[(.index 0, .int 8)]⟩, innerBlock, !innerBlock, false⟩
  ⟨"Tool", ⟨[(.name "Inputs", .table inner)]⟩, outerBlock, !outerBlock, false⟩

theorem render_of_withoutLayout_eq_nestedOnce :
    (TableOf.nestedOnce false true).withoutLayout =
      (TableOf.nestedOnce true false).withoutLayout ∧
    ((∃ a b, (TableOf.nestedOnce false true).render = .ok a ∧
        (TableOf.nestedOnce true false).render = .ok b ∧ Text.inked a = Text.inked b) ∨
      ∃ c d, (TableOf.nestedOnce false true).render = .error c ∧
        (TableOf.nestedOnce true false).render = .error d ∧
        c.withoutLayout = d.withoutLayout) :=
  ⟨rfl, render_of_withoutLayout_eq rfl⟩

end SceneScript
