import SceneScript.Layout
import SceneScript.Piece

/-!
# Scene text

A table is its tag, an opening brace, its entries and a closing brace. In a block every entry stands
on its own line behind as many tabs as the level of the table, and the closing brace behind one tab
less; a table or sequence inside is one level deeper, block or not. Entries at positions have no key
in the text, and entries that hold nothing have no text at all.

Main statements:

- `pieces_eq`: a table is written entry by entry in the order of its keys or of insertion;
- `render_eq_ok_iff`: a table has a text exactly if none of its pieces is a fault.
-/

namespace SceneScript

namespace Piece

/-- The text of a number, which has to be finite. -/
def ofNumber (n : Number) : Piece := if n.isFinite then .text n.text else .fault (.notFinite n)

/-- A key and the sign behind it; positions are not written. -/
def ofKey : Key → List Piece
  | .index _ => []
  | .frame n => (if n.isFinite then [] else [.fault (.notFinite n)]) ++
      [.text (Key.frame n).text, .text " = "]
  | .name s => [.text (Key.name s).text, .text " = "]

/-- Line breaks and indentation are written in blocks only. -/
def inBlock (block : Bool) (p : Piece) : List Piece := if block then [p] else []

/-- The opening of a table: its tag, the brace, and a line break in a block. -/
def opening (name : String) (block : Bool) : List Piece :=
  (if name.isEmpty then [] else [.text name, .text " "]) ++ .text "\x7b " :: inBlock block .newline

/-- The closing of a table at a level. -/
def closing (level : Nat) (block : Bool) : List Piece :=
  inBlock block (.tabs (level - 1)) ++ [.text "\x7d"]

/-- One entry of a table at a level, from the pieces of its value. -/
def entry (level : Nat) (block : Bool) (k : Key) (value : List Piece) : List Piece :=
  inBlock block (.tabs level) ++ ofKey k ++ value ++ .text ", " :: inBlock block .newline

/-- A scalar; anything else is a fault of the tuple around it. -/
def ofScalar : Value → List Piece
  | .bool b => [.text (if b then "true" else "false")]
  | .number n => [ofNumber n]
  | .text s => [.text "\"", .text s, .text "\""]
  | .fuId s => [.text "FuID \x7b \"", .text s, .text "\" \x7d"]
  | other => [.fault (.tupleMember other)]

/-- A tuple: its members between braces, with commas between them. -/
def ofTuple : List Value → List Piece
  | [] => [.text "\x7b \x7d"]
  | first :: rest =>
    .text "\x7b " :: ofScalar first ++ rest.flatMap (fun v => .text ", " :: ofScalar v) ++
      [.text " \x7d"]

end Piece

mutual

/-- The pieces of a value inside a table at the given level. -/
def Value.pieces (level : Nat) : Value → List Piece
  | .null => [.fault .null]
  | .table t => t.pieces (level + 1)
  | .sequence items =>
    .text "[" :: .newline :: Value.itemPieces (level + 1) items ++ [.tabs level, .text "]"]
  | .tuple items => Piece.ofTuple items
  | .bool b => Piece.ofScalar (.bool b)
  | .number n => Piece.ofScalar (.number n)
  | .text s => Piece.ofScalar (.text s)
  | .fuId s => Piece.ofScalar (.fuId s)
termination_by structural v => v

/-- The items of a sequence, one line each. -/
def Value.itemPieces (level : Nat) : List Value → List Piece
  | [] => []
  | v :: rest =>
    (if v.isNull then [] else .tabs level :: v.pieces level ++ [.text ",", .newline]) ++
      Value.itemPieces level rest
termination_by structural l => l

/-- The pieces of a table at the given level. -/
def TableOf.pieces (level : Nat) : TableOf Value → List Piece
  | ⟨name, ⟨entries⟩, forceIndent, forceUnindent, ordered⟩ =>
    let block := TableOf.mustIndent ⟨name, ⟨entries⟩, forceIndent, forceUnindent, ordered⟩
    .visit ⟨name, level, block⟩ :: Piece.opening name block ++
      (TableOf.arrange ordered Prod.fst (Value.entryPieces level block entries)).flatMap Prod.snd ++
      Piece.closing level block
termination_by structural t => t

/-- The entries, each with its pieces; one that holds nothing has none. -/
def Value.entryPieces (level : Nat) (block : Bool) : List (Key × Value) → List (Key × List Piece)
  | [] => []
  | (k, v) :: rest =>
    (k, if v.isNull then [] else Piece.entry level block k (v.pieces level)) ::
      Value.entryPieces level block rest
termination_by structural l => l

end

theorem Value.entryPieces_eq (level : Nat) (block : Bool) (entries : List (Key × Value)) :
    Value.entryPieces level block entries =
      entries.map (fun e =>
        (e.1, if e.2.isNull then [] else Piece.entry level block e.1 (e.2.pieces level))) := by
  induction entries with
  | nil => rfl
  | cons e rest ih => rw [List.map_cons, ← ih]; rfl

theorem Value.itemPieces_eq (level : Nat) (items : List Value) :
    Value.itemPieces level items =
      (items.filter (!·.isNull)).flatMap
        (fun v => .tabs level :: v.pieces level ++ [.text ",", .newline]) := by
  induction items with
  | nil => rfl
  | cons v rest ih => cases h : v.isNull <;> simp [Value.itemPieces, h, ih]

/-- What has no pieces may be left out. -/
theorem flatMap_ite_nil {α : Type} (p : α → Bool) (f : α → List Piece) (l : List α) :
    l.flatMap (fun a => if p a then [] else f a) = (l.filter (!p ·)).flatMap f := by
  induction l with
  | nil => rfl
  | cons a rest ih => cases h : p a <;> simp [h, ih]

/-- A table is written entry by entry, in the order of `written`. -/
theorem TableOf.pieces_eq (level : Nat) (t : TableOf Value) :
    t.pieces level = .visit ⟨t.name, level, t.mustIndent⟩ :: Piece.opening t.name t.mustIndent ++
      t.written.flatMap (fun e => Piece.entry level t.mustIndent e.1 (e.2.pieces level)) ++
      Piece.closing level t.mustIndent := by
  obtain ⟨name, ⟨entries⟩, forceIndent, forceUnindent, ordered⟩ := t
  rw [TableOf.pieces, Value.entryPieces_eq, TableOf.arrange_map, List.flatMap_map,
    flatMap_ite_nil]
  rfl

namespace Value

/-- The text of a value on its own. -/
def render (v : Value) : Except Unsupported String := Piece.assemble (v.pieces 1)

/-- The tables begun in writing a value on its own. -/
def trace (v : Value) : List Visit := Piece.trace (v.pieces 1)

end Value

namespace TableOf

/-- The text of a table. -/
def render (t : TableOf Value) : Except Unsupported String := Piece.assemble (t.pieces 1)

/-- The tables begun in writing a table. -/
def trace (t : TableOf Value) : List Visit := Piece.trace (t.pieces 1)

theorem render_eq_ok_iff {t : TableOf Value} {s : String} :
    t.render = .ok s ↔
      (∀ p ∈ t.pieces 1, p.fault? = none) ∧ s = String.ofList (Piece.allChars (t.pieces 1)) :=
  Piece.assemble_eq_ok_iff

end TableOf

end SceneScript
