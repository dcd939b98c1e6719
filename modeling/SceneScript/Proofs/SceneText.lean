import Mathlib.Data.List.Basic
import SceneScript.Render

/-!
# Scene text as characters

What each writer adds to the text, without the faults and the notes for the trace. A table is a tag
and its inside between braces, where the inside is one `line` for each entry that is written; layout
stands around lines and in front of the closing brace only.

Main statements:

- `TableOf.allChars_pieces`, `Value.allChars_sequence`, `Piece.allChars_ofTuple`: tables, sequences
  and tuples as characters.
-/

namespace SceneScript

namespace Piece

/-! ## Writers -/

/-- The tag of a table and the blank behind it. -/
def tagChars (name : String) : List Char := if name.isEmpty then [] else name.toList ++ [' ']

/-- The end of a line, in blocks only. -/
def breakChars (block : Bool) : List Char := if block then ['\n'] else []

/-- The indentation of a line, in blocks only. -/
def tabChars (block : Bool) (level : Nat) : List Char :=
  if block then List.replicate level '\t' else []

/-- A key and the sign behind it. -/
def keyChars : Key → List Char
  | .index _ => []
  | .frame n => '[' :: n.text.toList ++ [']', ' ', '=', ' ']
  | .name s => s.toList ++ [' ', '=', ' ']

/-- An entry without the layout around it. -/
def line (level : Nat) (e : Key × Value) : List Char :=
  keyChars e.1 ++ allChars (e.2.pieces level) ++ [',', ' ']

theorem allChars_ofKey (k : Key) : allChars (ofKey k) = keyChars k := by
  cases k with
  | index i => rfl
  | name s => simp [ofKey, keyChars, chars]
  | frame n =>
    have hfault : allChars (if n.isFinite then [] else [.fault (.notFinite n)]) = [] := by
      split <;> rfl
    rw [ofKey, allChars_append, hfault]
    simp [keyChars, chars, Key.text]

theorem allChars_entry (level : Nat) (block : Bool) (e : Key × Value) :
    allChars (entry level block e.1 (e.2.pieces level)) =
      tabChars block level ++ line level e ++ breakChars block := by
  cases block <;>
    simp [entry, inBlock, allChars_ofKey, tabChars, line, breakChars, chars]

theorem allChars_opening (name : String) (block : Bool) :
    allChars (opening name block) = tagChars name ++ '{' :: ' ' :: breakChars block := by
  unfold opening tagChars
  cases block <;> split <;> simp [inBlock, breakChars, chars]

theorem allChars_closing (level : Nat) (block : Bool) :
    allChars (closing level block) = tabChars block (level - 1) ++ ['}'] := by
  cases block <;> simp [closing, inBlock, tabChars, chars]

theorem allChars_fuId (s : String) :
    allChars (ofScalar (.fuId s)) =
      ['F', 'u', 'I', 'D', ' '] ++ ('{' :: ([' ', '"'] ++ s.toList ++ ['"', ' ']) ++ ['}']) := by
  simp [ofScalar, chars]

theorem allChars_text (s : String) :
    allChars (ofScalar (.text s)) = '"' :: s.toList ++ ['"'] := by
  simp [ofScalar, chars]

theorem allChars_ofTuple (first : Value) (rest : List Value) :
    allChars (ofTuple (first :: rest)) =
      '{' :: ' ' :: allChars (ofScalar first) ++
        rest.flatMap (fun v => ',' :: ' ' :: allChars (ofScalar v)) ++ [' ', '}'] := by
  simp [ofTuple, chars, allChars_flatMap]

end Piece

open Piece

/-- What stands between the braces of a table at a level. -/
def TableOf.inside (level : Nat) (t : TableOf Value) : List Char :=
  ' ' :: breakChars t.mustIndent ++
    t.written.flatMap (fun e =>
      tabChars t.mustIndent level ++ line level e ++ breakChars t.mustIndent) ++
    tabChars t.mustIndent (level - 1)

theorem TableOf.allChars_pieces (level : Nat) (t : TableOf Value) :
    allChars (t.pieces level) = tagChars t.name ++ ('{' :: t.inside level ++ ['}']) := by
  rw [pieces_eq, allChars_append, allChars_append, allChars_flatMap, allChars_cons,
    allChars_opening, allChars_closing]
  simp [allChars_entry, inside, chars]

theorem Value.allChars_sequence (level : Nat) (items : List Value) :
    allChars ((Value.sequence items).pieces level) =
      '[' :: '\n' :: (items.filter (!·.isNull)).flatMap (fun v =>
        List.replicate (level + 1) '\t' ++ allChars (v.pieces (level + 1)) ++ [',', '\n']) ++
        List.replicate level '\t' ++ [']'] := by
  have hpieces : (Value.sequence items).pieces level =
      .text "[" :: .newline :: itemPieces (level + 1) items ++ [.tabs level, .text "]"] := rfl
  rw [hpieces, itemPieces_eq]
  simp [chars, allChars_flatMap]

end SceneScript
