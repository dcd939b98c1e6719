import SceneScript.Error

/-!
# Pieces of scene text

Writing a table yields pieces: text, line breaks, indentation, a note for every table that is begun,
and a fault where something has no text. The text of a list of pieces exists if there is no fault in
it; otherwise the first fault decides. The notes before the first fault are the trace.

Main statements:

- `assemble_eq_ok_iff`: there is a text exactly if there is no fault, and then it is all text pieces
  in order;
- `trace_of_faultless`: without a fault every visit is traced.
-/

namespace SceneScript

/-- A table that is begun: its tag, its level, and whether it is a block. -/
structure Visit where
  name : String
  level : Nat
  block : Bool
deriving DecidableEq

/-- One step of writing. -/
inductive Piece
  | text (content : String)
  | newline
  | tabs (count : Nat)
  | visit (visit : Visit)
  | fault (cause : Unsupported)

namespace Piece

/-- The characters a piece adds to the text. -/
def chars : Piece → List Char
  | .text s => s.toList
  | .newline => ['\n']
  | .tabs n => List.replicate n '\t'
  | .visit _ => []
  | .fault _ => []

def fault? : Piece → Option Unsupported
  | .fault cause => some cause
  | _ => none

def visit? : Piece → Option Visit
  | .visit v => some v
  | _ => none

/-- The characters of a list of pieces. -/
def allChars (pieces : List Piece) : List Char := pieces.flatMap chars

/-- The text of a list of pieces, or its first fault. -/
def assemble (pieces : List Piece) : Except Unsupported String :=
  match pieces.findSome? fault? with
  | some cause => .error cause
  | none => .ok (String.ofList (allChars pieces))

/-- The tables begun before the first fault, in order. -/
def trace (pieces : List Piece) : List Visit :=
  (pieces.takeWhile (·.fault?.isNone)).filterMap visit?

@[simp] theorem allChars_nil : allChars [] = [] := rfl

@[simp] theorem allChars_cons (p : Piece) (ps : List Piece) :
    allChars (p :: ps) = p.chars ++ allChars ps := rfl

@[simp] theorem allChars_append (ps qs : List Piece) :
    allChars (ps ++ qs) = allChars ps ++ allChars qs :=
  List.flatMap_append

theorem allChars_flatMap {α : Type} (f : α → List Piece) (l : List α) :
    allChars (l.flatMap f) = l.flatMap (fun a => allChars (f a)) :=
  List.flatMap_assoc

theorem assemble_eq_ok_iff {pieces : List Piece} {s : String} :
    assemble pieces = .ok s ↔
      (∀ p ∈ pieces, p.fault? = none) ∧ s = String.ofList (allChars pieces) := by
  unfold assemble
  cases h : pieces.findSome? fault? with
  | some cause =>
    obtain ⟨p, hp, hc⟩ := List.exists_of_findSome?_eq_some h
    simp only [reduceCtorEq, false_iff, not_and]
    intro hall
    simp [hall p hp] at hc
  | none =>
    simp only [List.findSome?_eq_none_iff] at h
    simp only [Except.ok.injEq]
    exact ⟨fun e => ⟨h, e.symm⟩, fun e => e.2.symm⟩

theorem trace_of_faultless {pieces : List Piece} (h : ∀ p ∈ pieces, p.fault? = none) :
    trace pieces = pieces.filterMap visit? := by
  have : pieces.takeWhile (·.fault?.isNone) = pieces := by
    induction pieces with
    | nil => rfl
    | cons p rest ih =>
      simp only [List.forall_mem_cons] at h
      simp [h.1, ih h.2]
  simp [trace, this]

end Piece

end SceneScript
