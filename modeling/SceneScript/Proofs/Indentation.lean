import SceneScript.Proofs.NumberText
import SceneScript.Proofs.SceneText
import SceneScript.Proofs.ValueTree

/-!
# Indentation is bracket depth

The level is handed down through tables, sequences and values, and each of them adds to it in its
own place. That it is right everywhere is one fact about the text: in front of every line stand as
many tabs as brackets are open there, or one less if the line begins by closing one.

A `Cursor` reads a text from left to right. It keeps the brackets that are open and, at the start of
a line, the tabs read so far; it stops at a bracket that closes nothing, and at a line that stands
behind too few tabs or too many. A text is `Steady` under some open brackets if a cursor that meets
it in the middle of a line comes out of it as it went in. The invariant is that a value is steady if
as many brackets are open as its level says.

Main statements:

- `Value.steady_pieces`: what is written for a value is steady under its level;
- `indentation_eq_depth`: brackets are balanced, and the tabs of a line tell its depth.
-/

namespace SceneScript

/-! ## Brackets -/

namespace Text

/-- The bracket that a character closes, if it closes one. -/
def closes? (c : Char) : Option Char :=
  if c = '}' then some '{' else if c = ']' then some '[' else none

theorem closes?_eq_some_iff {c b : Char} :
    closes? c = some b ↔ (c = '}' ∧ b = '{') ∨ (c = ']' ∧ b = '[') := by
  unfold closes?
  split
  · simp_all [eq_comm]
  · split <;> simp_all [eq_comm]

def isCloser (c : Char) : Bool := (closes? c).isSome

/-- The open brackets, innermost first, after one more character; there are none if it closes a
bracket that is not the innermost one. -/
def bracketStep (opened : List Char) (c : Char) : Option (List Char) :=
  match closes? c, opened with
  | some b, b' :: rest => if b = b' then some rest else none
  | some _, [] => none
  | none, _ => some (if c = '{' ∨ c = '[' then c :: opened else opened)

/-- The brackets that are open after a text, innermost first, unless one is closed that is not the
innermost one. -/
def openedBy (text : List Char) : Option (List Char) := text.foldlM bracketStep []

/-- How many tabs stand in front of a line. -/
def leadingTabs (line : List Char) : Nat := (line.takeWhile (· = '\t')).length

/-- Whether the first character of a line that is no tab closes a bracket. -/
def closesFirst (line : List Char) : Bool :=
  match line.dropWhile (· = '\t') with
  | c :: _ => isCloser c
  | [] => false

/-- Whether a line starts behind a text: at its very beginning, or behind a line break. -/
def StartsLine (before : List Char) : Prop := before = [] ∨ ∃ b, before = b ++ ['\n']

/-- Characters that are neither layout nor brackets. -/
def isOrdinary (c : Char) : Bool := !(['\n', '\t', '{', '}', '[', ']'].contains c)

end Text

/-- The wording without line breaks, tabs, braces and square brackets. -/
def Wording.ordinary : Wording := .everywhere fun s => s.toList.all Text.isOrdinary

open Text

/-! ## Reading a text from left to right -/

/-- Where a reader of a text is: the open brackets, and the tabs read so far if it has seen nothing
else on this line. -/
structure Cursor where
  opened : List Char
  column : Option Nat

namespace Cursor

/-- Behind a character that is no tab at the start of a line. -/
def advance (s : Cursor) (c : Char) : Option Cursor :=
  (bracketStep s.opened c).map fun opened => ⟨opened, if c = '\n' then some 0 else none⟩

/-- One character further. The first character of a line that is no tab has to stand as deep as
brackets are open, where a closing bracket counts for one tab. -/
def step (s : Cursor) (c : Char) : Option Cursor :=
  match s.column with
  | none => s.advance c
  | some n =>
    if c = '\t' then some ⟨s.opened, some (n + 1)⟩
    else if n + (if isCloser c then 1 else 0) = s.opened.length then s.advance c
    else none

/-- Behind a text, if it can be read to its end. -/
def run (s : Cursor) (text : List Char) : Option Cursor := text.foldlM step s

@[simp] theorem run_nil (s : Cursor) : s.run [] = some s := rfl

@[simp] theorem run_cons (s : Cursor) (c : Char) (text : List Char) :
    s.run (c :: text) = (s.step c).bind (·.run text) := rfl

theorem run_append (s : Cursor) (a b : List Char) : s.run (a ++ b) = (s.run a).bind (·.run b) :=
  List.foldlM_append

/-- Texts that lead back to where they start may follow each other. -/
theorem run_flatMap {α : Type} {s : Cursor} {f : α → List Char} {l : List α}
    (h : ∀ a ∈ l, s.run (f a) = some s) : s.run (l.flatMap f) = some s := by
  induction l with
  | nil => rfl
  | cons a rest ih =>
    rw [List.flatMap_cons, run_append, h a List.mem_cons_self]
    exact ih fun b hb => h b (List.mem_cons_of_mem a hb)

theorem run_tabs (opened : List Char) (n k : Nat) :
    run ⟨opened, some n⟩ (List.replicate k '\t') = some ⟨opened, some (n + k)⟩ := by
  induction k generalizing n with
  | zero => rfl
  | succ k ih =>
    rw [List.replicate_succ, run_cons]
    show run ⟨opened, some (n + 1)⟩ _ = _
    rw [ih, Nat.add_assoc, Nat.add_comm 1 k]

/-! ## Steady texts -/

/-- Whether a text may stand in the middle of a line, and, if it is not empty, behind the right
number of tabs. -/
structure Steady (opened : List Char) (text : List Char) : Prop where
  run_eq : run ⟨opened, none⟩ text = some ⟨opened, none⟩
  head_eq : ∀ c ∈ text.head?, c ≠ '\t' ∧ isCloser c = false

namespace Steady

variable {opened a b : List Char}

theorem nil : Steady opened [] := ⟨rfl, by simp⟩

theorem append (ha : Steady opened a) (hb : Steady opened b) : Steady opened (a ++ b) where
  run_eq := by
    rw [run_append, ha.run_eq]
    exact hb.run_eq
  head_eq := by
    cases a with
    | nil => exact hb.head_eq
    | cons c rest => exact ha.head_eq

theorem flatMap {α : Type} {f : α → List Char} {l : List α}
    (h : ∀ x ∈ l, Steady opened (f x)) : Steady opened (l.flatMap f) := by
  induction l with
  | nil => exact .nil
  | cons x rest ih =>
    rw [List.flatMap_cons]
    exact (h x List.mem_cons_self).append (ih fun y hy => h y (List.mem_cons_of_mem x hy))

/-- Text that is neither layout nor a bracket is steady under any brackets. -/
theorem of_ordinary (h : ∀ c ∈ a, isOrdinary c = true) : Steady opened a := by
  induction a with
  | nil => exact .nil
  | cons c rest ih =>
    obtain ⟨hc, hrest⟩ := List.forall_mem_cons.1 h
    have hchar : c ≠ '\n' ∧ c ≠ '\t' ∧ c ≠ '{' ∧ c ≠ '}' ∧ c ≠ '[' ∧ c ≠ ']' := by
      simpa [isOrdinary, not_or] using hc
    obtain ⟨hnewline, htab, hbrace, hbrace', hbracket, hbracket'⟩ := hchar
    have hcloses : closes? c = none := by simp [closes?, hbrace', hbracket']
    constructor
    · have hstep : step ⟨opened, none⟩ c = some ⟨opened, none⟩ := by
        simp [step, advance, bracketStep, hcloses, hnewline, hbrace, hbracket]
      rw [run_cons, hstep]
      exact (ih hrest).run_eq
    · rintro _ ⟨⟩
      exact ⟨htab, by simp [isCloser, hcloses]⟩

theorem of_all (h : a.all isOrdinary = true) : Steady opened a :=
  of_ordinary (List.all_eq_true.1 h)

/-- At the start of a line a steady text may stand behind as many tabs as brackets are open. -/
theorem run_fresh (h : Steady opened a) (ha : a ≠ []) :
    run ⟨opened, some opened.length⟩ a = some ⟨opened, none⟩ := by
  obtain ⟨c, rest, rfl⟩ := List.exists_cons_of_ne_nil ha
  obtain ⟨htab, hcloser⟩ := h.head_eq c rfl
  have hstep : step ⟨opened, some opened.length⟩ c = step ⟨opened, none⟩ c := by
    simp [step, advance, htab, hcloser]
  rw [run_cons, hstep]
  exact h.run_eq

/-- A line of its own. -/
theorem run_line (h : Steady opened a) (ha : a ≠ []) :
    run ⟨opened, some 0⟩ (List.replicate opened.length '\t' ++ a ++ ['\n']) =
      some ⟨opened, some 0⟩ := by
  rw [run_append, run_append, run_tabs, Nat.zero_add]
  show (run ⟨opened, some opened.length⟩ a).bind _ = _
  rw [h.run_fresh ha]
  rfl

/-- A pair of brackets around anything that leaves no bracket open or closed; where it ends at the
start of a line, the closing bracket has to stand below the opening one. -/
theorem wrap {left right : Char} {inner : List Char} {column : Option Nat}
    (hpair : closes? right = some left) (hcolumn : ∀ n ∈ column, n = opened.length)
    (h : run ⟨left :: opened, none⟩ inner = some ⟨left :: opened, column⟩) :
    Steady opened (left :: inner ++ [right]) where
  run_eq := by
    have hleft : step ⟨opened, none⟩ left = some ⟨left :: opened, none⟩ := by
      rcases closes?_eq_some_iff.1 hpair with ⟨-, rfl⟩ | ⟨-, rfl⟩ <;> rfl
    have hright : step ⟨left :: opened, column⟩ right = some ⟨opened, none⟩ := by
      cases column with
      | none => rcases closes?_eq_some_iff.1 hpair with ⟨rfl, rfl⟩ | ⟨rfl, rfl⟩ <;> rfl
      | some n =>
        obtain rfl := hcolumn n rfl
        rcases closes?_eq_some_iff.1 hpair with ⟨rfl, rfl⟩ | ⟨rfl, rfl⟩ <;>
          simp [step, advance, bracketStep, isCloser, closes?]
    rw [List.cons_append, run_cons, hleft]
    show run _ (inner ++ [right]) = _
    rw [run_append, h]
    show run _ [right] = _
    rw [run_cons, hright]
    rfl
  head_eq := by
    rintro _ ⟨⟩
    rcases closes?_eq_some_iff.1 hpair with ⟨-, rfl⟩ | ⟨-, rfl⟩ <;> exact ⟨by decide, rfl⟩

end Steady

end Cursor

/-! ## What is written is steady -/

open Piece Cursor

/-- Numbers are written without layout and brackets. -/
theorem Text.isOrdinary_of_isNumeral {c : Char} (h : isNumeral c = true) : isOrdinary c = true :=
  not_contains_of_isNumeral rfl h

namespace Piece

variable {opened : List Char}

theorem steady_number (n : Number) : Steady opened n.text.toList :=
  .of_ordinary fun c hc => isOrdinary_of_isNumeral (n.isNumeral_text c hc)

theorem steady_tagChars {name : String} (h : name.toList.all isOrdinary = true) :
    Steady opened (tagChars name) := by
  unfold tagChars
  split
  · exact .nil
  · exact .append (.of_all h) (.of_all rfl)

theorem steady_keyChars {k : Key} (h : k.worded .ordinary = true) :
    Steady opened (keyChars k) := by
  cases k with
  | index i => exact .nil
  | name s => exact .append (.of_all h) (.of_all rfl)
  | frame n =>
    have hbracket : Steady opened ('[' :: n.text.toList ++ [']']) :=
      .wrap rfl (by simp) (steady_number n).run_eq
    have hsign : Steady opened [' ', '=', ' '] := .of_all rfl
    rw [keyChars, show [']', ' ', '=', ' '] = [']'] ++ [' ', '=', ' '] from rfl,
      ← List.append_assoc]
    exact hbracket.append hsign

theorem steady_ofScalar {v : Value} (h : v.worded .ordinary = true) :
    Steady opened (allChars (ofScalar v)) := by
  cases v with
  | bool b => cases b <;> exact .of_all (by decide)
  | number n =>
    show Steady opened (allChars [ofNumber n])
    unfold ofNumber
    split
    · exact (steady_number n).append .nil
    · exact .nil
  | text s =>
    have hquote : Steady opened ['"'] := .of_all rfl
    rw [allChars_text]
    exact (hquote.append (.of_all h)).append hquote
  | fuId s =>
    have hinner : Steady ('{' :: opened) ([' ', '"'] ++ s.toList ++ ['"', ' ']) :=
      .append (.append (.of_all rfl) (.of_all h)) (.of_all rfl)
    rw [allChars_fuId]
    exact .append (.of_all rfl) (.wrap rfl (by simp) hinner.run_eq)
  | _ => exact .nil

theorem steady_ofTuple {items : List Value} (h : ∀ v ∈ items, v.worded .ordinary = true) :
    Steady opened (allChars (ofTuple items)) := by
  cases items with
  | nil =>
    show Steady opened ('{' :: [' '] ++ ['}'])
    exact .wrap rfl (by simp) rfl
  | cons first rest =>
    obtain ⟨hfirst, hrest⟩ := List.forall_mem_cons.1 h
    have hblank : Steady ('{' :: opened) [' '] := .of_all rfl
    have hothers : Steady ('{' :: opened)
        (rest.flatMap (fun v => ',' :: ' ' :: allChars (ofScalar v))) := by
      refine .flatMap ?_
      intro v hv
      have hcomma : Steady ('{' :: opened) [',', ' '] := .of_all rfl
      exact hcomma.append (steady_ofScalar (hrest v hv))
    have hinner := ((hblank.append (steady_ofScalar hfirst)).append hothers).append hblank
    rw [allChars_ofTuple]
    simpa using Steady.wrap rfl (by simp) hinner.run_eq

end Piece

/-- The inside of a block leads from one start of a line to the next one, the inside of one line
does not leave the line; both end where the closing brace may stand. -/
theorem TableOf.steady_pieces_of_forall {t : TableOf Value} {opened : List Char}
    (ht : t.worded .ordinary = true)
    (h : ∀ e ∈ t.entries.toList,
      Steady ('{' :: opened) (allChars (e.2.pieces (opened.length + 1)))) :
    Steady opened (allChars (t.pieces (opened.length + 1))) := by
  obtain ⟨hname, hentries⟩ := TableOf.worded_iff.1 ht
  have hline : ∀ e ∈ t.written,
      Steady ('{' :: opened) (line (opened.length + 1) e) ∧ line (opened.length + 1) e ≠ [] := by
    intro e he
    have he := (mem_written.1 he).1
    refine ⟨?_, by simp [line]⟩
    exact ((steady_keyChars (hentries e he).1).append (h e he)).append (.of_all rfl)
  have hblank : Steady ('{' :: opened) [' '] := .of_all rfl
  rw [allChars_pieces]
  refine (steady_tagChars hname).append ?_
  unfold inside
  cases t.mustIndent with
  | true =>
    -- every entry is a line of its own
    have hlines : run ⟨'{' :: opened, some 0⟩ (t.written.flatMap fun e =>
        tabChars true (opened.length + 1) ++ line (opened.length + 1) e ++ breakChars true) =
        some ⟨'{' :: opened, some 0⟩ :=
      run_flatMap fun e he => (hline e he).1.run_line (hline e he).2
    have hinner : run ⟨'{' :: opened, none⟩ (' ' :: breakChars true ++
        t.written.flatMap (fun e => tabChars true (opened.length + 1) ++
          line (opened.length + 1) e ++ breakChars true) ++ tabChars true opened.length) =
        some ⟨'{' :: opened, some opened.length⟩ := by
      rw [run_append, run_append]
      show ((run ⟨'{' :: opened, some 0⟩ _).bind _) = _
      rw [hlines]
      show run ⟨'{' :: opened, some 0⟩ (List.replicate opened.length '\t') = _
      rw [run_tabs, Nat.zero_add]
    exact .wrap rfl (by simp) hinner
  | false =>
    -- there is no layout, and the entries follow each other
    have hlines : Steady ('{' :: opened) (t.written.flatMap fun e =>
        tabChars false (opened.length + 1) ++ line (opened.length + 1) e ++ breakChars false) := by
      refine .flatMap ?_
      intro e he
      exact (Steady.append .nil (hline e he).1).append .nil
    have hinner := (hblank.append hlines).append Steady.nil
    exact .wrap rfl (by simp) hinner.run_eq

/-- **A value is steady under its level**: it may stand wherever as many brackets are open as its
level says, and leaves them open. -/
theorem Value.steady_pieces (v : Value) (opened : List Char) (hv : v.worded .ordinary = true) :
    Steady opened (allChars (v.pieces opened.length)) := by
  induction v generalizing opened with
  | null => exact .nil
  | bool | number | text | fuId => exact steady_ofScalar hv
  | tuple items _ => exact steady_ofTuple (Value.worded_tuple.1 hv)
  | table t ih =>
    have hentries := (TableOf.worded_iff.1 hv).2
    exact TableOf.steady_pieces_of_forall hv fun e he => ih e he _ (hentries e he).2
  | sequence items ih =>
    have hworded := Value.worded_sequence.1 hv
    -- a sequence is a block, whatever its items are
    have hlines : run ⟨'[' :: opened, some 0⟩ ((items.filter (!·.isNull)).flatMap fun v =>
        List.replicate (opened.length + 1) '\t' ++ allChars (v.pieces (opened.length + 1)) ++
          [',', '\n']) = some ⟨'[' :: opened, some 0⟩ := by
      refine run_flatMap ?_
      intro v hv
      have hitem := ih v (List.mem_filter.1 hv).1 ('[' :: opened)
        (hworded v (List.mem_filter.1 hv).1)
      have hcomma : Steady ('[' :: opened) [','] := .of_all rfl
      have hline := (hitem.append hcomma).run_line (by simp)
      simpa using hline
    have hinner : run ⟨'[' :: opened, none⟩ ('\n' ::
        (items.filter (!·.isNull)).flatMap (fun v =>
          List.replicate (opened.length + 1) '\t' ++ allChars (v.pieces (opened.length + 1)) ++
            [',', '\n']) ++ List.replicate opened.length '\t') =
        some ⟨'[' :: opened, some opened.length⟩ := by
      rw [List.cons_append, run_cons]
      show run ⟨'[' :: opened, some 0⟩ _ = _
      rw [run_append, hlines]
      show run ⟨'[' :: opened, some 0⟩ _ = _
      rw [run_tabs, Nat.zero_add]
    rw [Value.allChars_sequence]
    exact .wrap rfl (by simp) hinner

theorem TableOf.steady_pieces {t : Table} (ht : t.worded .ordinary = true) :
    Steady [] (allChars (t.pieces 1)) :=
  steady_pieces_of_forall ht fun e he =>
    e.2.steady_pieces ['{'] ((TableOf.worded_iff.1 ht).2 e he).2

/-! ## What a reader has seen -/

namespace Cursor

/-- All that one character can do: be a tab in front of a line, or be read as text, and then where
it may stand if it is the first of its line. -/
theorem step_cases {s s' : Cursor} {c : Char} (h : s.step c = some s') :
    (∃ n, s.column = some n ∧ c = '\t' ∧ s' = ⟨s.opened, some (n + 1)⟩) ∨
      ((∀ n ∈ s.column, c ≠ '\t' ∧ n + (if isCloser c then 1 else 0) = s.opened.length) ∧
        bracketStep s.opened c = some s'.opened ∧
        s'.column = if c = '\n' then some 0 else none) := by
  have hadvance : s.advance c = some s' → bracketStep s.opened c = some s'.opened ∧
      s'.column = if c = '\n' then some 0 else none := by
    intro h
    obtain ⟨opened, hopened, rfl⟩ := Option.map_eq_some_iff.1 h
    exact ⟨hopened, rfl⟩
  unfold step at h
  cases hcolumn : s.column with
  | none =>
    rw [hcolumn] at h
    exact .inr ⟨by simp, hadvance h⟩
  | some n =>
    simp only [hcolumn] at h
    by_cases htab : c = '\t'
    · rw [if_pos htab] at h
      exact .inl ⟨n, rfl, htab, (Option.some.inj h).symm⟩
    · rw [if_neg htab] at h
      by_cases hdepth : n + (if isCloser c then 1 else 0) = s.opened.length
      · rw [if_pos hdepth] at h
        refine .inr ⟨?_, hadvance h⟩
        rintro _ ⟨⟩
        exact ⟨htab, hdepth⟩
      · rw [if_neg hdepth] at h
        cases h

/-- A reader keeps the open brackets. -/
theorem foldlM_bracketStep {s s' : Cursor} {text : List Char} (h : s.run text = some s') :
    text.foldlM bracketStep s.opened = some s'.opened := by
  induction text generalizing s with
  | nil => exact congrArg (Option.map opened) h
  | cons c rest ih =>
    rw [run_cons, Option.bind_eq_some_iff] at h
    obtain ⟨mid, hmid, hrest⟩ := h
    have hstep : bracketStep s.opened c = some mid.opened := by
      rcases step_cases hmid with ⟨n, -, rfl, rfl⟩ | ⟨-, hopened, -⟩
      · rfl
      · exact hopened
    rw [List.foldlM_cons, hstep]
    exact ih hrest

/-- At the start of a line the tabs to come are as many as brackets are open, or one less. -/
theorem leadingTabs_of_run {opened opened' : List Char} {n : Nat} {rest : List Char}
    (h : run ⟨opened, some n⟩ rest = some ⟨opened', none⟩) :
    n + leadingTabs rest + (if closesFirst rest then 1 else 0) = opened.length := by
  -- `n` counts the tabs in front of `rest`, so each one moves from the right of the sum to the left
  induction rest generalizing n with
  | nil => cases h
  | cons c rest ih =>
    rw [run_cons, Option.bind_eq_some_iff] at h
    obtain ⟨mid, hmid, hrest⟩ := h
    rcases step_cases hmid with ⟨n', hn, rfl, rfl⟩ | ⟨hfirst, -, -⟩
    · cases hn
      have htail := ih hrest
      have htabs : leadingTabs ('\t' :: rest) = leadingTabs rest + 1 := rfl
      have hcloses : closesFirst ('\t' :: rest) = closesFirst rest := rfl
      rw [htabs, hcloses]
      omega
    · obtain ⟨htab, hdepth⟩ := hfirst n rfl
      have htabs : leadingTabs (c :: rest) = 0 := by simp [leadingTabs, htab]
      have hcloses : closesFirst (c :: rest) = isCloser c := by simp [closesFirst, htab]
      rw [htabs, hcloses]
      exact hdepth

/-- A reader knows when a line starts. -/
theorem column_of_startsLine {before : List Char} {s : Cursor} (hline : StartsLine before)
    (h : run ⟨[], some 0⟩ before = some s) : s.column = some 0 := by
  rcases hline with rfl | ⟨b, rfl⟩
  · cases h
    rfl
  · rw [run_append, Option.bind_eq_some_iff] at h
    obtain ⟨mid, -, hmid⟩ := h
    rw [run_cons, Option.bind_eq_some_iff] at hmid
    obtain ⟨last, hlast, rfl⟩ : ∃ last, mid.step '\n' = some last ∧ last = s := by
      simpa using hmid
    rcases step_cases hlast with ⟨n, -, htab, -⟩ | ⟨-, -, hcolumn⟩
    · cases htab
    · exact hcolumn

end Cursor

/-- **Indentation is bracket depth**: in the text of a table whose names and contents are without
layout and brackets, brackets are balanced, and every line stands behind as many tabs as brackets
are open at its start, or one less if the first of its other characters closes a bracket. Here
`rest` is the text from the start of a line on. -/
theorem indentation_eq_depth {t : Table} (ht : t.worded .ordinary = true) {text : String}
    (h : t.render = .ok text) :
    openedBy text.toList = some [] ∧
      ∀ before rest, text.toList = before ++ rest → StartsLine before →
        ∃ opened, openedBy before = some opened ∧
          leadingTabs rest + (if closesFirst rest then 1 else 0) = opened.length := by
  obtain ⟨-, rfl⟩ := TableOf.render_eq_ok_iff.1 h
  have hsteady := t.steady_pieces ht
  have hnonempty : allChars (t.pieces 1) ≠ [] := by simp [TableOf.allChars_pieces]
  -- the text starts a line at level zero
  have hrun := hsteady.run_fresh hnonempty
  rw [String.toList_ofList]
  refine ⟨foldlM_bracketStep hrun, ?_⟩
  intro before rest hsplit hline
  rw [hsplit, run_append, Option.bind_eq_some_iff] at hrun
  obtain ⟨⟨opened, column⟩, hbefore, hrest⟩ := hrun
  obtain rfl : column = some 0 := column_of_startsLine hline hbefore
  refine ⟨opened, foldlM_bracketStep hbefore, ?_⟩
  have hdepth := leadingTabs_of_run hrest
  rw [Nat.zero_add] at hdepth
  exact hdepth

/-- A block with a frame and a tuple, as an item of a sequence, in a table on one line. -/
def TableOf.nestedKinds : Table :=
  let inner : Table :=
    ⟨"Inner", ⟨[(.name "A", .int 1), (.frame (.integer 2), .tuple [.text "b", .fuId "c"])]⟩,
      true, false, true⟩
  ⟨"Outer", ⟨[(.index 0, .sequence [.int 3, .null, .table inner])]⟩, false, true, false⟩

/-- The text of `TableOf.nestedKinds`. -/
def TableOf.nestedKindsText : String :=
  "Outer \x7b [\n\t\t3,\n\t\tInner \x7b \n\t\t\t[2] = \x7b \"b\", FuID \x7b \"c\" \x7d \x7d, \n" ++
    "\t\t\tA = 1, \n\t\t\x7d,\n\t], \x7d"

theorem indentation_eq_depth_nestedKinds :
    TableOf.nestedKinds.worded .ordinary = true ∧
    TableOf.nestedKinds.render = .ok TableOf.nestedKindsText ∧
    openedBy TableOf.nestedKindsText.toList = some [] ∧
      ∀ before rest, TableOf.nestedKindsText.toList = before ++ rest → StartsLine before →
        ∃ opened, openedBy before = some opened ∧
          leadingTabs rest + (if closesFirst rest then 1 else 0) = opened.length :=
  ⟨by decide, rfl, indentation_eq_depth (t := TableOf.nestedKinds) (by decide) rfl⟩

end SceneScript
