import SceneScript.Proofs.NormalForm
import SceneScript.Proofs.NumberReading
import SceneScript.Proofs.SceneText

/-!
# Reading scene text

Braces stand around tables, tuples and identifiers, square brackets around sequences and frames, and
what a bracket was opened for shows only where it is closed. A `Reader` goes through a text once,
from left to right, with one `Group` for each open bracket. A value behind the last comma of a group
is `Held` until a comma, an equals sign or the closing bracket decides what it is: in braces a held
value means a tuple or an identifier, nothing held means a table; in square brackets a held number
is a frame, nothing held means a sequence.

Texts are read for trees whose tags and names are words, such as identifiers with or without `()`
behind them, and whose contents have no quotes inside.

Main statements:

- `Value.reads_pieces`: behind the text of a value a reader holds the form of the value;
- `Form.read?_render`: the form of a table is read from its text;
- `form_eq_of_render_eq`: tables with the same text have the same form.
-/

namespace SceneScript

/-! ## Words -/

namespace Text

/-- Characters that can stand in a word: neither blanks nor quotes, commas, equals signs, braces and
square brackets. -/
def isWordChar (c : Char) : Bool :=
  !([' ', '\n', '\t', '"', ',', '=', '{', '}', '[', ']'].contains c)

/-- Blanks stand between words and mean nothing. -/
def IsBlank (c : Char) : Prop := c = ' ' ∨ c = '\n' ∨ c = '\t'

/-- Whether a text is one word. -/
def isWord (s : String) : Bool := !s.toList.isEmpty && s.toList.all isWordChar

end Text

/-- Tags are words or empty, names are words, contents have no quotes. Letters, digits and
underscores make a word, also with `()` behind them. -/
def Wording.plain : Wording where
  tag s := s.toList.all Text.isWordChar
  key := Text.isWord
  content s := s.toList.all (· != '"')

/-! ## Readers -/

/-- What was read behind the last comma of a group, as long as it may become several things. -/
inductive Held
  | word (cs : List Char)
  | value (form : Form)
  | frame (frame : Number)

/-- What is held, as a value; words are numbers and truth values. -/
def Held.form? : Held → Option Form
  | .word cs =>
    match Number.read? cs with
    | some n => some (.number n)
    | none =>
      if cs = ['t', 'r', 'u', 'e'] then some (.bool true)
      else if cs = ['f', 'a', 'l', 's', 'e'] then some (.bool false)
      else none
  | .value form => some form
  | .frame _ => none

/-- What was read inside an open bracket. -/
structure Group where
  /-- The tag in front of a brace; square brackets have none, and neither has the whole text. -/
  tag : Option (List Char)
  /-- The entries in front of the last comma. -/
  entries : List (Label × Form)
  /-- The label behind the last comma. -/
  label : Label
  /-- The value behind the last comma. -/
  held : Option Held

namespace Group

/-- A bracket that was just opened. -/
def start (tag : Option (List Char)) : Group := ⟨tag, [], .position, none⟩

def put? (g : Group) (h : Held) : Option Group :=
  match g.held with
  | none => some { g with held := some h }
  | some _ => none

/-- At an equals sign what is held becomes the label. -/
def assign? (g : Group) : Option Group :=
  match g.held with
  | some (.word cs) => some { g with label := .name (String.ofList cs), held := none }
  | some (.frame n) => some { g with label := .frame n, held := none }
  | _ => none

/-- At a comma what is held becomes an entry. -/
def commit? (g : Group) : Option Group :=
  (g.held.bind Held.form?).map fun form =>
    { g with entries := g.entries ++ [(g.label, form)], label := .position, held := none }

/-- What braces around a group make of it. -/
def braced? (g : Group) : Option Form :=
  match g.tag, g.held with
  | some tag, none => some (.table (String.ofList tag) g.entries)
  | some [], some _ => g.commit?.map fun g => .tuple (g.entries.map Prod.snd)
  | some ['F', 'u', 'I', 'D'], some (.value (.text s)) => some (.fuId s)
  | _, _ => none

/-- What square brackets around a group make of it. -/
def bracketed? (g : Group) : Option Held :=
  match g.tag, g.held with
  | none, none => some (.value (.sequence (g.entries.map Prod.snd)))
  | none, some (.word cs) => (Number.read? cs).map .frame
  | _, _ => none

end Group

/-- What the next character is part of. -/
inductive Mode
  | between
  | word (cs : List Char)
  | quoted (cs : List Char)

/-- A reader behind some text: the innermost open bracket, and those around it. -/
structure Reader where
  mode : Mode
  group : Group
  outer : List Group

namespace Reader

/-- A value that a bracket completes belongs to the group around it. -/
def close? (outer : List Group) (h : Held) : Option Reader :=
  match outer with
  | [] => none
  | g :: outer => (g.put? h).map fun g => ⟨.between, g, outer⟩

/-- A character between words. -/
def punctuate (g : Group) (outer : List Group) : Char → Option Reader
  | ' ' | '\n' | '\t' => some ⟨.between, g, outer⟩
  | '"' => some ⟨.quoted [], g, outer⟩
  | ',' => g.commit?.map fun g => ⟨.between, g, outer⟩
  | '=' => g.assign?.map fun g => ⟨.between, g, outer⟩
  | '[' => some ⟨.between, .start none, g :: outer⟩
  | ']' => g.bracketed?.bind (close? outer)
  | '{' =>
    match g.held with
    | none => some ⟨.between, .start (some []), g :: outer⟩
    | some (.word cs) => some ⟨.between, .start (some cs), { g with held := none } :: outer⟩
    | some _ => none
  | '}' => g.braced?.bind fun form => close? outer (.value form)
  | _ => none

/-- One character further. -/
def step (r : Reader) (c : Char) : Option Reader :=
  match r.mode with
  | .between => if Text.isWordChar c then some { r with mode := .word [c] }
    else punctuate r.group r.outer c
  | .word cs => if Text.isWordChar c then some { r with mode := .word (cs ++ [c]) }
    else (r.group.put? (.word cs)).bind fun g => punctuate g r.outer c
  | .quoted cs => if c = '"' then
      (r.group.put? (.value (.text (String.ofList cs)))).map fun g => ⟨.between, g, r.outer⟩
    else some { r with mode := .quoted (cs ++ [c]) }

/-- Behind a text, if it can be read to its end. -/
def run (r : Reader) (text : List Char) : Option Reader := text.foldlM step r

end Reader

/-- The form that a text spells; a line break stands behind it, so that the last word ends. -/
def Form.read? (text : List Char) : Option Form :=
  ((Reader.run ⟨.between, .start none, []⟩ (text ++ ['\n'])).bind (·.group.held)).bind Held.form?

open Piece

namespace Reader

/-! ## Blanks, words and quotes -/

section Lexemes

variable {tag : Option (List Char)} {entries : List (Label × Form)} {label : Label}
  {outer : List Group} {c : Char} {rest : List Char}

theorem run_step {r r' : Reader} (h : r.step c = some r') : r.run (c :: rest) = r'.run rest := by
  show (r.step c).bind (·.run rest) = _
  rw [h]
  rfl

theorem run_between (g : Group) (hc : Text.isWordChar c = false) :
    run ⟨.between, g, outer⟩ (c :: rest) = (punctuate g outer c).bind (·.run rest) := by
  have hstep : step ⟨.between, g, outer⟩ c = punctuate g outer c := by simp [step, hc]
  rw [← hstep]
  rfl

theorem run_blanks (g : Group) {blanks : List Char}
    (h : ∀ c ∈ blanks, Text.IsBlank c) :
    run ⟨.between, g, outer⟩ (blanks ++ rest) = run ⟨.between, g, outer⟩ rest := by
  induction blanks with
  | nil => rfl
  | cons b blanks ih =>
    obtain ⟨hb, hblanks⟩ := List.forall_mem_cons.1 h
    have hstep : run ⟨.between, g, outer⟩ (b :: (blanks ++ rest)) =
        run ⟨.between, g, outer⟩ (blanks ++ rest) := by
      rcases hb with rfl | rfl | rfl <;> rfl
    rw [List.cons_append, hstep]
    exact ih hblanks

theorem isBlank_tabs (n : Nat) : ∀ c ∈ List.replicate n '\t', Text.IsBlank c :=
  fun _ hc => .inr (.inr (List.eq_of_mem_replicate hc))

theorem isBlank_tabChars (block : Bool) (level : Nat) :
    ∀ c ∈ tabChars block level, Text.IsBlank c := by
  cases block with
  | true => exact isBlank_tabs level
  | false => exact List.forall_mem_nil _

/-- A blank and perhaps the end of the line. -/
theorem isBlank_cons_breakChars (block : Bool) :
    ∀ c ∈ ' ' :: breakChars block, Text.IsBlank c := by
  refine List.forall_mem_cons.2 ⟨.inl rfl, ?_⟩
  cases block with
  | true => exact List.forall_mem_singleton.2 (.inr (.inl rfl))
  | false => exact List.forall_mem_nil _

/-- The rest of a word, up to a character that ends it. -/
theorem run_inWord (cs : List Char) {word : List Char} (h : ∀ c ∈ word, Text.isWordChar c = true)
    (hc : Text.isWordChar c = false) :
    run ⟨.word cs, ⟨tag, entries, label, none⟩, outer⟩ (word ++ c :: rest) =
      run ⟨.between, ⟨tag, entries, label, some (.word (cs ++ word))⟩, outer⟩ (c :: rest) := by
  induction word generalizing cs with
  | nil =>
    -- the word ends here: it is held, and `c` is read between words
    have hstep : step ⟨.word cs, ⟨tag, entries, label, none⟩, outer⟩ c =
        punctuate ⟨tag, entries, label, some (.word cs)⟩ outer c := by
      simp [step, hc, Group.put?]
    rw [List.append_nil, run_between _ hc, ← hstep]
    rfl
  | cons d word ih =>
    obtain ⟨hd, hword⟩ := List.forall_mem_cons.1 h
    have hstep : step ⟨.word cs, ⟨tag, entries, label, none⟩, outer⟩ d =
        some ⟨.word (cs ++ [d]), ⟨tag, entries, label, none⟩, outer⟩ := by
      simp [step, hd]
    rw [List.cons_append, run_step hstep, List.append_cons cs d word]
    exact ih (cs ++ [d]) hword

/-- A word is held behind its end. -/
theorem run_word {word : List Char} (hne : word ≠ []) (h : ∀ c ∈ word, Text.isWordChar c = true)
    (hc : Text.isWordChar c = false) :
    run ⟨.between, ⟨tag, entries, label, none⟩, outer⟩ (word ++ c :: rest) =
      run ⟨.between, ⟨tag, entries, label, some (.word word)⟩, outer⟩ (c :: rest) := by
  obtain ⟨d, word, rfl⟩ := List.exists_cons_of_ne_nil hne
  obtain ⟨hd, hword⟩ := List.forall_mem_cons.1 h
  have hstep : step ⟨.between, ⟨tag, entries, label, none⟩, outer⟩ d =
      some ⟨.word [d], ⟨tag, entries, label, none⟩, outer⟩ := by
    simp [step, hd]
  rw [List.cons_append, run_step hstep]
  exact run_inWord [d] hword hc

/-- The rest of a quoted text, and the quote behind it. -/
theorem run_inQuotes (cs : List Char) {content : List Char} (h : ∀ c ∈ content, c ≠ '"') :
    run ⟨.quoted cs, ⟨tag, entries, label, none⟩, outer⟩ (content ++ '"' :: rest) =
      run ⟨.between, ⟨tag, entries, label, some (.value (.text (String.ofList (cs ++ content))))⟩,
        outer⟩ rest := by
  induction content generalizing cs with
  | nil =>
    rw [List.append_nil]
    rfl
  | cons d content ih =>
    obtain ⟨hd, hcontent⟩ := List.forall_mem_cons.1 h
    have hstep : step ⟨.quoted cs, ⟨tag, entries, label, none⟩, outer⟩ d =
        some ⟨.quoted (cs ++ [d]), ⟨tag, entries, label, none⟩, outer⟩ := by
      simp [step, hd]
    rw [List.cons_append, run_step hstep, List.append_cons cs d content]
    exact ih (cs ++ [d]) hcontent

/-- A text between quotes is held behind the second one. -/
theorem run_quoted {s : String} (h : s.toList.all (· != '"') = true) :
    run ⟨.between, ⟨tag, entries, label, none⟩, outer⟩ ('"' :: (s.toList ++ '"' :: rest)) =
      run ⟨.between, ⟨tag, entries, label, some (.value (.text s))⟩, outer⟩ rest := by
  have hcontent : ∀ c ∈ s.toList, c ≠ '"' := by simpa using h
  show run ⟨.quoted [], ⟨tag, entries, label, none⟩, outer⟩ (s.toList ++ '"' :: rest) = _
  rw [run_inQuotes [] hcontent, List.nil_append, String.ofList_toList]

/-- At a comma what is held becomes an entry. -/
theorem run_comma {h : Held} {form : Form} (hform : h.form? = some form) :
    run ⟨.between, ⟨tag, entries, label, some h⟩, outer⟩ (',' :: rest) =
      run ⟨.between, ⟨tag, entries ++ [(label, form)], .position, none⟩, outer⟩ rest := by
  refine run_step ?_
  simp [step, Text.isWordChar, punctuate, Group.commit?, hform]

end Lexemes

/-! ## Texts of values and entries -/

/-- Whether a word ends in front of a text. -/
def EndsWord : List Char → Prop
  | c :: _ => Text.isWordChar c = false
  | [] => False

/-- Whether a text is read as a value of a form, wherever a value may begin and a word may end. -/
def Reads (text : List Char) (form : Form) : Prop :=
  ∃ held : Held, held.form? = some form ∧
    ∀ tag entries label outer rest, EndsWord rest →
      run ⟨.between, ⟨tag, entries, label, none⟩, outer⟩ (text ++ rest) =
        run ⟨.between, ⟨tag, entries, label, some held⟩, outer⟩ rest

/-- Whether a text is read as an entry, wherever an entry may begin. -/
def ReadsEntry (text : List Char) (entry : Label × Form) : Prop :=
  ∀ tag entries outer rest,
    run ⟨.between, ⟨tag, entries, .position, none⟩, outer⟩ (text ++ rest) =
      run ⟨.between, ⟨tag, entries ++ [entry], .position, none⟩, outer⟩ rest

section Values

variable {tag : Option (List Char)} {entries : List (Label × Form)} {label : Label}
  {outer : List Group} {rest : List Char}

theorem reads_word {word : List Char} {form : Form} (hne : word ≠ [])
    (h : ∀ c ∈ word, Text.isWordChar c = true) (hform : (Held.word word).form? = some form) :
    Reads word form := by
  refine ⟨.word word, hform, ?_⟩
  intro tag entries label outer rest hrest
  cases rest with
  | nil => exact hrest.elim
  | cons c rest => exact run_word hne h hrest

theorem reads_quoted {s : String} (h : s.toList.all (· != '"') = true) :
    Reads ('"' :: s.toList ++ ['"']) (.text s) := by
  refine ⟨.value (.text s), rfl, ?_⟩
  intro tag entries label outer rest _
  rw [List.append_assoc]
  exact run_quoted h

/-- An item of a list: a value and the comma behind it. -/
theorem Reads.run_item {text : List Char} {form : Form} (h : Reads text form) :
    run ⟨.between, ⟨tag, entries, label, none⟩, outer⟩ (text ++ ',' :: rest) =
      run ⟨.between, ⟨tag, entries ++ [(label, form)], .position, none⟩, outer⟩ rest := by
  obtain ⟨held, hform, hrun⟩ := h
  have hcomma : EndsWord (',' :: rest) := rfl
  rw [hrun _ _ _ _ _ hcomma]
  exact run_comma hform

/-- Entries one after the other. -/
theorem run_entries {α : Type} {l : List α} {f : α → List Char} {entry : α → Label × Form}
    (h : ∀ a ∈ l, ReadsEntry (f a) (entry a)) :
    run ⟨.between, ⟨tag, entries, .position, none⟩, outer⟩ (l.flatMap f ++ rest) =
      run ⟨.between, ⟨tag, entries ++ l.map entry, .position, none⟩, outer⟩ rest := by
  induction l generalizing entries with
  | nil => rw [List.map_nil, List.append_nil]; rfl
  | cons a l ih =>
    rw [List.flatMap_cons, List.append_assoc, h a List.mem_cons_self,
      ih fun b hb => h b (List.mem_cons_of_mem a hb), List.map_cons, List.append_assoc]
    rfl

/-! ## Scalars and tuples -/

theorem reads_bool (b : Bool) : Reads (allChars (ofScalar (.bool b))) (.bool b) := by
  cases b with
  | true => exact reads_word (by simp [ofScalar, chars]) (List.all_eq_true.1 rfl) rfl
  | false => exact reads_word (by simp [ofScalar, chars]) (List.all_eq_true.1 rfl) rfl

/-- Numbers are words. -/
theorem isWordChar_of_isNumeral {c : Char} (h : Text.isNumeral c = true) :
    Text.isWordChar c = true :=
  not_contains_of_isNumeral rfl h

/-- Numbers that are written are finite. -/
theorem isFinite_of_fault? {n : Number} (h : (ofNumber n).fault? = none) : n.isFinite = true := by
  unfold ofNumber at h
  split at h
  · assumption
  · cases h

theorem reads_number {n : Number} (h : n.isFinite = true) :
    Reads (allChars (ofScalar (.number n))) (.number n) := by
  have hchars : allChars (ofScalar (.number n)) = n.text.toList := by
    simp [ofScalar, ofNumber, h, chars]
  have hform : (Held.word n.text.toList).form? = some (.number n) := by
    simp [Held.form?, Number.read?_text h]
  rw [hchars]
  exact reads_word (Number.text_ne_nil h)
    (fun c hc => isWordChar_of_isNumeral (n.isNumeral_text c hc)) hform

theorem reads_fuId {s : String} (h : s.toList.all (· != '"') = true) :
    Reads (allChars (ofScalar (.fuId s))) (.fuId s) := by
  refine ⟨.value (.fuId s), rfl, ?_⟩
  intro tag entries label outer rest _
  have htext : allChars (ofScalar (.fuId s)) ++ rest =
      'F' :: 'u' :: 'I' :: 'D' :: ' ' :: '{' :: ' ' :: '"' ::
        (s.toList ++ '"' :: ' ' :: '}' :: rest) := by
    simp [allChars_fuId]
  rw [htext]
  -- up to the quote the characters are the same for every identifier
  show run ⟨.between, .start (some ['F', 'u', 'I', 'D']), ⟨tag, entries, label, none⟩ :: outer⟩
    ('"' :: (s.toList ++ '"' :: ' ' :: '}' :: rest)) = _
  rw [Group.start, run_quoted h]
  rfl

theorem reads_ofScalar {v : Value} (hv : v.worded .plain = true)
    (h : ∀ p ∈ ofScalar v, p.fault? = none) : Reads (allChars (ofScalar v)) v.form := by
  cases v with
  | bool b => exact reads_bool b
  | number n =>
    exact reads_number (isFinite_of_fault? (h _ List.mem_cons_self))
  | text s =>
    rw [allChars_text]
    exact reads_quoted hv
  | fuId s => exact reads_fuId hv
  | _ => cases h _ List.mem_cons_self

/-- Behind a member of a tuple stands a comma or the blank in front of the closing brace. -/
theorem endsWord_members (members : List Value) :
    EndsWord (members.flatMap (fun v => ',' :: ' ' :: allChars (ofScalar v)) ++
      ' ' :: '}' :: rest) := by
  cases members <;> exact rfl

/-- The members of a tuple behind the first one, and the closing brace. -/
theorem run_members {members : List Value} {h : Held} {form : Form} (hform : h.form? = some form)
    (hmembers : ∀ v ∈ members, Reads (allChars (ofScalar v)) v.form) :
    run ⟨.between, ⟨some [], entries, label, some h⟩, outer⟩
      (members.flatMap (fun v => ',' :: ' ' :: allChars (ofScalar v)) ++ ' ' :: '}' :: rest) =
    (close? outer (.value (.tuple (entries.map Prod.snd ++ form :: members.map Value.form)))).bind
      (·.run rest) := by
  induction members generalizing entries label h form with
  | nil =>
    -- the brace finds a value held, so it closes a tuple
    have hclose : (⟨some [], entries, label, some h⟩ : Group).braced? =
        some (.tuple (entries.map Prod.snd ++ [form])) := by
      simp [Group.braced?, Group.commit?, hform]
    show (((⟨some [], entries, label, some h⟩ : Group).braced?).bind _).bind _ = _
    rw [hclose]
    rfl
  | cons v members ih =>
    obtain ⟨⟨held, hheld, hrun⟩, hrest⟩ := List.forall_mem_cons.1 hmembers
    rw [List.flatMap_cons, List.append_assoc, List.cons_append, List.cons_append, run_comma hform]
    show run ⟨.between, ⟨some [], entries ++ [(label, form)], .position, none⟩, outer⟩
      (allChars (ofScalar v) ++ _) = _
    rw [hrun _ _ _ _ _ (endsWord_members members), ih hheld hrest, List.map_append,
      List.append_assoc]
    rfl

theorem reads_ofTuple {members : List Value}
    (h : ∀ v ∈ members, Reads (allChars (ofScalar v)) v.form) :
    Reads (allChars (ofTuple members)) (.ofTuple (members.map Value.form)) := by
  cases members with
  | nil => exact ⟨.value (.table "" []), rfl, fun _ _ _ _ _ _ => rfl⟩
  | cons first members =>
    obtain ⟨⟨held, hheld, hrun⟩, hmembers⟩ := List.forall_mem_cons.1 h
    refine ⟨.value (.tuple (first.form :: members.map Value.form)), rfl, ?_⟩
    intro tag entries label outer rest _
    have htext : allChars (ofTuple (first :: members)) ++ rest =
        '{' :: ' ' :: (allChars (ofScalar first) ++
          (members.flatMap (fun v => ',' :: ' ' :: allChars (ofScalar v)) ++
            ' ' :: '}' :: rest)) := by
      simp [allChars_ofTuple]
    rw [htext]
    show run ⟨.between, ⟨some [], [], .position, none⟩, ⟨tag, entries, label, none⟩ :: outer⟩
      (allChars (ofScalar first) ++ _) = _
    rw [hrun _ _ _ _ _ (endsWord_members members), run_members hheld hmembers]
    rfl

/-! ## Entries, tables and sequences -/

/-- A key gives the entry its label. -/
theorem run_keyChars {k : Key} (hk : k.worded .plain = true)
    (hfaultless : ∀ p ∈ ofKey k, p.fault? = none) :
    run ⟨.between, ⟨tag, entries, .position, none⟩, outer⟩ (keyChars k ++ rest) =
      run ⟨.between, ⟨tag, entries, k.label, none⟩, outer⟩ rest := by
  cases k with
  | index i => rfl
  | name s =>
    obtain ⟨hne, hword⟩ : s.toList ≠ [] ∧ ∀ c ∈ s.toList, Text.isWordChar c = true := by
      simpa [Key.worded, Wording.plain, Text.isWord] using hk
    have htext : keyChars (.name s) ++ rest = s.toList ++ ' ' :: '=' :: ' ' :: rest := by
      simp [keyChars]
    rw [htext, run_word hne hword rfl]
    show run ⟨.between, ⟨tag, entries, .name (String.ofList s.toList), none⟩, outer⟩ rest = _
    rw [String.ofList_toList]
    rfl
  | frame n =>
    have hfinite : n.isFinite = true := by
      by_contra hinfinite
      have hfault : Piece.fault (.notFinite n) ∈ ofKey (.frame n) := by simp [ofKey, hinfinite]
      cases hfaultless _ hfault
    -- the bracket finds a number held, so it closes a frame and not a sequence
    have hclose : step ⟨.between, ⟨none, [], .position, some (.word n.text.toList)⟩,
        ⟨tag, entries, .position, none⟩ :: outer⟩ ']' =
        some ⟨.between, ⟨tag, entries, .position, some (.frame n)⟩, outer⟩ := by
      simp [step, Text.isWordChar, punctuate, Group.bracketed?, Number.read?_text hfinite, close?,
        Group.put?]
    have htext : keyChars (.frame n) ++ rest =
        '[' :: (n.text.toList ++ ']' :: ' ' :: '=' :: ' ' :: rest) := by
      simp [keyChars]
    rw [htext]
    show run ⟨.between, ⟨none, [], .position, none⟩, ⟨tag, entries, .position, none⟩ :: outer⟩
      (n.text.toList ++ _) = _
    rw [run_word (Number.text_ne_nil hfinite)
      (fun c hc => isWordChar_of_isNumeral (n.isNumeral_text c hc)) rfl, run_step hclose]
    rfl

/-- An entry of a table, with the layout around it. -/
theorem readsEntry_line {e : Key × Value} {level : Nat} (block : Bool)
    (hk : e.1.worded .plain = true) (hfaultless : ∀ p ∈ ofKey e.1, p.fault? = none)
    (h : Reads (allChars (e.2.pieces level)) e.2.form) :
    ReadsEntry (tabChars block level ++ line level e ++ breakChars block)
      (e.1.label, e.2.form) := by
  intro tag entries outer rest
  have htext : tabChars block level ++ line level e ++ breakChars block ++ rest =
      tabChars block level ++ (keyChars e.1 ++ (allChars (e.2.pieces level) ++
        ',' :: ((' ' :: breakChars block) ++ rest))) := by
    simp [line]
  rw [htext, run_blanks _ (isBlank_tabChars block level), run_keyChars hk hfaultless, h.run_item,
    run_blanks _ (isBlank_cons_breakChars block)]

/-- An item of a sequence, with the layout around it. -/
theorem readsEntry_item {text : List Char} {form : Form} (tabs : Nat) (h : Reads text form) :
    ReadsEntry (List.replicate tabs '\t' ++ text ++ [',', '\n']) (.position, form) := by
  intro tag entries outer rest
  have htext : List.replicate tabs '\t' ++ text ++ [',', '\n'] ++ rest =
      List.replicate tabs '\t' ++ (text ++ ',' :: '\n' :: rest) := by
    simp
  rw [htext, run_blanks _ (isBlank_tabs tabs), h.run_item]
  rfl

/-- The tag of a table and its opening brace. -/
theorem run_opening {name : String} (hname : name.toList.all Text.isWordChar = true) :
    run ⟨.between, ⟨tag, entries, label, none⟩, outer⟩ (tagChars name ++ '{' :: rest) =
      run ⟨.between, ⟨some name.toList, [], .position, none⟩,
        ⟨tag, entries, label, none⟩ :: outer⟩ rest := by
  unfold tagChars
  by_cases hempty : name.isEmpty = true
  · obtain rfl : name = "" := String.isEmpty_iff.1 hempty
    rfl
  · have hne : name.toList ≠ [] := by
      intro hnil
      exact hempty (String.isEmpty_iff.2 (String.toList_eq_nil_iff.1 hnil))
    have htext : name.toList ++ [' '] ++ '{' :: rest = name.toList ++ ' ' :: '{' :: rest := by simp
    rw [if_neg hempty, htext, run_word hne (List.all_eq_true.1 hname) rfl]
    rfl

theorem reads_table {t : TableOf Value} {level : Nat}
    (htag : t.name.toList.all Text.isWordChar = true)
    (h : ∀ e ∈ t.written, ReadsEntry
      (tabChars t.mustIndent level ++ line level e ++ breakChars t.mustIndent)
      (e.1.label, e.2.form)) :
    Reads (allChars (t.pieces level)) t.form := by
  refine ⟨.value t.form, rfl, ?_⟩
  intro tag entries label outer rest _
  have htext : allChars (t.pieces level) ++ rest =
      tagChars t.name ++ '{' :: ((' ' :: breakChars t.mustIndent) ++
        (t.written.flatMap (fun e =>
          tabChars t.mustIndent level ++ line level e ++ breakChars t.mustIndent) ++
          (tabChars t.mustIndent (level - 1) ++ '}' :: rest))) := by
    simp [TableOf.allChars_pieces, TableOf.inside]
  rw [htext, run_opening htag, run_blanks _ (isBlank_cons_breakChars _), run_entries h,
    run_blanks _ (isBlank_tabChars _ _), TableOf.form_eq]
  -- behind the last comma nothing is held, so the brace closes a table
  show run ⟨.between, ⟨tag, entries, label,
    some (.value (.table (String.ofList t.name.toList) _))⟩, outer⟩ rest = _
  rw [String.ofList_toList]
  rfl

theorem reads_sequence {items : List Value} {level : Nat}
    (h : ∀ v ∈ items.filter (!·.isNull), Reads (allChars (v.pieces (level + 1))) v.form) :
    Reads (allChars ((Value.sequence items).pieces level)) (Value.sequence items).form := by
  refine ⟨.value (Value.sequence items).form, rfl, ?_⟩
  intro tag entries label outer rest _
  have htext : allChars ((Value.sequence items).pieces level) ++ rest =
      '[' :: '\n' :: ((items.filter (!·.isNull)).flatMap (fun v =>
        List.replicate (level + 1) '\t' ++ allChars (v.pieces (level + 1)) ++ [',', '\n']) ++
        (List.replicate level '\t' ++ ']' :: rest)) := by
    simp [Value.allChars_sequence]
  rw [htext]
  show run ⟨.between, ⟨none, [], .position, none⟩, ⟨tag, entries, label, none⟩ :: outer⟩
    ((items.filter (!·.isNull)).flatMap _ ++ _) = _
  rw [run_entries fun v hv => readsEntry_item (level + 1) (h v hv),
    run_blanks _ (isBlank_tabs level), Value.form_sequence]
  -- nothing is held here either, so the bracket closes a sequence
  show run ⟨.between, ⟨tag, entries, label, some (.value (.sequence
    (((items.filter (!·.isNull)).map fun v => (Label.position, v.form)).map Prod.snd)))⟩,
    outer⟩ rest = _
  rw [List.map_map]
  rfl

end Values

end Reader

open Reader

/-! ## Trees -/

theorem TableOf.mem_pieces_of_mem_written {t : TableOf Value} {level : Nat} {e : Key × Value}
    (he : e ∈ t.written) {p : Piece} (hp : p ∈ ofKey e.1 ∨ p ∈ e.2.pieces level) :
    p ∈ t.pieces level := by
  have hentry : p ∈ entry level t.mustIndent e.1 (e.2.pieces level) := by
    unfold entry
    rcases hp with hp | hp <;> simp [hp]
  have hentries : p ∈ t.written.flatMap
      (fun e => entry level t.mustIndent e.1 (e.2.pieces level)) :=
    List.mem_flatMap.2 ⟨e, he, hentry⟩
  rw [TableOf.pieces_eq]
  exact List.mem_append_left _ (List.mem_append_right _ hentries)

theorem Value.mem_pieces_of_mem_items {items : List Value} {level : Nat} {v : Value}
    (hv : v ∈ items.filter (!·.isNull)) {p : Piece} (hp : p ∈ v.pieces (level + 1)) :
    p ∈ (Value.sequence items).pieces level := by
  have hitems : p ∈ itemPieces (level + 1) items := by
    rw [itemPieces_eq]
    refine List.mem_flatMap.2 ⟨v, hv, ?_⟩
    exact List.mem_append_left _ (List.mem_cons_of_mem _ hp)
  show p ∈ .text "[" :: .newline :: itemPieces (level + 1) items ++ _
  exact List.mem_append_left _ (List.mem_cons_of_mem _ (List.mem_cons_of_mem _ hitems))

theorem Piece.mem_ofTuple_of_mem {members : List Value} {v : Value} (hv : v ∈ members) {p : Piece}
    (hp : p ∈ ofScalar v) : p ∈ ofTuple members := by
  cases members with
  | nil => cases hv
  | cons first members =>
    rcases List.mem_cons.1 hv with rfl | hv
    · exact List.mem_append_left _ (List.mem_append_left _ (List.mem_cons_of_mem _ hp))
    · have hothers : p ∈ members.flatMap (fun v => .text ", " :: ofScalar v) :=
        List.mem_flatMap.2 ⟨v, hv, List.mem_cons_of_mem _ hp⟩
      exact List.mem_append_left _ (List.mem_append_right _ hothers)

theorem TableOf.reads_pieces_of_forall {t : TableOf Value} {level : Nat}
    (ht : t.worded .plain = true) (hfaultless : ∀ p ∈ t.pieces level, p.fault? = none)
    (h : ∀ e ∈ t.entries.toList, e.2.worded .plain = true →
      (∀ p ∈ e.2.pieces level, p.fault? = none) → Reads (allChars (e.2.pieces level)) e.2.form) :
    Reads (allChars (t.pieces level)) t.form := by
  obtain ⟨htag, hentries⟩ := TableOf.worded_iff.1 ht
  refine reads_table htag ?_
  intro e he
  have hmem := (mem_written.1 he).1
  obtain ⟨hkey, hvalue⟩ := hentries e hmem
  refine readsEntry_line t.mustIndent hkey ?_ (h e hmem hvalue ?_)
  · exact fun p hp => hfaultless p (mem_pieces_of_mem_written he (.inl hp))
  · exact fun p hp => hfaultless p (mem_pieces_of_mem_written he (.inr hp))

/-- **What is written for a value is read as its form.** -/
theorem Value.reads_pieces (v : Value) (level : Nat) (hv : v.worded .plain = true)
    (hfaultless : ∀ p ∈ v.pieces level, p.fault? = none) :
    Reads (allChars (v.pieces level)) v.form := by
  induction v generalizing level with
  | null => cases hfaultless _ List.mem_cons_self
  | bool | number | text | fuId => exact reads_ofScalar hv hfaultless
  | tuple items _ =>
    have hmembers : ∀ v ∈ items, Reads (allChars (ofScalar v)) v.form := by
      intro v hmem
      refine reads_ofScalar (Value.worded_tuple.1 hv v hmem) ?_
      exact fun p hp => hfaultless p (mem_ofTuple_of_mem hmem hp)
    rw [Value.form_tuple]
    exact reads_ofTuple hmembers
  | sequence items ih =>
    refine reads_sequence ?_
    intro v hkept
    have hmem := (List.mem_filter.1 hkept).1
    exact ih v hmem (level + 1) (Value.worded_sequence.1 hv v hmem)
      fun p hp => hfaultless p (mem_pieces_of_mem_items hkept hp)
  | table t ih =>
    exact TableOf.reads_pieces_of_forall hv hfaultless fun e he => ih e he (level + 1)

/-- The form of a table is read from its text. -/
theorem Form.read?_render {t : Table} (ht : t.worded .plain = true) {text : String}
    (h : t.render = .ok text) : Form.read? text.toList = some t.form := by
  obtain ⟨hfaultless, rfl⟩ := TableOf.render_eq_ok_iff.1 h
  obtain ⟨held, hform, hrun⟩ := TableOf.reads_pieces_of_forall ht hfaultless
    fun e _ => e.2.reads_pieces 1
  have hends : EndsWord ['\n'] := rfl
  rw [String.toList_ofList, read?, Group.start, hrun _ _ _ _ _ hends]
  exact hform

/-- **The text determines the tree**: tables that are worded plainly and have the same text have the
same normal form. -/
theorem form_eq_of_render_eq {t u : Table} (ht : t.worded .plain = true)
    (hu : u.worded .plain = true) {text : String} (h : t.render = .ok text)
    (h' : u.render = .ok text) : t.form = u.form := by
  have hread := Form.read?_render ht h
  rw [Form.read?_render hu h'] at hread
  exact (Option.some.inj hread).symm

/-- A table with a value at a position, and with an entry and an item that hold nothing. -/
def TableOf.withValueAt (position : Nat) (v : Value) : Table :=
  let items : Value := .sequence [.int (-3), .null]
  ⟨"Clip()", ⟨[(.name "Lost", .null), (.index position, v), (.frame 2, items)]⟩, false, true, false⟩

theorem form_eq_of_render_eq_withValueAt :
    (TableOf.withValueAt 0 (.tuple [])).worded .plain = true ∧
    (TableOf.withValueAt 7 (.table ∅)).worded .plain = true ∧
    ∃ text, (TableOf.withValueAt 0 (.tuple [])).render = .ok text ∧
      (TableOf.withValueAt 7 (.table ∅)).render = .ok text ∧
      (TableOf.withValueAt 0 (.tuple [])).form = (TableOf.withValueAt 7 (.table ∅)).form :=
  ⟨by decide, by decide, "Clip() \x7b \x7b \x7d, [2] = [\n\t\t-3,\n\t], \x7d", by rfl, by rfl,
    form_eq_of_render_eq (t := TableOf.withValueAt 0 (.tuple []))
      (u := TableOf.withValueAt 7 (.table ∅)) (by decide) (by decide) rfl rfl⟩

end SceneScript
