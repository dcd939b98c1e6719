import Mathlib.Data.List.Forall2
import SceneScript.Proofs.FiniteHandles
import SceneScript.Proofs.Nesting
import SceneScript.Proofs.NumberReading

/-!
# A line for each keyframe

In the text of a spline every keyframe stands on a line of its own, whatever handles and flags it
has: its table is forced to be one line, and so are the tables in it. The table of keyframes is
forced to be a block and so makes the spline around it one, which is why the other lines are always
the same ones, but for the color.

Being one line, the table has the same text inside of the spline as it has for itself, so the line
of a keyframe is its frame, that text and a comma.

The lines are in the order of time, since the table of keyframes is written in the order of its
frames. That a line belongs to one frame only is no matter of order: a text that is written has
finite frames, and such a frame can be read from its own text.

Main statements:

- `Keyframe.onOneLine`: a keyframe is written on one line;
- `Spline.allChars_pieces`: the text of a spline, line by line;
- `Spline.keyframeLine_eq`: the line of a keyframe, by the text of its table;
- `Spline.lines_of_render`: each keyframe has one line, and the lines ascend.
-/

namespace SceneScript

open Piece

/-! ## Values on one line -/

/-- Whether a value takes one line only, at whatever level it is written, and no text in it has a
line break. -/
structure Value.OnOneLine (v : Value) : Prop where
  worded : v.worded .unbroken = true
  unbroken : ∀ level, '\n' ∉ allChars (v.pieces level)

namespace Value

theorem onOneLine_of_worded {v : Value} (hv : (v.isTable || v.sequence?.isSome) = false)
    (h : v.worded .unbroken = true) : v.OnOneLine := by
  refine ⟨h, ?_⟩
  intro level hmem
  exact not_holds_spansLines hv ((v.newline_mem_pieces_iff h level).1 hmem)

theorem onOneLine_ofOption {α : Type} {f : α → Value} {a : Option α}
    (h : ∀ x, a = some x → (f x).OnOneLine) : (ofOption f a).OnOneLine := by
  cases a with
  | none => exact onOneLine_of_worded rfl rfl
  | some x => exact h x rfl

/-- A table that is forced to be one line is one if its entries are. -/
theorem onOneLine_table {t : Table} (hflag : t.forceUnindent = true)
    (htag : Wording.unbroken.tag t.name = true)
    (h : ∀ e ∈ t.entries.toList, e.1.worded .unbroken = true ∧ e.2.OnOneLine) :
    (table t).OnOneLine := by
  have hworded : t.worded .unbroken = true :=
    TableOf.worded_iff.2 ⟨htag, fun e he => ⟨(h e he).1, (h e he).2.worded⟩⟩
  refine ⟨hworded, ?_⟩
  intro level hmem
  rcases (TableOf.newline_mem_pieces_iff hworded (level + 1)).1 hmem with hblock | ⟨e, he, hmem⟩
  · rw [TableOf.mustIndent_of_forceUnindent hflag] at hblock
    cases hblock
  · exact (h e he).2.unbroken (level + 1) hmem

end Value

/-- A value on one line is written alike at every level. -/
theorem Value.OnOneLine.allChars_pieces {v : Value} (h : v.OnOneLine) (level : Nat) :
    allChars (v.pieces level) = allChars (v.pieces 0) := by
  rw [← Text.indentBy_of_not_mem (k := level) (h.unbroken 0), v.indentBy_pieces h.worded,
    Nat.zero_add]

/-- An entry whose value is on one line is a line without breaks. -/
theorem newline_not_mem_line {level : Nat} {e : Key × Value} (hkey : e.1.worded .unbroken = true)
    (hvalue : e.2.OnOneLine) : '\n' ∉ line level e := by
  simp [line, newline_not_mem_keyChars hkey, hvalue.unbroken level]

open Value (onOneLine_of_worded onOneLine_ofOption onOneLine_table)

theorem KeyframeFlags.onOneLine {f : KeyframeFlags} {t : Table} (h : f.table? = some t) :
    (Value.table t).OnOneLine := by
  unfold table? at h
  split at h
  · cases h
  · cases h
    refine onOneLine_table rfl rfl ?_
    have hfield : ∀ on, (Value.ofOption .bool on).OnOneLine :=
      fun _ => onOneLine_ofOption fun _ _ => onOneLine_of_worded rfl rfl
    simp only [TableOf.record, fields, List.map_cons, List.map_nil, List.forall_mem_cons]
    exact ⟨⟨rfl, hfield _⟩, ⟨rfl, hfield _⟩, ⟨rfl, hfield _⟩, ⟨rfl, hfield _⟩, ⟨rfl, hfield _⟩,
      List.forall_mem_nil _⟩

/-- **A keyframe is written on one line**, with any handles and any flags. -/
theorem Keyframe.onOneLine {k : Keyframe} (h : ∀ s, k.value = .text s → '\n' ∉ s.toList) :
    (Value.table k.table).OnOneLine := by
  have hvalue : k.value.toValue.OnOneLine := by
    cases hk : k.value with
    | number n => exact onOneLine_of_worded rfl rfl
    | text s => exact onOneLine_of_worded rfl (unbroken_iff.2 (h s hk))
  have hhandle : ∀ handle : Option Handle, (Value.ofOption .point handle).OnOneLine :=
    fun _ => onOneLine_ofOption fun _ _ => onOneLine_of_worded rfl rfl
  have hflags : (Value.ofOption .table k.flags.table?).OnOneLine :=
    onOneLine_ofOption fun _ ht => KeyframeFlags.onOneLine ht
  refine onOneLine_table rfl rfl ?_
  simp only [table, List.forall_mem_cons]
  exact ⟨⟨rfl, hvalue⟩, ⟨rfl, hhandle _⟩, ⟨rfl, hhandle _⟩, ⟨rfl, hflags⟩, List.forall_mem_nil _⟩

theorem Color.onOneLine_splineTable (c : Color) : (Value.table c.splineTable).OnOneLine := by
  refine onOneLine_table rfl rfl ?_
  have hstep : ∀ i, (Value.int i).OnOneLine := fun _ => onOneLine_of_worded rfl rfl
  simp only [splineTable, TableOf.record, List.map_cons, List.map_nil, List.forall_mem_cons]
  exact ⟨⟨rfl, hstep _⟩, ⟨rfl, hstep _⟩, ⟨rfl, hstep _⟩, List.forall_mem_nil _⟩

/-! ## Lines of a text -/

namespace Text

/-- The lines of a text. -/
def lines (s : String) : List (List Char) := s.toList.splitOn '\n'

/-- Lines that have a break at their end, and a last one without. -/
theorem splitOn_flatMap {ls : List (List Char)} {last : List Char} (h : ∀ l ∈ ls, '\n' ∉ l)
    (hlast : '\n' ∉ last) :
    (ls.flatMap (· ++ ['\n']) ++ last).splitOn '\n' = ls ++ [last] := by
  induction ls with
  | nil => exact List.splitOn_eq_singleton hlast
  | cons l rest ih =>
    obtain ⟨hl, hrest⟩ := List.forall_mem_cons.1 h
    have hsplit : (l :: rest).flatMap (· ++ ['\n']) ++ last =
        l ++ '\n' :: (rest.flatMap (· ++ ['\n']) ++ last) := by
      simp
    rw [hsplit, List.splitOn, List.splitOnP_append_cons _ _ (by decide)]
    show l.splitOn '\n' ++ _ = _
    rw [List.splitOn_eq_singleton hl]
    exact congrArg (l :: ·) (ih hrest)

/-- What is written up to the first `c` can be told from the beginning of a text. -/
theorem eq_of_append_cons_prefix {c : Char} {a b s t : List Char} (ha : c ∉ a) (hb : c ∉ b)
    (h : a ++ c :: s <+: b ++ c :: t) : a = b := by
  have hcut : ∀ {a s : List Char}, c ∉ a → (a ++ c :: s).takeWhile (· != c) = a := by
    intro a s ha
    have hother : ∀ d ∈ a, (d != c) = true := by
      intro d hd
      refine bne_iff_ne.2 ?_
      rintro rfl
      exact ha hd
    rw [List.takeWhile_append_of_pos hother]
    simp
  obtain ⟨rest, hrest⟩ := h
  rw [List.append_assoc] at hrest
  rw [← hcut (s := s ++ rest) ha, ← hcut (s := t) hb, ← hrest]
  rfl

end Text

/-! ## The lines of a spline -/

namespace Spline

variable {s : Spline}

/-- What the line of a keyframe at a frame begins with. -/
def frameOpening (f : Number) : List Char :=
  "\t\t[".toList ++ f.text.toList ++ "] = \x7b ".toList

/-- The line of a keyframe. -/
def keyframeLine (k : Keyframe) : List Char :=
  '\t' :: '\t' :: line 2 (.frame k.frame, .table k.table)

/-- The line of a color. -/
def colorLine (c : Color) : List Char := '\t' :: line 1 (.name "SplineColor", .table c.splineTable)

/-- The lines in front of the keyframes. -/
def headLines (s : Spline) : List (List Char) :=
  "BezierSpline \x7b ".toList :: s.color.toList.map colorLine ++ ["\tKeyFrames = \x7b ".toList]

theorem written_keyframeTable (h : FramesApart (s.stored.map (·.frame))) :
    s.keyframeTable.written = s.keyframes.map fun k => (.frame k.frame, .table k.table) := by
  rw [TableOf.written, arranged_keyframeTable h, List.filter_map, List.filter_eq_self.2]
  exact fun _ _ => rfl

theorem written_table (s : Spline) : s.table.written =
    s.color.toList.map (fun c => (.name "SplineColor", .table c.splineTable)) ++
      [(.name "KeyFrames", .table s.keyframeTable)] := by
  unfold table
  cases s.color <;> rfl

theorem mustIndent_keyframeTable (s : Spline) : s.keyframeTable.mustIndent = true := by
  simp [TableOf.mustIndent_eq, keyframeTable]

theorem mustIndent_table (s : Spline) : s.table.mustIndent = true := by
  refine (TableOf.mustIndent_iff _).2 ⟨rfl, .inr ⟨s.keyframeTable, ?_, s.mustIndent_keyframeTable⟩⟩
  exact ⟨_, List.mem_cons_of_mem _ List.mem_cons_self, rfl⟩

/-- The text of a spline, line by line. -/
theorem allChars_pieces (h : FramesApart (s.stored.map (·.frame))) :
    allChars (s.table.pieces 1) =
      (s.headLines ++ s.keyframes.map keyframeLine ++ ["\t\x7d, ".toList]).flatMap (· ++ ['\n']) ++
        "\x7d".toList := by
  have hkeyframes : line 1 (.name "KeyFrames", .table s.keyframeTable) =
      "KeyFrames = \x7b ".toList ++ '\n' :: (s.keyframes.map keyframeLine).flatMap (· ++ ['\n']) ++
        "\t\x7d, ".toList := by
    have hpieces : allChars ((Value.table s.keyframeTable).pieces 1) =
        allChars (s.keyframeTable.pieces 2) := rfl
    rw [line, hpieces, TableOf.allChars_pieces, TableOf.inside, written_keyframeTable h,
      mustIndent_keyframeTable]
    simp [keyChars, keyframeTable, tagChars, breakChars, tabChars, keyframeLine, List.flatMap_map]
  rw [TableOf.allChars_pieces, TableOf.inside, written_table, mustIndent_table]
  simp [headLines, tagChars, table, TableOf.record, breakChars, tabChars, List.flatMap_map,
    hkeyframes, colorLine]

theorem length_headLines (s : Spline) :
    s.headLines.length = if s.color.isSome then 3 else 2 := by
  unfold headLines
  cases s.color <;> rfl

theorem newline_not_mem_headLines : ∀ l ∈ s.headLines, '\n' ∉ l := by
  intro l hl
  have hcolor : ∀ c : Color, '\n' ∉ colorLine c := by
    intro c
    have hline : '\n' ∉ line 1 (.name "SplineColor", .table c.splineTable) :=
      newline_not_mem_line rfl c.onOneLine_splineTable
    simpa [colorLine] using hline
  rcases List.mem_append.1 hl with hl | hl
  · rcases List.mem_cons.1 hl with rfl | hl
    · decide
    · obtain ⟨c, -, rfl⟩ := List.mem_map.1 hl
      exact hcolor c
  · obtain rfl := List.mem_singleton.1 hl
    decide

theorem newline_not_mem_keyframeLine {k : Keyframe}
    (h : ∀ s, k.value = .text s → '\n' ∉ s.toList) : '\n' ∉ keyframeLine k := by
  have hline : '\n' ∉ line 2 (.frame k.frame, .table k.table) :=
    newline_not_mem_line rfl (Keyframe.onOneLine h)
  simpa [keyframeLine] using hline

/-- The line of a keyframe, up to its frame and behind it. -/
theorem exists_keyframeLine (k : Keyframe) :
    ∃ rest, keyframeLine k = frameOpening k.frame ++ rest := by
  have hpieces : allChars ((Value.table k.table).pieces 2) = allChars (k.table.pieces 3) := rfl
  rw [keyframeLine, line, hpieces, TableOf.allChars_pieces, TableOf.inside]
  exact ⟨_, by simp [keyChars, Keyframe.table, tagChars, frameOpening]; rfl⟩

/-- The line of a keyframe, by the text that its table has for itself. -/
theorem keyframeLine_eq {k : Keyframe} (h : ∀ s, k.value = .text s → '\n' ∉ s.toList)
    {content : String} (hrender : k.table.render = .ok content) :
    keyframeLine k = "\t\t[".toList ++ k.frame.text.toList ++ "] = ".toList ++ content.toList ++
      ", ".toList := by
  have hcontent : content.toList = allChars ((Value.table k.table).pieces 0) := by
    obtain ⟨-, rfl⟩ := TableOf.render_eq_ok_iff.1 hrender
    exact String.toList_ofList
  rw [hcontent, ← (Keyframe.onOneLine h).allChars_pieces 2]
  simp [keyframeLine, line, keyChars]

/-- A finite frame can be told from the line of its keyframe. -/
theorem frameOpening_prefix_iff {f : Number} {k : Keyframe} (hf : f.isFinite = true)
    (hk : k.frame.isFinite = true) : frameOpening f <+: keyframeLine k ↔ f = k.frame := by
  obtain ⟨rest, hline⟩ := exists_keyframeLine k
  constructor
  · intro h
    have hbracket : ∀ n : Number, ']' ∉ n.text.toList := Number.not_mem_text rfl
    have htext : f.text.toList = k.frame.text.toList := by
      have h : f.text.toList ++ ']' :: " = \x7b ".toList <+:
          k.frame.text.toList ++ ']' :: (" = \x7b ".toList ++ rest) := by
        simpa [hline, frameOpening] using h
      exact Text.eq_of_append_cons_prefix (hbracket f) (hbracket k.frame) h
    have hread := Number.read?_text hf
    rw [htext, Number.read?_text hk] at hread
    exact (Option.some.inj hread).symm
  · rintro rfl
    exact ⟨rest, hline.symm⟩

/-- Ascending frames differ. -/
theorem nodup_of_ascending {frames : List Number} (h : Ascending frames) : frames.Nodup := by
  refine h.imp ?_
  rintro f _ hlt rfl
  exact Number.compare?_asymm hlt hlt

/-- Keyframes with their handles have the texts of those that are stored. -/
theorem unbroken_of_mem_keyframes
    (htext : ∀ k ∈ s.stored, ∀ content, k.value = .text content → '\n' ∉ content.toList)
    {k' : Keyframe} (hk' : k' ∈ s.keyframes) :
    ∀ content, k'.value = .text content → '\n' ∉ content.toList := by
  obtain ⟨i, k, hk, rfl⟩ := mem_keyframes_iff.1 hk'
  exact htext k (s.sorted_perm.mem_iff.1 (List.mem_of_getElem? hk))

theorem length_frames (s : Spline) : s.frames.length = s.length := by
  rw [s.frames_perm.length_eq, List.length_map, length]

section Written

variable (h : FramesApart (s.stored.map (·.frame))) {text : String}
  (hrender : s.table.render = .ok text)

include h hrender

/-- The frames of a spline that is written are finite. -/
theorem isFinite_of_mem_keyframes {k : Keyframe} (hk : k ∈ s.keyframes) :
    k.frame.isFinite = true :=
  ((exists_write_iff h).1 ⟨text, TableOf.write_eq_ok_iff.2 hrender⟩ k hk).1

/-- The table of a keyframe that is written has a text for itself. -/
theorem exists_render_table {k : Keyframe} (hk : k ∈ s.keyframes) :
    ∃ content, k.table.render = .ok content := by
  obtain ⟨-, hvalue, hhandles⟩ :=
    (exists_write_iff h).1 ⟨text, TableOf.write_eq_ok_iff.2 hrender⟩ k hk
  have hwritable := k.writable_table_iff.2 ⟨hvalue, hhandles⟩
  obtain ⟨content, hcontent⟩ := k.table.exists_write_iff.2 hwritable
  exact ⟨content, TableOf.write_eq_ok_iff.1 hcontent⟩

theorem lines_eq
    (htext : ∀ k ∈ s.stored, ∀ content, k.value = .text content → '\n' ∉ content.toList) :
    Text.lines text =
      s.headLines ++ s.keyframes.map keyframeLine ++ ["\t\x7d, ".toList, "\x7d".toList] := by
  have hbreaks : ∀ l ∈ s.headLines ++ s.keyframes.map keyframeLine ++ ["\t\x7d, ".toList],
      '\n' ∉ l := by
    simp only [List.forall_mem_append, List.forall_mem_map, List.forall_mem_singleton]
    refine ⟨⟨newline_not_mem_headLines, fun k hk => ?_⟩, by decide⟩
    exact newline_not_mem_keyframeLine (unbroken_of_mem_keyframes htext hk)
  obtain ⟨-, rfl⟩ := TableOf.render_eq_ok_iff.1 hrender
  rw [Text.lines, String.toList_ofList, allChars_pieces h, Text.splitOn_flatMap hbreaks (by decide),
    List.append_assoc _ [_] [_]]
  rfl

/-- No other line begins with the frame of a keyframe. -/
theorem existsUnique_line {k : Keyframe} (hk : k ∈ s.stored) :
    ∃! i : Nat, ∃ l, (s.keyframes.map keyframeLine)[i]? = some l ∧
      frameOpening k.frame <+: l := by
  have hmem : k.frame ∈ s.frames := s.frames_perm.mem_iff.2 (List.mem_map_of_mem hk)
  obtain ⟨i, hi⟩ := List.mem_iff_getElem?.1 hmem
  have hunique : ∀ j, s.frames[j]? = some k.frame → j = i := by
    intro j hj
    obtain ⟨hlt, -⟩ := List.getElem?_eq_some_iff.1 hj
    exact (List.getElem?_inj hlt (nodup_of_ascending (frames_ascending h))).1 (hj.trans hi.symm)
  rw [← map_frame_keyframes] at hi hunique
  simp only [List.getElem?_map, Option.map_eq_some_iff] at hi hunique ⊢
  obtain ⟨k₀, hk₀, hframe⟩ := hi
  have hfinite := isFinite_of_mem_keyframes h hrender (List.mem_of_getElem? hk₀)
  -- the line at a position begins with this frame exactly if the keyframe there stands at it
  have hbegins : ∀ (j : Nat) (k' : Keyframe), s.keyframes[j]? = some k' →
      (frameOpening k.frame <+: keyframeLine k' ↔ k'.frame = k.frame) := by
    intro j k' hk'
    have hfinite' := isFinite_of_mem_keyframes h hrender (List.mem_of_getElem? hk')
    rw [← hframe, frameOpening_prefix_iff hfinite hfinite', eq_comm]
  refine ⟨i, ⟨_, ⟨k₀, hk₀, rfl⟩, (hbegins i k₀ hk₀).2 hframe⟩, ?_⟩
  rintro j ⟨_, ⟨k', hk', rfl⟩, hline⟩
  exact hunique j ⟨k', hk', (hbegins j k' hk').1 hline⟩

/-- **Each keyframe has one line, and the lines ascend.** A spline whose frames are apart and whose
texts break no lines is written as a line for itself, one for its color if it has any, one that
opens the keyframes, one for each keyframe, and two that close. The line of a keyframe is its frame
and the text of its table, the frames are those of the stored keyframes and ascend strictly, and
each of them begins one line only. -/
theorem lines_of_render
    (htext : ∀ k ∈ s.stored, ∀ content, k.value = .text content → '\n' ∉ content.toList) :
    (Text.lines text).length = s.length + (if s.color.isSome then 5 else 4) ∧
    ∃ body : List (List Char),
      Text.lines text = s.headLines ++ body ++ ["\t\x7d, ".toList, "\x7d".toList] ∧
      body.length = s.length ∧ List.Forall₂ (fun f l => frameOpening f <+: l) s.frames body ∧
      List.Forall₂ (fun k l => ∃ content, k.table.render = .ok content ∧
        l = "\t\t[".toList ++ k.frame.text.toList ++ "] = ".toList ++ content.toList ++
          ", ".toList) s.keyframes body ∧
      s.frames.Perm (s.stored.map (·.frame)) ∧ Ascending s.frames ∧
      ∀ k ∈ s.stored, ∃! i : Nat, ∃ l, body[i]? = some l ∧ frameOpening k.frame <+: l := by
  have hlines := lines_eq h hrender htext
  have hbody : (s.keyframes.map keyframeLine).length = s.length := by
    rw [List.length_map, ← s.length_frames, ← map_frame_keyframes, List.length_map]
  refine ⟨?_, _, hlines, hbody, ?_, ?_, s.frames_perm, frames_ascending h, ?_⟩
  · rw [hlines, List.length_append, List.length_append, hbody, length_headLines]
    show _ + _ + 2 = _
    split <;> omega
  · rw [← map_frame_keyframes, List.forall₂_map_left_iff, List.forall₂_map_right_iff]
    refine List.forall₂_same.2 fun k _ => ?_
    obtain ⟨rest, hline⟩ := exists_keyframeLine k
    exact ⟨rest, hline.symm⟩
  · refine List.forall₂_map_right_iff.2 (List.forall₂_same.2 fun k hk => ?_)
    obtain ⟨content, hcontent⟩ := exists_render_table h hrender hk
    exact ⟨content, hcontent, keyframeLine_eq (unbroken_of_mem_keyframes htext hk) hcontent⟩
  · exact fun k hk => existsUnique_line h hrender hk

end Written

/-- A spline with a color, whose keyframes are stored from the last to the first. -/
def coloredLastFirst : Spline := { name := "Zoom", color := some .magenta, stored := lastFirst }

/-- Its lines. -/
def coloredLines : List String :=
  ["BezierSpline \x7b ", "\tSplineColor = \x7b Red = 255, Green = 0, Blue = 255, \x7d, ",
    "\tKeyFrames = \x7b ",
    "\t\t[0] = \x7b \"start\", Flags = \x7b Loop = true, \x7d, \x7d, ",
    "\t\t[12.5] = \x7b 5, RH = \x7b 20, 5 \x7d, \x7d, ",
    "\t\t[24] = \x7b 1, LH = \x7b 12.5, 1 \x7d, \x7d, ", "\t\x7d, ", "\x7d"]

theorem lines_of_render_coloredLastFirst :
    FramesApart (coloredLastFirst.stored.map (·.frame)) ∧
    (∀ k ∈ coloredLastFirst.stored, ∀ content, k.value = .text content →
      '\n' ∉ content.toList) ∧
    ∃ text, coloredLastFirst.table.render = .ok text ∧ (Text.lines text).length = 3 + 5 ∧
      Text.lines text = coloredLines.map String.toList := by
  have h : FramesApart (coloredLastFirst.stored.map (·.frame)) :=
    ⟨by decide +kernel, by decide +kernel⟩
  have htext : ∀ k ∈ coloredLastFirst.stored, ∀ content, k.value = .text content →
      '\n' ∉ content.toList := by
    simp only [coloredLastFirst, lastFirst, List.forall_mem_cons]
    refine ⟨nofun, nofun, ?_, List.forall_mem_nil _⟩
    rintro _ ⟨⟩
    decide
  have hfinite : ∀ k ∈ coloredLastFirst.keyframes, k.frame.isFinite = true ∧
      k.value.isFinite = true ∧ k.HasFiniteHandles := by
    decide +kernel
  obtain ⟨text, hwrite⟩ := (exists_write_iff h).2 hfinite
  have hrender := TableOf.write_eq_ok_iff.1 hwrite
  have hlines : coloredLastFirst.table.render.toOption.map Text.lines =
      some (coloredLines.map String.toList) := by
    decide +kernel
  rw [hrender] at hlines
  exact ⟨h, htext, text, hrender, (lines_of_render h hrender htext).1, Option.some.inj hlines⟩

end Spline

end SceneScript
