import SceneScript.Proofs.EntryMap
import SceneScript.Proofs.SceneText

/-!
# Ordered tables

An ordered table is written in the order of its keys. If no two of its keys are equal and none is
`nan`, that order is strict: there is one list only that has the entries in it, so nothing is left
of the order in which they were inserted. Whether the table is a block does not depend on that order
either, since it is decided by counting entries and by asking whether one of them indents.

What the order is can be read off the kinds of the keys. Those of one kind stand together, and among
them positions ascend as numbers, frames as exact values, and names as texts.

Main statements:

- `KindsAscend.of_compare`: keys that ascend are positions, frames and names, each ascending;
- `TableOf.pieces_eq_of_perm`: what is written does not depend on the order of insertion;
- `TableOf.render_ordered_of_perm`: an ordered table may be filled in any order.
-/

namespace SceneScript

/-! ## Keys that ascend -/

namespace Key

theorem compare_eq_lt_of_isLE {a b : Key} (ha : a.isNaN = false) (hne : (b == a) = false)
    (hle : (a.compare b).isLE = true) : a.compare b = .lt := by
  rcases Ordering.isLE_iff_eq_lt_or_eq_eq.1 hle with hlt | heq
  · exact hlt
  · rcases compare_eq_eq_iff.1 heq with hbeq | ⟨hnan, -⟩
    · rw [BEq.symm hbeq] at hne
      cases hne
    · rw [ha] at hnan
      cases hnan

theorem compare_asymm {a b : Key} (hab : a.compare b = .lt) : b.compare a ≠ .lt := by
  rw [compare_swap, hab]
  exact nofun

end Key

/-- Whether the exact value of one number is below that of another. -/
def Number.IsBelow (a b : Number) : Prop :=
  ∃ v w, a.exactValue? = some v ∧ b.exactValue? = some w ∧ v < w

theorem Number.isBelow_of_totalCompare {a b : Number} (ha : a.isNaN = false) (hb : b.isNaN = false)
    (h : a.totalCompare b = .lt) : a.IsBelow b := by
  obtain ⟨v, hv⟩ := exists_exactValue? ha
  obtain ⟨w, hw⟩ := exists_exactValue? hb
  have hcompare : a.compare? b = some (cmp v w) := by
    rw [compare?_eq_cmp, hv, hw]
    rfl
  rw [totalCompare_of_compare? hcompare] at h
  exact ⟨v, w, hv, hw, (cmp_eq_lt_iff v w).1 h⟩

section Kinds

variable {α : Type}

/-- Entries at positions, then entries under frames, then entries under names. -/
def ofKinds (positions : List (Nat × α)) (frames : List (Number × α)) (names : List (String × α)) :
    List (Key × α) :=
  positions.map (fun e => (.index e.1, e.2)) ++ frames.map (fun e => (.frame e.1, e.2)) ++
    names.map (fun e => (.name e.1, e.2))

/-- Whether entries stand by the kinds of their keys, and those of each kind ascend. -/
def KindsAscend (entries : List (Key × α)) : Prop :=
  ∃ positions frames names, entries = ofKinds positions frames names ∧
    positions.Pairwise (fun e e' => e.1 < e'.1) ∧
    frames.Pairwise (fun e e' => e.1.IsBelow e'.1) ∧
    names.Pairwise (fun e e' => e.1 < e'.1)

variable {positions : List (Nat × α)} {frames : List (Number × α)} {names : List (String × α)}

theorem mem_ofKinds_index {e : Nat × α} (he : e ∈ positions) :
    (.index e.1, e.2) ∈ ofKinds positions frames names := by
  simp [ofKinds, he]

theorem mem_ofKinds_frame {e : Number × α} (he : e ∈ frames) :
    (.frame e.1, e.2) ∈ ofKinds positions frames names := by
  simp [ofKinds, he]

theorem mem_ofKinds_name {e : String × α} (he : e ∈ names) :
    (.name e.1, e.2) ∈ ofKinds positions frames names := by
  simp [ofKinds, he]

/-- Keys that ascend are positions, frames and names, each ascending. -/
theorem KindsAscend.of_compare {entries : List (Key × α)}
    (hnumeric : ∀ e ∈ entries, e.1.isNaN = false)
    (h : entries.Pairwise fun e e' => e.1.compare e'.1 = .lt) : KindsAscend entries := by
  induction entries with
  | nil => exact ⟨[], [], [], rfl, .nil, .nil, .nil⟩
  | cons e rest ih =>
    obtain ⟨hfirst, hrest⟩ := List.forall_mem_cons.1 hnumeric
    obtain ⟨hbelow, hascend⟩ := List.pairwise_cons.1 h
    obtain ⟨positions, frames, names, rfl, hpositions, hframes, hnames⟩ := ih hrest hascend
    obtain ⟨k, v⟩ := e
    -- a kind that comes before that of the first key has no entries behind it
    have hnoPositions : k.rank ≠ 0 → positions = [] := by
      intro hrank
      refine List.eq_nil_iff_forall_not_mem.2 fun e he => hrank ?_
      have hle := Key.rank_le_of_isLE (Ordering.isLE_of_eq_lt (hbelow _ (mem_ofKinds_index he)))
      exact Nat.le_zero.1 hle
    cases k with
    | index i =>
      refine ⟨(i, v) :: positions, frames, names, rfl, ?_, hframes, hnames⟩
      refine List.pairwise_cons.2 ⟨fun e he => ?_, hpositions⟩
      exact Nat.compare_eq_lt.1 (hbelow _ (mem_ofKinds_index he))
    | frame f =>
      obtain rfl := hnoPositions nofun
      refine ⟨[], (f, v) :: frames, names, rfl, .nil, ?_, hnames⟩
      refine List.pairwise_cons.2 ⟨fun e he => ?_, hframes⟩
      have hmem : (.frame e.1, e.2) ∈ ofKinds [] frames names := mem_ofKinds_frame he
      exact Number.isBelow_of_totalCompare hfirst (hrest _ hmem) (hbelow _ hmem)
    | name s =>
      obtain rfl := hnoPositions nofun
      obtain rfl : frames = [] := by
        refine List.eq_nil_iff_forall_not_mem.2 fun e he => ?_
        cases hbelow _ (mem_ofKinds_frame he)
      refine ⟨[], [], (s, v) :: names, rfl, .nil, .nil, ?_⟩
      refine List.pairwise_cons.2 ⟨fun e he => ?_, hnames⟩
      exact compareOfLessAndEq_eq_lt.1 (hbelow _ (mem_ofKinds_name he))

end Kinds

/-! ## One order -/

namespace Entries

variable {κ α : Type} [BEq κ] [PartialEquivBEq κ]

theorem KeysApart.perm {l l' : List (κ × α)} (h : KeysApart l) (hperm : l.Perm l') :
    KeysApart l' := by
  refine (hperm.pairwise_iff ?_).1 h
  intro e e' hne
  rw [BEq.comm, hne]

end Entries

namespace TableOf

variable {t t' : Table}

/-- The keys of an ordered table ascend strictly if they are apart. -/
theorem arranged_ascending (hordered : t.ordered = true) (h : t.WellKeyed) :
    t.arranged.Pairwise fun e e' => e.1.compare e'.1 = .lt := by
  have hsorted : t.arranged.Pairwise fun e e' => (e.1.compare e'.1).isLE = true := by
    rw [arranged, arrange, hordered, if_pos rfl]
    refine pairwise_sortBy (fun e₁ e₂ e₃ => ?_) (fun e e' => ?_) t.entries.toList
    · exact Key.isLE_trans
    · exact Key.isLE_total e.1 e'.1
  have hapart : Entries.KeysApart t.arranged :=
    h.keysApart.perm (arrange_perm t.ordered Prod.fst t.entries.toList).symm
  refine (hapart.and hsorted).imp_of_mem ?_
  rintro e e' he - ⟨hne, hle⟩
  exact Key.compare_eq_lt_of_isLE (h.numeric e.1 (List.mem_map_of_mem (mem_arranged.1 he))) hne hle

/-- There is one ascending list of some entries only. -/
theorem arranged_eq_of_perm (hordered : t.ordered = true) (hordered' : t'.ordered = true)
    (h : t.WellKeyed) (h' : t'.WellKeyed) (hperm : t.entries.toList.Perm t'.entries.toList) :
    t.arranged = t'.arranged := by
  have harranged : t.arranged.Perm t'.arranged :=
    (arrange_perm t.ordered Prod.fst _).trans
      (hperm.trans (arrange_perm t'.ordered Prod.fst _).symm)
  refine harranged.eq_of_pairwise ?_ (arranged_ascending hordered h)
    (arranged_ascending hordered' h')
  intro e e' _ _ hlt hgt
  exact absurd hgt (Key.compare_asymm hlt)

/-- Whether a table is a block does not depend on the order in which its entries are stored. -/
theorem mustIndent_eq_of_perm (hindent : t.forceIndent = t'.forceIndent)
    (hunindent : t.forceUnindent = t'.forceUnindent)
    (hperm : t.entries.toList.Perm t'.entries.toList) : t.mustIndent = t'.mustIndent := by
  have hlength : t.length = t'.length := (hperm.map Prod.snd).countP_eq _
  rw [mustIndent_eq, mustIndent_eq, hindent, hunindent, hlength, hperm.any_eq]

/-- What is written does not depend on the order in which the entries of a table are stored. -/
theorem pieces_eq_of_perm (hordered : t.ordered = true) (hsettings : t.settings = t'.settings)
    (h : t.WellKeyed) (h' : t'.WellKeyed) (hperm : t.entries.toList.Perm t'.entries.toList)
    (level : Nat) : t.pieces level = t'.pieces level := by
  simp only [settings, Prod.mk.injEq] at hsettings
  obtain ⟨hname, hindent, hunindent, horder⟩ := hsettings
  have harranged := arranged_eq_of_perm hordered (horder ▸ hordered) h h' hperm
  have hblock := mustIndent_eq_of_perm hindent hunindent hperm
  rw [pieces_eq, pieces_eq, hname, hblock, written, written, harranged]

theorem wellKeyed_insertMany {t : Table} (h : t.entries = ∅) {l : List (Key × Value)}
    (hnumeric : ∀ e ∈ l, e.1.isNaN = false) (hapart : Entries.KeysApart l) :
    (t.insertMany l).entries.toList = l ∧ (t.insertMany l).WellKeyed := by
  have hlist : (t.insertMany l).entries.toList = l := by
    show (t.entries.insertMany l).toList = l
    rw [h]
    exact Entries.toList_ofList hapart
  refine ⟨hlist, ?_, ?_⟩
  · rw [Entries.keys, hlist]
    exact List.forall_mem_map.2 hnumeric
  · rw [Entries.keys, hlist]
    exact List.pairwise_map.2 hapart

open Piece (tagChars tabChars breakChars line)

/-- **An ordered table may be filled in any order.** If no two keys are equal and none is `nan`, two
ordered tables that are alike but for the order of insertion are written as the same text or fail
with the same error, at any level. Every entry that holds something is written once: positions
first, then frames, then names, each kind ascending. -/
theorem render_ordered_of_perm (name : String) (forceIndent forceUnindent : Bool)
    {l l' : List (Key × Value)} (hperm : l.Perm l') (hnumeric : ∀ e ∈ l, e.1.isNaN = false)
    (hapart : Entries.KeysApart l) :
    let empty : Table := { name, forceIndent, forceUnindent, ordered := true }
    let t := empty.insertMany l
    let t' := empty.insertMany l'
    (∀ level, t.pieces level = t'.pieces level) ∧ t.render = t'.render ∧
      KindsAscend t.written ∧ t.written.Perm (l.filter (!·.2.isNull)) ∧
      (∀ s, t.render = .ok s → s.toList = tagChars name ++ ['{', ' '] ++ breakChars t.mustIndent ++
        t.written.flatMap (fun e =>
          tabChars t.mustIndent 1 ++ line 1 e ++ breakChars t.mustIndent) ++ ['}']) := by
  intro empty t t'
  obtain ⟨hlist, hkeyed⟩ := wellKeyed_insertMany (t := empty) rfl hnumeric hapart
  obtain ⟨hlist', hkeyed'⟩ := wellKeyed_insertMany (t := empty) rfl
    (fun e he => hnumeric e (hperm.mem_iff.2 he)) (hapart.perm hperm)
  have hpieces : ∀ level, t.pieces level = t'.pieces level := by
    refine pieces_eq_of_perm rfl rfl hkeyed hkeyed' ?_
    rw [hlist, hlist']
    exact hperm
  have harranged : t.arranged.Perm l := hlist ▸ arrange_perm true Prod.fst t.entries.toList
  refine ⟨hpieces, ?_, ?_, ?_, ?_⟩
  · rw [render, render, hpieces]
  · refine .of_compare (fun e he => ?_) ((arranged_ascending rfl hkeyed).filter _)
    exact hnumeric e (harranged.mem_iff.1 (List.mem_filter.1 he).1)
  · exact harranged.filter _
  · intro s hs
    have hclosing : tabChars t.mustIndent (1 - 1) = [] := by
      unfold tabChars
      split <;> rfl
    have hname : t.name = name := rfl
    rw [(render_eq_ok_iff.1 hs).2, String.toList_ofList, allChars_pieces, inside, hclosing, hname]
    simp

/-- Entries of all kinds from the last to the first, frames between whole ones among them. -/
def kindsReversed : List (Key × Value) :=
  [(.name "RH", .point (8, 0)), (.name "LH", .null), (.frame 24, .int 1),
    (.frame (.float (.ofQuotient 25 2)), .text "half"), (.frame 0, .table { name := "Start" }),
    (.index 1, .bool true), (.index 0, .int 7)]

theorem render_ordered_kindsReversed :
    let empty : Table := { name := "Keys", ordered := true }
    let t := empty.insertMany kindsReversed
    let t' := empty.insertMany kindsReversed.reverse
    kindsReversed.Perm kindsReversed.reverse ∧ (∀ e ∈ kindsReversed, e.1.isNaN = false) ∧
      Entries.KeysApart kindsReversed ∧ t.render = t'.render ∧ KindsAscend t.written ∧
      t.written.map Prod.fst = [.index 0, .index 1, .frame 0,
        .frame (.float (.ofQuotient 25 2)), .frame 24, .name "RH"] := by
  intro empty t t'
  have hperm : kindsReversed.Perm kindsReversed.reverse := kindsReversed.reverse_perm.symm
  have hnumeric : ∀ e ∈ kindsReversed, e.1.isNaN = false := by decide +kernel
  have hapart : Entries.KeysApart kindsReversed := by
    unfold Entries.KeysApart
    decide +kernel
  obtain ⟨-, hrender, hascend, -, -⟩ :=
    render_ordered_of_perm "Keys" false false hperm hnumeric hapart
  exact ⟨hperm, hnumeric, hapart, hrender, hascend, by decide +kernel⟩

end TableOf

end SceneScript
