import SceneScript.Proofs.FrameMap

/-!
# Handles look no further than the next keyframe

All handles of a spline are made anew whenever it is read, from positions in the sorted list, and a
keyframe more or less moves every position behind it. Still a handle depends on its own keyframe and
the next one only. So the list is cut at a frame: each of the two parts is resolved for itself, with
one keyframe of the other part beside it, and only the keyframe at the cut looks at that one. Two
splines that agree everywhere but at a frame are cut into the same two parts.

Main statements:

- `filter_keyframes_cut`: the two parts of the sorted keyframes are resolved for themselves;
- `AgreeAway.change`: a change at a frame leaves what is stored at all others;
- `AgreeAway.earlier_eq`, `AgreeAway.later_eq`: one part is the same but for the handles at the cut;
- `keyframes_change_local`: a change at a frame moves only the handles that point to it.
-/

namespace SceneScript

/-! ## Cutting a list -/

section Lists

variable {α : Type}

/-- A list in which nothing before an item with `p` is without it is cut in two by `p`. -/
theorem eq_filter_append_filter_not {p : α → Bool} {l : List α}
    (h : l.Pairwise fun a b => p b = true → p a = true) :
    l = l.filter p ++ l.filter (!p ·) := by
  induction l with
  | nil => rfl
  | cons a rest ih =>
    obtain ⟨hfirst, hrest⟩ := List.pairwise_cons.1 h
    cases ha : p a with
    | true =>
      rw [List.filter_cons_of_pos ha, List.filter_cons_of_neg (by simp [ha]), List.cons_append,
        ← ih hrest]
    | false =>
      have hnone : rest.filter p = [] := by
        refine List.filter_eq_nil_iff.2 fun b hb hpb => ?_
        rw [hfirst b hb hpb] at ha
        cases ha
      have hall : rest.filter (!p ·) = rest := by
        simpa [hnone] using (ih hrest).symm
      rw [List.filter_cons_of_neg (by simp [ha]), List.filter_cons_of_pos (by simp [ha]), hnone,
        hall, List.nil_append]

theorem mem_tail_of_mem {a : α} {l : List α} (h : a ∈ l) (hfirst : l.head? ≠ some a) :
    a ∈ l.tail := by
  cases h with
  | head => exact absurd rfl hfirst
  | tail _ hrest => exact hrest

end Lists

/-! ## Times -/

namespace Number

variable {a b c : Number}

/-- Whether one frame is before another. -/
def isBefore (a b : Number) : Bool := a.compare? b = some .lt

theorem isBefore_iff : a.isBefore b = true ↔ a.compare? b = some .lt := decide_eq_true_iff

theorem isBefore_iff_exactValue? : a.isBefore b = true ↔
    ∃ v w, a.exactValue? = some v ∧ b.exactValue? = some w ∧ v < w := by
  rw [isBefore_iff, compare?_eq_cmp]
  cases a.exactValue? with
  | none => exact ⟨nofun, nofun⟩
  | some v =>
    cases b.exactValue? with
    | none => exact ⟨nofun, nofun⟩
    | some w =>
      show some (cmp v w) = some .lt ↔ _
      rw [Option.some_inj, cmp_eq_lt_iff]
      constructor
      · intro hlt
        exact ⟨v, w, rfl, rfl, hlt⟩
      · rintro ⟨v', w', hv, hw, hlt⟩
        rwa [Option.some.inj hv, Option.some.inj hw]

theorem isBefore_trans (hab : a.isBefore b = true) (hbc : b.isBefore c = true) :
    a.isBefore c = true := by
  obtain ⟨u, v, ha, hb, huv⟩ := isBefore_iff_exactValue?.1 hab
  obtain ⟨v', w, hb', hc, hvw⟩ := isBefore_iff_exactValue?.1 hbc
  obtain rfl : v = v' := Option.some.inj (hb.symm.trans hb')
  exact isBefore_iff_exactValue?.2 ⟨u, w, ha, hc, huv.trans hvw⟩

theorem not_beq_of_isBefore (h : a.isBefore b = true) : (a == b) = false :=
  not_beq_of_compare?_eq_lt (isBefore_iff.1 h)

theorem isBefore_or_beq_or_isBefore (ha : a.isNaN = false) (hb : b.isNaN = false) :
    a.isBefore b = true ∨ (a == b) = true ∨ b.isBefore a = true := by
  obtain ⟨v, hv⟩ := exists_exactValue? ha
  obtain ⟨w, hw⟩ := exists_exactValue? hb
  rcases lt_trichotomy v w with hlt | rfl | hgt
  · exact .inl (isBefore_iff_exactValue?.2 ⟨v, w, hv, hw, hlt⟩)
  · exact .inr (.inl (beq_iff_exactValue?.2 ⟨v, hv, hw⟩))
  · exact .inr (.inr (isBefore_iff_exactValue?.2 ⟨w, v, hw, hv, hgt⟩))

end Number

namespace Spline

variable {s s' : Spline} {f : Number}

/-! ## The two sides of a frame -/

/-- The keyframes shown before a frame. -/
def earlier (s : Spline) (f : Number) : List Keyframe := s.keyframes.filter (·.frame.isBefore f)

/-- The keyframes shown behind a frame. -/
def later (s : Spline) (f : Number) : List Keyframe := s.keyframes.filter (f.isBefore ·.frame)

/-- The frame right before `f`, whether or not there is a keyframe at `f`. -/
def frameBefore (s : Spline) (f : Number) : Option Number := (s.earlier f).getLast?.map (·.frame)

/-- The frame right behind `f`, whether or not there is a keyframe at `f`. -/
def frameBehind (s : Spline) (f : Number) : Option Number := (s.later f).head?.map (·.frame)

/-- Whether a frame is `f` or the next one to it on either side. -/
def IsNear (s : Spline) (f g : Number) : Prop :=
  (g == f) = true ∨ s.frameBefore f = some g ∨ s.frameBehind f = some g

instance (s : Spline) (f g : Number) : Decidable (s.IsNear f g) :=
  inferInstanceAs (Decidable (_ ∨ _ ∨ _))

theorem exists_of_mem_mapPart {before behind : Option Keyframe} {l : List Keyframe} {k : Keyframe}
    (h : k ∈ mapPart s.resolve before behind l) : ∃ k' ∈ l, k'.frame = k.frame := by
  have hframe := List.mem_map_of_mem (f := (·.frame)) h
  rw [map_frame_mapPart] at hframe
  exact List.mem_map.1 hframe

theorem filter_mapPart_of_forall {p : Number → Bool} {before behind : Option Keyframe}
    {l : List Keyframe} (h : ∀ k ∈ l, p k.frame = true) :
    (mapPart s.resolve before behind l).filter (p ·.frame) = mapPart s.resolve before behind l := by
  refine List.filter_eq_self.2 fun k hk => ?_
  obtain ⟨k', hk', hframe⟩ := exists_of_mem_mapPart hk
  exact hframe ▸ h k' hk'

theorem filter_mapPart_of_forall_not {p : Number → Bool} {before behind : Option Keyframe}
    {l : List Keyframe} (h : ∀ k ∈ l, p k.frame = false) :
    (mapPart s.resolve before behind l).filter (p ·.frame) = [] := by
  refine List.filter_eq_nil_iff.2 fun k hk => ?_
  obtain ⟨k', hk', hframe⟩ := exists_of_mem_mapPart hk
  rw [← hframe, h k' hk']
  exact Bool.false_ne_true

/-- Where frames cut the sorted keyframes in two, both parts are resolved for themselves. -/
theorem filter_keyframes_cut {p : Number → Bool}
    (h : s.sorted.Pairwise fun k k' => p k'.frame = true → p k.frame = true) :
    (∃ behind, s.keyframes.filter (p ·.frame) =
      mapPart s.resolve none behind (s.sorted.filter (p ·.frame))) ∧
    (∃ before, s.keyframes.filter (!p ·.frame) =
      mapPart s.resolve before none (s.sorted.filter (!p ·.frame))) := by
  have hcut := eq_filter_append_filter_not h
  have hfront : ∀ k ∈ s.sorted.filter (p ·.frame), p k.frame = true := by simp
  have hback : ∀ k ∈ s.sorted.filter (!p ·.frame), p k.frame = false := by simp
  generalize s.sorted.filter (p ·.frame) = front at hcut hfront ⊢
  generalize s.sorted.filter (!p ·.frame) = back at hcut hback ⊢
  have hkeyframes : s.keyframes = mapPart s.resolve none (back.head?.or none) front ++
      mapPart s.resolve (front.getLast?.or none) none back := by
    rw [keyframes, mapNeighbours_eq_mapPart, hcut, mapPart_append]
  constructor
  · refine ⟨back.head?.or none, ?_⟩
    rw [hkeyframes, List.filter_append, filter_mapPart_of_forall hfront,
      filter_mapPart_of_forall_not hback, List.append_nil]
  · refine ⟨front.getLast?.or none, ?_⟩
    rw [hkeyframes, List.filter_append, filter_mapPart_of_forall_not (p := (!p ·)) (by simpa),
      filter_mapPart_of_forall (p := (!p ·)) (by simpa), List.nil_append]

theorem sorted_isBefore (h : FramesApart (s.stored.map (·.frame))) :
    s.sorted.Pairwise fun k k' => k.frame.isBefore k'.frame = true :=
  (List.pairwise_map.1 (frames_ascending h)).imp Number.isBefore_iff.2

theorem earlier_eq_mapPart (h : FramesApart (s.stored.map (·.frame))) (f : Number) :
    ∃ behind, s.earlier f =
      mapPart s.resolve none behind (s.sorted.filter (·.frame.isBefore f)) := by
  refine (filter_keyframes_cut (p := (·.isBefore f)) ?_).1
  exact (sorted_isBefore h).imp Number.isBefore_trans

theorem later_eq_mapPart (h : FramesApart (s.stored.map (·.frame))) (f : Number) :
    ∃ before, s.later f =
      mapPart s.resolve before none (s.sorted.filter (f.isBefore ·.frame)) := by
  have hcut := (filter_keyframes_cut (s := s) (p := (!f.isBefore ·)) ?_).2
  · simpa only [Bool.not_not, later] using hcut
  · refine (sorted_isBefore h).imp fun hlt hnot => ?_
    rw [Bool.not_eq_true'] at hnot ⊢
    rw [← Bool.not_eq_true] at hnot ⊢
    exact fun hk => hnot (Number.isBefore_trans hk hlt)

theorem mem_sides (h : FramesApart (s.stored.map (·.frame))) (hf : f.isNaN = false) {k : Keyframe}
    (hk : k ∈ s.keyframes) (hne : (k.frame == f) = false) : k ∈ s.earlier f ∨ k ∈ s.later f := by
  have hframe : k.frame ∈ s.frames := by
    rw [← map_frame_keyframes]
    exact List.mem_map_of_mem hk
  have hnumeric := (h.perm s.frames_perm.symm).numeric k.frame hframe
  rcases Number.isBefore_or_beq_or_isBefore hnumeric hf with hbefore | heq | hbehind
  · exact .inl (List.mem_filter.2 ⟨hk, hbefore⟩)
  · rw [heq] at hne
    cases hne
  · exact .inr (List.mem_filter.2 ⟨hk, hbehind⟩)

/-! ## Two splines that differ at one frame -/

/-- Whether two splines have the same default curve and store the same but at one frame. -/
structure AgreeAway (f : Number) (s s' : Spline) : Prop where
  defaultCurve : s.defaultCurve = s'.defaultCurve
  stored : s.stored.filter (!·.frame == f) = s'.stored.filter (!·.frame == f)

namespace AgreeAway

theorem symm (h : AgreeAway f s s') : AgreeAway f s' s := ⟨h.defaultCurve.symm, h.stored.symm⟩

/-- The sorted keyframes are the same but at that frame. -/
theorem filter_sorted (h : AgreeAway f s s') (hs : FramesApart (s.stored.map (·.frame)))
    (hs' : FramesApart (s'.stored.map (·.frame))) {p : Number → Bool}
    (hp : ∀ g, p g = true → (g == f) = false) :
    s.sorted.filter (p ·.frame) = s'.sorted.filter (p ·.frame) := by
  have haway : ∀ l : List Keyframe,
      (l.filter (!·.frame == f)).filter (p ·.frame) = l.filter (p ·.frame) := by
    intro l
    rw [List.filter_filter]
    refine List.filter_congr fun k _ => ?_
    cases hk : p k.frame with
    | true => rw [hp k.frame hk]; rfl
    | false => rfl
  have hstored : s.stored.filter (p ·.frame) = s'.stored.filter (p ·.frame) := by
    rw [← haway s.stored, h.stored, haway]
  have hperm := s.sorted_perm.filter (p ·.frame)
  rw [hstored] at hperm
  refine eq_of_perm_of_ascending ?_ ?_ (hperm.trans (s'.sorted_perm.filter _).symm)
  · exact (frames_ascending hs).sublist (List.filter_sublist.map _)
  · exact (frames_ascending hs').sublist (List.filter_sublist.map _)

section Sides

variable (h : AgreeAway f s s') (hs : FramesApart (s.stored.map (·.frame)))
  (hs' : FramesApart (s'.stored.map (·.frame)))
include h hs hs'

/-- The keyframes before the frame are resolved from the same part. -/
theorem exists_earlier : ∃ behind behind' l, s.earlier f = mapPart s.resolve none behind l ∧
    s'.earlier f = mapPart s.resolve none behind' l := by
  obtain ⟨behind, hbehind⟩ := earlier_eq_mapPart hs f
  obtain ⟨behind', hbehind'⟩ := earlier_eq_mapPart hs' f
  refine ⟨behind, behind', _, hbehind, ?_⟩
  rw [hbehind', resolve_eq h.defaultCurve,
    h.filter_sorted hs hs' fun _ => Number.not_beq_of_isBefore]

/-- The keyframes behind the frame are resolved from the same part. -/
theorem exists_later : ∃ before before' l, s.later f = mapPart s.resolve before none l ∧
    s'.later f = mapPart s.resolve before' none l := by
  obtain ⟨before, hbefore⟩ := later_eq_mapPart hs f
  obtain ⟨before', hbefore'⟩ := later_eq_mapPart hs' f
  refine ⟨before, before', _, hbefore, ?_⟩
  rw [hbefore', resolve_eq h.defaultCurve, h.filter_sorted hs hs' fun g hg => ?_]
  rw [BEq.comm, Number.not_beq_of_isBefore hg]

theorem frameBefore_eq : s.frameBefore f = s'.frameBefore f := by
  obtain ⟨behind, behind', l, hl, hl'⟩ := h.exists_earlier hs hs'
  simp only [frameBefore, hl, hl', ← List.getLast?_map, map_frame_mapPart]

theorem frameBehind_eq : s.frameBehind f = s'.frameBehind f := by
  obtain ⟨before, before', l, hl, hl'⟩ := h.exists_later hs hs'
  simp only [frameBehind, hl, hl', ← List.head?_map, map_frame_mapPart]

theorem dropLast_earlier : (s.earlier f).dropLast = (s'.earlier f).dropLast := by
  obtain ⟨behind, behind', l, hl, hl'⟩ := h.exists_earlier hs hs'
  rw [hl, hl', dropLast_mapPart]

theorem tail_later : (s.later f).tail = (s'.later f).tail := by
  obtain ⟨before, before', l, hl, hl'⟩ := h.exists_later hs hs'
  rw [hl, hl', tail_mapPart]

/-- Before the frame nothing but right handles can differ. -/
theorem earlier_eq : (s.earlier f).map (fun k => { k with right := none }) =
    (s'.earlier f).map fun k => { k with right := none } := by
  obtain ⟨behind, behind', l, hl, hl'⟩ := h.exists_earlier hs hs'
  rw [hl, hl', map_mapPart_congr_behind fun _ _ _ _ => rfl]

/-- Behind the frame nothing but left handles can differ. -/
theorem later_eq : (s.later f).map (fun k => { k with left := none }) =
    (s'.later f).map fun k => { k with left := none } := by
  obtain ⟨before, before', l, hl, hl'⟩ := h.exists_later hs hs'
  rw [hl, hl', map_mapPart_congr_before fun _ _ _ _ => rfl]

/-- What is shown far from the frame is shown by the other spline, too. -/
theorem mem_of_mem (hf : f.isNaN = false) {k : Keyframe} (hk : k ∈ s.keyframes)
    (hfar : ¬s.IsNear f k.frame) : k ∈ s'.keyframes := by
  rw [IsNear, not_or, not_or, Bool.not_eq_true] at hfar
  obtain ⟨hne, hbefore, hbehind⟩ := hfar
  rcases mem_sides hs hf hk hne with hmem | hmem
  · have hdrop : k ∈ (s.earlier f).dropLast := by
      refine List.mem_dropLast_of_mem_of_ne_getLast? hmem fun hlast => hbefore ?_
      rw [frameBefore, ← hlast]
      rfl
    rw [h.dropLast_earlier hs hs'] at hdrop
    exact List.mem_of_mem_filter (List.mem_of_mem_dropLast hdrop)
  · have htail : k ∈ (s.later f).tail := by
      refine mem_tail_of_mem hmem fun hfirst => hbehind ?_
      rw [frameBehind, hfirst]
      rfl
    rw [h.tail_later hs hs'] at htail
    exact List.mem_of_mem_filter (List.mem_of_mem_tail htail)

end Sides

end AgreeAway

/-! ## One change -/

/-- Whether a change writes at one frame only. What edits a keyframe there leaves it there. -/
def Change.IsAt (f : Number) : Change → Prop
  | .add k => k.frame = f
  | .set frame _ => frame = f
  | .edit frame e => frame = f ∧ ∀ k, (e k).frame = k.frame
  | .remove frame => frame = f
  | .addAll _ _ | .applyCurve _ | .setColor _ => False

theorem filter_put {k : Keyframe} (hk : (k.frame == k.frame) = true) (l : List Keyframe) :
    (put k l).filter (!·.frame == k.frame) = l.filter (!·.frame == k.frame) := by
  induction l with
  | nil => simp [put, hk]
  | cons k' rest ih => cases h : k'.frame == k.frame <;> simp [put, h, hk, ih]

theorem filter_editAt {e : Keyframe → Keyframe} (he : ∀ k, (e k).frame = k.frame)
    (l : List Keyframe) :
    (editAt f e l).filter (!·.frame == f) = l.filter (!·.frame == f) := by
  induction l with
  | nil => rfl
  | cons k rest ih => cases h : k.frame == f <;> simp [editAt, h, he, ih]

theorem filter_eraseP (l : List Keyframe) :
    (l.eraseP (·.frame == f)).filter (!·.frame == f) = l.filter (!·.frame == f) := by
  induction l with
  | nil => rfl
  | cons k rest ih => cases h : k.frame == f <;> simp [h, ih]

theorem AgreeAway.change {c : Change} (hf : f.isNaN = false) (hc : c.IsAt f) :
    AgreeAway f s (s.change c) := by
  have hself : (f == f) = true := by rw [Number.beq_self, hf, Bool.not_false]
  have hadd : ∀ k : Keyframe, k.frame = f → AgreeAway f s (s.add k) := by
    rintro k rfl
    have hput := filter_put (k := { k with curve := some (k.curve.getD s.defaultCurve) }) hself
    exact ⟨rfl, (hput s.stored).symm⟩
  have hmodify : ∀ e : Keyframe → Keyframe, (∀ k, (e k).frame = k.frame) →
      AgreeAway f s (s.modify f e) := fun e he => ⟨rfl, (filter_editAt he s.stored).symm⟩
  cases c with
  | add k => exact hadd k hc
  | set frame value =>
    obtain rfl : frame = f := hc
    show AgreeAway frame s (s.set frame value)
    unfold set
    split
    · exact hmodify _ fun _ => rfl
    · exact hadd _ rfl
  | edit frame e =>
    obtain ⟨rfl, he⟩ := hc
    exact hmodify e he
  | remove frame =>
    obtain rfl : frame = f := hc
    exact ⟨rfl, (filter_eraseP s.stored).symm⟩
  | _ => exact hc.elim

theorem Change.IsAt.proper {c : Change} (hc : c.IsAt f) (hf : f.isNaN = false) : c.Proper := by
  cases c with
  | add k => exact (congrArg Number.isNaN hc).trans hf
  | set frame value => exact (congrArg Number.isNaN hc).trans hf
  | edit frame e => exact hc.2
  | remove frame => trivial
  | _ => exact hc.elim

theorem framesApart_change {c : Change} (h : FramesApart (s.stored.map (·.frame)))
    (hf : f.isNaN = false) (hc : c.IsAt f) : FramesApart ((s.change c).stored.map (·.frame)) :=
  ((Shows.of_framesApart h).change (hc.proper hf)).framesApart

/-- **A change at one frame moves the handles that point to it, and no others.** The keyframes are
shown in the order of time before and after, and the frames next to the changed one stay the same. A
keyframe that is neither at this frame nor next to it is shown exactly as it was; of the two next to
it, the one before changes at most its right handle and the one behind at most its left handle. -/
theorem keyframes_change_local {c : Change} (h : FramesApart (s.stored.map (·.frame)))
    (hf : f.isNaN = false) (hc : c.IsAt f) :
    let s' := s.change c
    (s'.keyframes.map (·.frame)).Perm (s'.stored.map (·.frame)) ∧
      Ascending (s.keyframes.map (·.frame)) ∧ Ascending (s'.keyframes.map (·.frame)) ∧
      s'.frameBefore f = s.frameBefore f ∧ s'.frameBehind f = s.frameBehind f ∧
      (∀ k, ¬s.IsNear f k.frame → (k ∈ s'.keyframes ↔ k ∈ s.keyframes)) ∧
      (s'.earlier f).dropLast = (s.earlier f).dropLast ∧ (s'.later f).tail = (s.later f).tail ∧
      (s'.earlier f).map (fun k => { k with right := none }) =
        (s.earlier f).map (fun k => { k with right := none }) ∧
      (s'.later f).map (fun k => { k with left := none }) =
        (s.later f).map (fun k => { k with left := none }) := by
  intro s'
  have h' : FramesApart (s'.stored.map (·.frame)) := framesApart_change h hf hc
  have hagree : AgreeAway f s' s := (AgreeAway.change hf hc).symm
  have hbefore := hagree.frameBefore_eq h' h
  have hbehind := hagree.frameBehind_eq h' h
  rw [map_frame_keyframes, map_frame_keyframes]
  refine ⟨s'.frames_perm, frames_ascending h, frames_ascending h', hbefore, hbehind,
    fun k hfar => ⟨fun hk => ?_, fun hk => ?_⟩, hagree.dropLast_earlier h' h,
    hagree.tail_later h' h, hagree.earlier_eq h' h, hagree.later_eq h' h⟩
  · refine hagree.mem_of_mem h' h hf hk ?_
    rw [IsNear, hbefore, hbehind]
    exact hfar
  · exact hagree.symm.mem_of_mem h h' hf hk hfar

/-- Five keyframes with handles on both sides, not in the order of time. -/
def eased : Spline :=
  let curve : Curve := ⟨some (.float (.ofQuotient 1 4), 0), some (.float (.ofQuotient 1 4), 0)⟩
  ({ name := "Zoom", defaultCurve := curve } : Spline).addAll
    [(48, .number 1), (0, .number 0), (.float (.ofQuotient 25 2), .number 5), (36, .number 7),
      (24, .number 20)] none

/-- The last keyframe is removed, and one is added behind it. -/
theorem keyframes_change_local_eased :
    let last : Number := .float (.ofQuotient 48 1)
    let k : Keyframe := { frame := 60, value := .number 3 }
    FramesApart (eased.stored.map (·.frame)) ∧ (Change.remove last).IsAt last ∧
      ((eased.remove last).earlier last).dropLast = (eased.earlier last).dropLast ∧
      ((eased.remove last).earlier last).dropLast.map (·.frame) =
        [0, .float (.ofQuotient 25 2), 24] ∧
      (Change.add k).IsAt 60 ∧ ((eased.add k).earlier 60).dropLast = (eased.earlier 60).dropLast ∧
      ((eased.add k).earlier 60).dropLast.length = 4 := by
  intro last k
  have h : FramesApart (eased.stored.map (·.frame)) := ⟨by decide +kernel, by decide +kernel⟩
  obtain ⟨-, -, -, -, -, -, hremove, -⟩ :=
    keyframes_change_local (c := .remove last) h (by decide +kernel) rfl
  obtain ⟨-, -, -, -, -, -, hadd, -⟩ :=
    keyframes_change_local (c := .add k) (f := 60) h (by decide) rfl
  refine ⟨h, rfl, hremove, by decide +kernel, rfl, hadd, by decide +kernel⟩

/-- The handle that points to the removed keyframe does change. -/
example : (eased.remove 48).earlier 48 ≠ eased.earlier 48 := by decide +kernel

end Spline

end SceneScript
