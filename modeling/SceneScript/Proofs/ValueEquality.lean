import Mathlib.Data.List.Forall2
import Mathlib.Data.List.Perm.Subperm
import Mathlib.Data.Option.Basic
import SceneScript.Proofs.EntryMap
import SceneScript.Proofs.ValueTree
import SceneScript.Value.Equality

/-!
# Equality of values is an equivalence

Two tables are compared by looking up the entries of the first in the second and by counting both.
Where no key of either stands twice this is a comparison of two maps: by counting, the second can
have no key that the first lacks. `Alike` says what one level of equality then means, given what it
means for the parts of the two values, and the laws follow from level to level.

Main statements:

- `TableOf.WellKeyed.beq_iff`: tables are equal exactly if they have the same settings and equal
  values under every key;
- `Value.beq_iff_alike`: one level of equality;
- `Value.equality_laws`: equality is an equivalence that ignores the order of entries only.
-/

namespace SceneScript

/-! ## Relations between lists and options -/

section Rel

variable {α β γ : Type} {R : α → β → Prop} {S : β → γ → Prop}

theorem forall₂_swap {T : β → α → Prop} {l : List α} {l' : List β} (h : List.Forall₂ R l l')
    (hswap : ∀ a ∈ l, ∀ b ∈ l', R a b → T b a) : List.Forall₂ T l' l := by
  induction h with
  | nil => exact .nil
  | cons hab _ ih =>
    refine .cons (hswap _ List.mem_cons_self _ List.mem_cons_self hab) (ih ?_)
    intro a ha b hb
    exact hswap a (List.mem_cons_of_mem _ ha) b (List.mem_cons_of_mem _ hb)

theorem forall₂_comp {T : α → γ → Prop} {l : List α} {l' : List β} {l'' : List γ}
    (h : List.Forall₂ R l l') (h' : List.Forall₂ S l' l'')
    (hcomp : ∀ a ∈ l, ∀ b ∈ l', ∀ c ∈ l'', R a b → S b c → T a c) : List.Forall₂ T l l'' := by
  induction h generalizing l'' with
  | nil =>
    cases h'
    exact .nil
  | cons hab _ ih =>
    cases h' with
    | cons hbc hrest =>
      refine .cons (hcomp _ List.mem_cons_self _ List.mem_cons_self _ List.mem_cons_self hab hbc)
        (ih hrest ?_)
      intro a ha b hb c hc
      exact hcomp a (List.mem_cons_of_mem _ ha) b (List.mem_cons_of_mem _ hb) c
        (List.mem_cons_of_mem _ hc)

theorem isSome_eq_of_rel {o : Option α} {o' : Option β} (h : Option.Rel R o o') :
    o.isSome = o'.isSome := by
  cases h <;> rfl

theorem exists_of_rel {o : Option α} {o' : Option β} (h : Option.Rel R o o') {a : α}
    (ho : o = some a) : ∃ b, o' = some b ∧ R a b := by
  subst ho
  cases h with
  | some hab => exact ⟨_, rfl, hab⟩

theorem rel_iff {o : Option α} {o' : Option β} :
    Option.Rel R o o' ↔ o.isSome = o'.isSome ∧ ∀ a b, o = some a → o' = some b → R a b := by
  constructor
  · intro h
    refine ⟨isSome_eq_of_rel h, fun a b ha hb => ?_⟩
    obtain ⟨b', hb', hab⟩ := exists_of_rel h ha
    rwa [Option.some.inj (hb.symm.trans hb')]
  · rintro ⟨hsome, hrel⟩
    cases o with
    | none =>
      cases o' with
      | none => exact .none
      | some b => cases hsome
    | some a =>
      cases o' with
      | none => cases hsome
      | some b => exact .some (hrel a b rfl rfl)

theorem rel_swap {T : β → α → Prop} {o : Option α} {o' : Option β} (h : Option.Rel R o o')
    (hswap : ∀ a b, o = some a → o' = some b → R a b → T b a) : Option.Rel T o' o := by
  cases h with
  | none => exact .none
  | some hab => exact .some (hswap _ _ rfl rfl hab)

theorem rel_comp {T : α → γ → Prop} {o : Option α} {o' : Option β} {o'' : Option γ}
    (h : Option.Rel R o o') (h' : Option.Rel S o' o'')
    (hcomp : ∀ a b c, o = some a → o' = some b → o'' = some c → R a b → S b c → T a c) :
    Option.Rel T o o'' := by
  cases h with
  | none =>
    cases h'
    exact .none
  | some hab =>
    cases h' with
    | some hbc => exact .some (hcomp _ _ _ rfl rfl rfl hab hbc)

end Rel

/-! ## Tables as maps -/

namespace TableOf

variable {α : Type} {t t' : TableOf α}

/-- What the keys of a table stand for. -/
def exactKeys (t : TableOf α) : List (Option ExactKey) := t.entries.keys.map Key.exactKey?

theorem length_exactKeys (t : TableOf α) : t.exactKeys.length = t.size := by
  simp [exactKeys, Entries.keys, size, Entries.size]

theorem contains_iff (t : TableOf α) (k : Key) :
    t.contains k = true ↔ ∃ e, k.exactKey? = some e ∧ some e ∈ t.exactKeys := by
  show t.entries.contains k = true ↔ _
  rw [Entries.contains_eq_any, List.any_eq_true]
  constructor
  · rintro ⟨k', hk', hbeq⟩
    obtain ⟨e, he, he'⟩ := Key.beq_iff_exactKey?.1 hbeq
    exact ⟨e, he, List.mem_map.2 ⟨k', hk', he'⟩⟩
  · rintro ⟨e, he, hmem⟩
    obtain ⟨k', hk', he'⟩ := List.mem_map.1 hmem
    exact ⟨k', hk', Key.beq_iff_exactKey?.2 ⟨e, he, he'⟩⟩

namespace WellKeyed

theorem exists_of_mem_exactKeys (h : t.WellKeyed) {o : Option ExactKey} (ho : o ∈ t.exactKeys) :
    ∃ k ∈ t.entries.keys, ∃ e, k.exactKey? = some e ∧ o = some e := by
  obtain ⟨k, hk, rfl⟩ := List.mem_map.1 ho
  obtain ⟨e, he⟩ := Key.exists_exactKey? (h.numeric k hk)
  exact ⟨k, hk, e, he, he⟩

theorem nodup_exactKeys (h : t.WellKeyed) : t.exactKeys.Nodup := by
  refine List.pairwise_map.2 (h.apart.imp_of_mem ?_)
  intro k k' hk _ hne heq
  obtain ⟨e, he⟩ := Key.exists_exactKey? (h.numeric k hk)
  rw [Key.beq_iff_exactKey?.2 ⟨e, heq ▸ he, he⟩] at hne
  cases hne

theorem subset_exactKeys_iff (h : t.WellKeyed) :
    t.exactKeys ⊆ t'.exactKeys ↔ ∀ k, t.contains k = true → t'.contains k = true := by
  constructor
  · intro hsub k hk
    obtain ⟨e, he, hmem⟩ := (t.contains_iff k).1 hk
    exact (t'.contains_iff k).2 ⟨e, he, hsub hmem⟩
  · intro hcontains o ho
    obtain ⟨k, hk, e, he, rfl⟩ := h.exists_of_mem_exactKeys ho
    obtain ⟨e', he', hmem⟩ := (t'.contains_iff k).1 (hcontains k ((t.contains_iff k).2 ⟨e, he, ho⟩))
    rwa [← he, he']

/-- A table that has all keys of another one of the same size has no others. -/
theorem contains_eq_of_size_eq (h : t.WellKeyed) (h' : t'.WellKeyed) (hsize : t.size = t'.size)
    (hcontains : ∀ k, t.contains k = true → t'.contains k = true) (k : Key) :
    t.contains k = t'.contains k := by
  have hsub : t.exactKeys ⊆ t'.exactKeys := h.subset_exactKeys_iff.2 hcontains
  have hlength : t'.exactKeys.length ≤ t.exactKeys.length := by
    rw [length_exactKeys, length_exactKeys, hsize]
  have hperm : t.exactKeys.Perm t'.exactKeys :=
    (h.nodup_exactKeys.subperm hsub).perm_of_length_le hlength
  rw [Bool.eq_iff_iff]
  exact ⟨hcontains k, h'.subset_exactKeys_iff.1 hperm.symm.subset k⟩

theorem size_eq_of_contains_eq (h : t.WellKeyed) (h' : t'.WellKeyed)
    (hcontains : ∀ k, t.contains k = t'.contains k) : t.size = t'.size := by
  have hsub : t.exactKeys ⊆ t'.exactKeys :=
    h.subset_exactKeys_iff.2 fun k hk => hcontains k ▸ hk
  have hsub' : t'.exactKeys ⊆ t.exactKeys :=
    h'.subset_exactKeys_iff.2 fun k hk => hcontains k ▸ hk
  rw [← length_exactKeys, ← length_exactKeys]
  exact Nat.le_antisymm (h.nodup_exactKeys.subperm hsub).length_le
    (h'.nodup_exactKeys.subperm hsub').length_le

theorem find?_eq_some_iff (h : t.WellKeyed) {k : Key} {v : α} :
    t.find? k = some v ↔ ∃ e ∈ t.entries.toList, (k == e.1) = true ∧ e.2 = v := by
  constructor
  · exact Entries.exists_of_find?
  · rintro ⟨e, he, hk, rfl⟩
    rw [← h.find?_of_mem he]
    exact Entries.lookup_congr hk t.entries.toList

/-- Where the same entries stand the same is found, whatever their order. -/
theorem find?_eq_of_perm (h : t.WellKeyed) (h' : t'.WellKeyed)
    (hperm : t.entries.toList.Perm t'.entries.toList) (k : Key) : t.find? k = t'.find? k := by
  ext v
  rw [h.find?_eq_some_iff, h'.find?_eq_some_iff]
  simp only [hperm.mem_iff]

end WellKeyed

end TableOf

namespace Value

theorem allWithin_iff {l : List (Key × Value)} {m : Entries Key Value} :
    Value.allWithin l m = true ↔
      ∀ e ∈ l, ∃ w, m.find? e.1 = some w ∧ (e.2 == w) = true := by
  induction l with
  | nil => exact ⟨fun _ => nofun, fun _ => rfl⟩
  | cons e rest ih =>
    rw [Value.allWithin, Bool.and_eq_true, ih, List.forall_mem_cons]
    refine and_congr_left' ?_
    cases m.find? e.1 with
    | none => exact ⟨nofun, nofun⟩
    | some w =>
      simp only [Option.some.injEq, exists_eq_left']
      rfl

theorem equalAll_iff {items items' : List Value} :
    Value.equalAll items items' = true ↔
      List.Forall₂ (fun v w => (v == w) = true) items items' := by
  induction items generalizing items' with
  | nil => cases items' <;> simp [Value.equalAll]
  | cons v rest ih =>
    cases items' with
    | nil => simp [Value.equalAll]
    | cons w rest' =>
      rw [Value.equalAll, Bool.and_eq_true, ih, List.forall₂_cons]
      rfl

end Value

namespace TableOf

variable {t t' : Table}

theorem beq_iff_within :
    (t == t') = true ↔ t.settings = t'.settings ∧ t.size = t'.size ∧
      ∀ e ∈ t.entries.toList, ∃ w, t'.find? e.1 = some w ∧ (e.2 == w) = true := by
  obtain ⟨name, ⟨entries⟩, forceIndent, forceUnindent, ordered⟩ := t
  show TableOf.equal _ t' = true ↔ _
  simp only [TableOf.equal, Bool.and_eq_true, beq_iff_eq, Value.allWithin_iff, settings,
    Prod.mk.injEq]
  constructor
  · rintro ⟨⟨⟨⟨⟨hname, hsize⟩, hwithin⟩, hindent⟩, hunindent⟩, hordered⟩
    exact ⟨⟨hname, hindent, hunindent, hordered⟩, hsize, hwithin⟩
  · rintro ⟨⟨hname, hindent, hunindent, hordered⟩, hsize, hwithin⟩
    exact ⟨⟨⟨⟨⟨hname, hsize⟩, hwithin⟩, hindent⟩, hunindent⟩, hordered⟩

/-- Tables are equal exactly if they have the same settings and equal values under every key. -/
theorem WellKeyed.beq_iff (h : t.WellKeyed) (h' : t'.WellKeyed) :
    (t == t') = true ↔ t.settings = t'.settings ∧
      ∀ k, Option.Rel (fun v w => (v == w) = true) (t.find? k) (t'.find? k) := by
  rw [beq_iff_within]
  refine and_congr_right fun _ => ?_
  constructor
  · rintro ⟨hsize, hwithin⟩ k
    have hfound : ∀ k v, t.find? k = some v → ∃ w, t'.find? k = some w ∧ (v == w) = true := by
      intro k v hv
      obtain ⟨e, he, hk, rfl⟩ := h.find?_eq_some_iff.1 hv
      obtain ⟨w, hw, hvw⟩ := hwithin e he
      exact ⟨w, (Entries.lookup_congr hk _).trans hw, hvw⟩
    cases hv : t.find? k with
    | some v =>
      obtain ⟨w, hw, hvw⟩ := hfound k v hv
      rw [hw]
      exact .some hvw
    | none =>
      have hcontains : (t.find? k).isSome = (t'.find? k).isSome := by
        refine h.contains_eq_of_size_eq h' hsize (fun k' hk' => ?_) k
        obtain ⟨v, hv⟩ := Option.isSome_iff_exists.1 hk'
        obtain ⟨w, hw, -⟩ := hfound k' v hv
        exact Option.isSome_iff_exists.2 ⟨w, hw⟩
      rw [hv] at hcontains
      rw [Option.isNone_iff_eq_none.1 (Option.isSome_eq_false_iff.1 hcontains.symm)]
      exact .none
  · intro hrel
    refine ⟨h.size_eq_of_contains_eq h' fun k => isSome_eq_of_rel (hrel k), fun e he => ?_⟩
    exact exists_of_rel (hrel e.1) (h.find?_of_mem he)

end TableOf

/-! ## One level of equality -/

namespace Value

/-- What a value consists of. -/
def parts : Value → List Value
  | .tuple items | .sequence items => items
  | .table t => t.entries.values
  | _ => []

/-- Induction over values, from all parts to the whole. -/
theorem parts_induction {motive : Value → Prop}
    (step : ∀ v, (∀ p ∈ v.parts, motive p) → motive v) (v : Value) : motive v := by
  induction v with
  | tuple items ih => exact step _ ih
  | sequence items ih => exact step _ ih
  | table t ih => exact step _ (List.forall_mem_map.2 ih)
  | _ => exact step _ nofun

/-- Whether a value, apart from its parts, has no `nan` and no key twice. -/
def WellFormed : Value → Prop
  | .number n => n.isNaN = false
  | .table t => t.WellKeyed
  | _ => True

/-- Whether a value has no `nan` and no key twice, at any depth. -/
inductive Exact : Value → Prop
  | intro {v : Value} (own : v.WellFormed) (parts : ∀ p ∈ v.parts, Exact p) : Exact v

/-- When two values are equal, given when their parts are. Numbers are by their exact values;
members and items in their order; entries by their keys, whatever their order. -/
inductive Alike (R : Value → Value → Prop) : Value → Value → Prop
  | null : Alike R .null .null
  | bool (b : Bool) : Alike R (.bool b) (.bool b)
  | number {a b : Number} {x : ExtendedRat} (ha : a.exactValue? = some x)
      (hb : b.exactValue? = some x) : Alike R (.number a) (.number b)
  | text (s : String) : Alike R (.text s) (.text s)
  | fuId (s : String) : Alike R (.fuId s) (.fuId s)
  | tuple {items items' : List Value} (h : List.Forall₂ R items items') :
    Alike R (.tuple items) (.tuple items')
  | sequence {items items' : List Value} (h : List.Forall₂ R items items') :
    Alike R (.sequence items) (.sequence items')
  | table {t t' : Table} (settings : t.settings = t'.settings)
      (h : ∀ k, Option.Rel R (t.find? k) (t'.find? k)) : Alike R (.table t) (.table t')

theorem mem_parts_of_find? {t : Table} {k : Key} {v : Value} (h : t.find? k = some v) :
    v ∈ (Value.table t).parts := by
  obtain ⟨e, he, -, rfl⟩ := Entries.exists_of_find? h
  exact List.mem_map_of_mem he

/-- Equality is alikeness with equality of parts. -/
theorem beq_iff_alike {v w : Value} (hv : v.WellFormed) (hw : w.WellFormed) :
    (v == w) = true ↔ Alike (fun v w => (v == w) = true) v w := by
  cases v <;> cases w
  case null.null => exact ⟨fun _ => .null, fun _ => rfl⟩
  case bool.bool a b =>
    rw [show (Value.bool a == .bool b) = (a == b) from rfl, beq_iff_eq]
    exact ⟨fun h => h ▸ .bool a, fun h => by cases h; rfl⟩
  case number.number a b =>
    refine Number.beq_iff_exactValue?.trans ⟨?_, ?_⟩
    · rintro ⟨x, ha, hb⟩
      exact .number ha hb
    · rintro ⟨⟩
      exact ⟨_, ‹_›, ‹_›⟩
  case text.text a b =>
    rw [show (Value.text a == .text b) = (a == b) from rfl, beq_iff_eq]
    exact ⟨fun h => h ▸ .text a, fun h => by cases h; rfl⟩
  case fuId.fuId a b =>
    rw [show (Value.fuId a == .fuId b) = (a == b) from rfl, beq_iff_eq]
    exact ⟨fun h => h ▸ .fuId a, fun h => by cases h; rfl⟩
  case tuple.tuple a b =>
    exact equalAll_iff.trans ⟨.tuple, fun h => by cases h; assumption⟩
  case sequence.sequence a b =>
    exact equalAll_iff.trans ⟨.sequence, fun h => by cases h; assumption⟩
  case table.table a b =>
    refine (hv.beq_iff hw).trans ⟨fun h => .table h.1 h.2, ?_⟩
    rintro ⟨⟩
    exact ⟨‹_›, ‹_›⟩
  all_goals exact ⟨nofun, nofun⟩

namespace Alike

variable {R : Value → Value → Prop} {u v w : Value}

theorem refl (hv : v.WellFormed) (h : ∀ p ∈ v.parts, R p p) : Alike R v v := by
  cases v with
  | null => exact .null
  | bool b => exact .bool b
  | number n =>
    obtain ⟨x, hx⟩ := Number.exists_exactValue? hv
    exact .number hx hx
  | text s => exact .text s
  | fuId s => exact .fuId s
  | tuple items => exact .tuple (List.forall₂_same.2 h)
  | sequence items => exact .sequence (List.forall₂_same.2 h)
  | table t =>
    refine .table rfl fun k => ?_
    cases hp : t.find? k with
    | none => exact .none
    | some p => exact .some (h p (mem_parts_of_find? hp))

theorem symm (hvw : Alike R v w) (h : ∀ p ∈ v.parts, ∀ q ∈ w.parts, R p q → R q p) :
    Alike R w v := by
  cases hvw with
  | null => exact .null
  | bool b => exact .bool b
  | number ha hb => exact .number hb ha
  | text s => exact .text s
  | fuId s => exact .fuId s
  | tuple hitems => exact .tuple (forall₂_swap hitems h)
  | sequence hitems => exact .sequence (forall₂_swap hitems h)
  | table hsettings hvalues =>
    refine .table hsettings.symm fun k => rel_swap (hvalues k) ?_
    intro p q hp hq
    exact h p (mem_parts_of_find? hp) q (mem_parts_of_find? hq)

theorem trans (huv : Alike R u v) (hvw : Alike R v w)
    (h : ∀ p ∈ u.parts, ∀ q ∈ v.parts, ∀ r ∈ w.parts, R p q → R q r → R p r) : Alike R u w := by
  cases huv with
  | null => exact hvw
  | bool b => exact hvw
  | text s => exact hvw
  | fuId s => exact hvw
  | number ha hb =>
    cases hvw with
    | number hb' hc => exact .number (ha.trans (hb.symm.trans hb')) hc
  | tuple hitems =>
    cases hvw with
    | tuple hitems' => exact .tuple (forall₂_comp hitems hitems' h)
  | sequence hitems =>
    cases hvw with
    | sequence hitems' => exact .sequence (forall₂_comp hitems hitems' h)
  | table hsettings hvalues =>
    cases hvw with
    | table hsettings' hvalues' =>
      refine .table (hsettings.trans hsettings') fun k => rel_comp (hvalues k) (hvalues' k) ?_
      intro p q r hp hq hr
      exact h p (mem_parts_of_find? hp) q (mem_parts_of_find? hq) r (mem_parts_of_find? hr)

end Alike

/-! ## The laws -/

namespace Exact

variable {u v w : Value}

theorem own (h : v.Exact) : v.WellFormed := by
  cases h with
  | intro own parts => exact own

theorem part (h : v.Exact) {p : Value} (hp : p ∈ v.parts) : p.Exact := by
  cases h with
  | intro own parts => exact parts p hp

theorem beq_self (hv : v.Exact) : (v == v) = true := by
  induction v using parts_induction with
  | step v ih =>
    exact (beq_iff_alike hv.own hv.own).2 (.refl hv.own fun p hp => ih p hp (hv.part hp))

theorem beq_symm (hv : v.Exact) (hw : w.Exact) (h : (v == w) = true) : (w == v) = true := by
  induction v using parts_induction generalizing w with
  | step v ih =>
    refine (beq_iff_alike hw.own hv.own).2 (((beq_iff_alike hv.own hw.own).1 h).symm ?_)
    intro p hp q hq hpq
    exact ih p hp (hv.part hp) (hw.part hq) hpq

theorem beq_trans (hu : u.Exact) (hv : v.Exact) (hw : w.Exact) (huv : (u == v) = true)
    (hvw : (v == w) = true) : (u == w) = true := by
  induction u using parts_induction generalizing v w with
  | step u ih =>
    have huv' := (beq_iff_alike hu.own hv.own).1 huv
    have hvw' := (beq_iff_alike hv.own hw.own).1 hvw
    refine (beq_iff_alike hu.own hw.own).2 (huv'.trans hvw' ?_)
    intro p hp q hq r hr hpq hqr
    exact ih p hp (hu.part hp) (hv.part hq) (hw.part hr) hpq hqr

/-- Tables of entries that are written one after the other have no key twice. -/
theorem table_ofEntries {entries : List (Key × Value)}
    (h : ∀ e ∈ entries, e.1.isNaN = false ∧ e.2.Exact) :
    (Value.table (.ofEntries entries)).Exact := by
  have hempty : (∅ : Table).WellKeyed := ⟨nofun, .nil⟩
  refine .intro (hempty.shows_view.insertMany fun e he => (h e he).1).toWellKeyed ?_
  refine List.forall_mem_map.2 fun e he => ?_
  obtain ⟨e', he', hvalue⟩ := Entries.exists_of_mem_ofList he
  rw [← hvalue]
  exact (h e' he').2

end Exact

/-- **Equality is an equivalence that ignores the order of entries only**, on values without `nan`
and without a key twice, which tables are that are built by writing entries. On every level it is
alikeness: numbers by their exact values, members and items in their order, and tables by their
settings, their keys, and what stands under each. -/
theorem equality_laws :
    (∀ v : Value, v.Exact → (v == v) = true) ∧
    (∀ v w : Value, v.Exact → w.Exact → (v == w) = (w == v)) ∧
    (∀ u v w : Value, u.Exact → v.Exact → w.Exact → (u == v) = true → (v == w) = true →
      (u == w) = true) ∧
    (∀ v w : Value, v.Exact → w.Exact →
      ((v == w) = true ↔ Alike (fun p q => (p == q) = true) v w)) ∧
    (∀ t t' : Table, (Value.table t).Exact → (Value.table t').Exact →
      ((t == t') = true ↔ t.settings = t'.settings ∧ ∀ k, t.contains k = t'.contains k ∧
        ∀ v w, t.find? k = some v → t'.find? k = some w → (v == w) = true)) ∧
    (∀ t t' : Table, (Value.table t).Exact → (Value.table t').Exact →
      t.settings = t'.settings → t.entries.toList.Perm t'.entries.toList → (t == t') = true) ∧
    (∀ t t' : Table, (Value.table t == .table t') = (t == t')) ∧
    (∀ entries : List (Key × Value), (∀ e ∈ entries, e.1.isNaN = false ∧ e.2.Exact) →
      (Value.table (.ofEntries entries)).Exact) := by
  refine ⟨fun v hv => hv.beq_self, ?_, ?_, ?_, ?_, ?_, fun _ _ => rfl,
    fun _ => Exact.table_ofEntries⟩
  · intro v w hv hw
    rw [Bool.eq_iff_iff]
    exact ⟨hv.beq_symm hw, hw.beq_symm hv⟩
  · intro u v w hu hv hw
    exact hu.beq_trans hv hw
  · intro v w hv hw
    exact beq_iff_alike hv.own hw.own
  · intro t t' ht ht'
    rw [TableOf.WellKeyed.beq_iff ht.own ht'.own]
    exact and_congr_right fun _ => forall_congr' fun k => rel_iff
  · intro t t' ht ht' hsettings hperm
    refine (TableOf.WellKeyed.beq_iff ht.own ht'.own).2 ⟨hsettings, fun k => ?_⟩
    rw [← TableOf.WellKeyed.find?_eq_of_perm ht.own ht'.own hperm k]
    cases hp : t.find? k with
    | none => exact .none
    | some p => exact .some (ht.part (mem_parts_of_find? hp)).beq_self

/-- Some entries with integers, and the same in another order with doubles. -/
def integersFirst : List (Key × Value) :=
  [(.frame 24, .tuple [.int 1, .text "Blur"]), (.index 0, .table (.ofEntries [(.frame 0, .int 7)]))]

def doublesLast : List (Key × Value) :=
  [(.index 0, .table (.ofEntries [(.frame (.float (.ofInt 0)), .float (.ofInt 7))])),
    (.frame (.float (.ofInt 24)), .tuple [.float (.ofInt 1), .text "Blur"])]

theorem equality_laws_mixedNumbers :
    let a := Value.table (.ofEntries integersFirst)
    let b := Value.table (.ofEntries doublesLast)
    a.Exact ∧ b.Exact ∧ (a == a) = true ∧ (a == b) = true ∧ (b == a) = true := by
  intro a b
  obtain ⟨hrefl, hsymm, -, -, -, -, -, hbuilt⟩ := equality_laws
  have hnumber : ∀ n : Number, n.isNaN = false → (Value.number n).Exact :=
    fun n hn => .intro hn nofun
  have htext : (Value.text "Blur").Exact := .intro trivial nofun
  have ha : a.Exact := by
    refine hbuilt _ (List.forall_mem_cons.2 ⟨⟨rfl, .intro trivial ?_⟩,
      List.forall_mem_singleton.2 ⟨rfl, hbuilt _ (List.forall_mem_singleton.2 ⟨rfl, ?_⟩)⟩⟩)
    · exact List.forall_mem_cons.2 ⟨hnumber _ rfl, List.forall_mem_singleton.2 htext⟩
    · exact hnumber _ rfl
  have hb : b.Exact := by
    refine hbuilt _ (List.forall_mem_cons.2
      ⟨⟨rfl, hbuilt _ (List.forall_mem_singleton.2 ⟨by decide +kernel, ?_⟩)⟩,
        List.forall_mem_singleton.2 ⟨by decide +kernel, .intro trivial ?_⟩⟩)
    · exact hnumber _ (by decide +kernel)
    · exact List.forall_mem_cons.2
        ⟨hnumber _ (by decide +kernel), List.forall_mem_singleton.2 htext⟩
  have hab : (a == b) = true := by decide +kernel
  exact ⟨ha, hb, hrefl a ha, hab, (hsymm b a hb ha).trans hab⟩

end Value

end SceneScript
