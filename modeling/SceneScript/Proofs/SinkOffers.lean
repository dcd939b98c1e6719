import SceneScript.Sink

/-!
# What a sink has got in the end

A sink is free to take the bytes that it is offered in parts of any size, and to fail whenever it is
offered some; where it cuts does not respect characters. It is offered all bytes first, then always
exactly those that it has not taken, until there are none or it fails. So what it has is a beginning
of the text, all of it if and only if writing succeeds, and what it has and what it refused make up
the text.

A sink that takes nothing of what it is offered counts as failing. One that claims to have taken
more than that is taken at its word for no more than there was.

Main statements:

- `writeAll_of_failure`, `writeAll_of_accepted`: one offer, and what is done with the rest;
- `writeAll_of_failsOn`, `writeAll_cases`: writing takes everything, or fails as the sink does, with
  what was taken before;
- `writeTable_accepted`: what a sink has of a table.
-/

namespace SceneScript

/-- The failure that an answer to an offer amounts to. -/
def Reply.failure? : Reply → Option String
  | .failed reason => some reason
  | .accepted 0 => some "failed to write whole buffer"
  | .accepted (_ + 1) => none

theorem Reply.failure?_cases (r : Reply) :
    (∃ reason, r.failure? = some reason) ∨ ∃ count, r = .accepted (count + 1) := by
  cases r with
  | failed reason => exact .inl ⟨reason, rfl⟩
  | accepted count =>
    cases count with
    | zero => exact .inl ⟨_, rfl⟩
    | succ count => exact .inr ⟨count, rfl⟩

namespace Sink

variable {σ : Type} (sink : Sink σ)

/-! ## One offer -/

/-- Bytes that the sink has agreed to take are taken without another offer. -/
theorem writeFrom_eq (bytes : List UInt8) (state : σ) (granted : Nat) :
    sink.writeFrom bytes state granted =
      ((sink.writeAll state (bytes.drop granted)).1,
        bytes.take granted ++ (sink.writeAll state (bytes.drop granted)).2) := by
  induction bytes generalizing granted with
  | nil => simp [writeAll, writeFrom]
  | cons b rest ih =>
    cases granted with
    | zero => rfl
    | succ granted =>
      rw [writeFrom, ih]
      rfl

/-- A failure at the first offer is the end. -/
theorem writeAll_of_failure {state : σ} {bytes : List UInt8} (hbytes : bytes ≠ []) {reason : String}
    (h : (sink.reply state bytes).1.failure? = some reason) :
    sink.writeAll state bytes = (.error reason, []) := by
  obtain ⟨b, rest, rfl⟩ := List.exists_cons_of_ne_nil hbytes
  rw [writeAll, writeFrom]
  rcases hreply : sink.reply state (b :: rest) with ⟨_ | _, next⟩
  · rename_i count
    rw [hreply] at h
    cases count <;> cases h
    rfl
  · rw [hreply] at h
    cases h
    rfl

/-- What the sink does not take of an offer is written next. -/
theorem writeAll_of_accepted {state next : σ} {bytes : List UInt8} (hbytes : bytes ≠ [])
    {count : Nat} (h : sink.reply state bytes = (.accepted (count + 1), next)) :
    sink.writeAll state bytes =
      ((sink.writeAll next (bytes.drop (count + 1))).1,
        bytes.take (count + 1) ++ (sink.writeAll next (bytes.drop (count + 1))).2) := by
  obtain ⟨b, rest, rfl⟩ := List.exists_cons_of_ne_nil hbytes
  rw [writeAll, writeFrom, h]
  simp only [writeFrom_eq]
  rfl

/-! ## All offers -/

/-- Whether a sink that is given bytes to write in one state is offered bytes in another: these
bytes themselves, or such as it is offered when it has taken some of them. -/
inductive Offers : σ → List UInt8 → σ → List UInt8 → Prop
  | first {state : σ} {bytes : List UInt8} (hbytes : bytes ≠ []) : Offers state bytes state bytes
  | later {state next last : σ} {bytes rest : List UInt8} {count : Nat} (hbytes : bytes ≠ [])
    (hreply : sink.reply state bytes = (.accepted (count + 1), next))
    (hnext : Offers next (bytes.drop (count + 1)) last rest) : Offers state bytes last rest

/-- Whether a sink that is given bytes to write fails when it is offered the rest of them. -/
def FailsOn (state : σ) (bytes rest : List UInt8) (reason : String) : Prop :=
  ∃ last, sink.Offers state bytes last rest ∧
    (sink.reply last rest).1.failure? = some reason

variable {sink} {state : σ} {bytes : List UInt8}

theorem FailsOn.rest_ne_nil {rest : List UInt8} {reason : String}
    (h : sink.FailsOn state bytes rest reason) : rest ≠ [] := by
  obtain ⟨last, hoffers, -⟩ := h
  induction hoffers with
  | first hbytes => exact hbytes
  | later _ _ _ ih => exact ih

/-- Where the sink fails writing ends, and everything before was taken. -/
theorem writeAll_of_failsOn {rest : List UInt8} {reason : String}
    (h : sink.FailsOn state bytes rest reason) :
    (sink.writeAll state bytes).1 = .error reason ∧
      (sink.writeAll state bytes).2 ++ rest = bytes := by
  obtain ⟨last, hoffers, hfailure⟩ := h
  induction hoffers with
  | first hbytes => simp [sink.writeAll_of_failure hbytes hfailure]
  | later hbytes hreply _ ih =>
    obtain ⟨hresult, htaken⟩ := ih hfailure
    rw [sink.writeAll_of_accepted hbytes hreply]
    refine ⟨hresult, ?_⟩
    rw [List.append_assoc, htaken, List.take_append_drop]

/-- Writing takes everything unless the sink fails. The induction is on the bytes that are left,
which become fewer with every offer of which some are taken. -/
theorem writeAll_cases (sink : Sink σ) (state : σ) (bytes : List UInt8) :
    sink.writeAll state bytes = (.ok (), bytes) ∨
      ∃ rest reason, sink.FailsOn state bytes rest reason := by
  induction hlength : bytes.length using Nat.strongRecOn generalizing state bytes with
  | ind n ih =>
    subst hlength
    by_cases hbytes : bytes = []
    · subst hbytes
      exact .inl rfl
    rcases (sink.reply state bytes).1.failure?_cases with ⟨reason, hfailure⟩ | ⟨count, hcount⟩
    · exact .inr ⟨bytes, reason, state, .first hbytes, hfailure⟩
    · have hreply : sink.reply state bytes =
          (.accepted (count + 1), (sink.reply state bytes).2) := Prod.ext hcount rfl
      have hpos : 0 < bytes.length := List.length_pos_iff.2 hbytes
      have hfewer : (bytes.drop (count + 1)).length < bytes.length := by
        rw [List.length_drop]
        omega
      rcases ih _ hfewer _ _ rfl with hrest | ⟨rest, reason, last, hoffers, hfailure⟩
      · left
        rw [sink.writeAll_of_accepted hbytes hreply, hrest, List.take_append_drop]
      · exact .inr ⟨rest, reason, last, .later hbytes hreply hoffers, hfailure⟩

/-- Writing fails only as the sink does. -/
theorem failsOn_iff {rest : List UInt8} {reason : String} :
    sink.FailsOn state bytes rest reason ↔
      (sink.writeAll state bytes).1 = .error reason ∧
        (sink.writeAll state bytes).2 ++ rest = bytes := by
  constructor
  · exact writeAll_of_failsOn
  · rintro ⟨hresult, htaken⟩
    rcases sink.writeAll_cases state bytes with hall | ⟨rest', reason', hfails⟩
    · rw [hall] at hresult
      cases hresult
    · -- what was taken and the reason tell where the sink has failed
      obtain ⟨hresult', htaken'⟩ := writeAll_of_failsOn hfails
      obtain rfl : reason' = reason := Except.error.inj (hresult'.symm.trans hresult)
      obtain rfl : rest' = rest := List.append_cancel_left (htaken'.trans htaken.symm)
      exact hfails

/-- Everything is taken exactly if writing succeeds. -/
theorem writeAll_eq_ok_iff (sink : Sink σ) (state : σ) (bytes : List UInt8) :
    (sink.writeAll state bytes).1 = .ok () ↔ (sink.writeAll state bytes).2 = bytes := by
  rcases sink.writeAll_cases state bytes with hall | ⟨rest, reason, hfails⟩
  · rw [hall]
    exact iff_of_true rfl rfl
  · obtain ⟨hresult, htaken⟩ := writeAll_of_failsOn hfails
    refine iff_of_false (by rw [hresult]; exact nofun) fun heq => hfails.rest_ne_nil ?_
    rw [heq] at htaken
    exact List.append_cancel_left (htaken.trans (List.append_nil bytes).symm)

/-! ## Tables -/

theorem writeTable_of_error (sink : Sink σ) (state : σ) {t : Table} {cause : Unsupported}
    (h : t.render = .error cause) : sink.writeTable state t = (.error (.unsupported cause), []) := by
  rw [writeTable, h]

theorem writeTable_of_ok (sink : Sink σ) (state : σ) {t : Table} {text : String}
    (h : t.render = .ok text) :
    sink.writeTable state t =
      ((sink.writeAll state text.toUTF8.toList).1.mapError .io,
        (sink.writeAll state text.toUTF8.toList).2) := by
  rw [writeTable, h]

/-- Failures of the sink, and no others, become failures of writing a table. -/
theorem mapError_io_eq_error_iff {result : Except String Unit} {e : Error} :
    result.mapError Error.io = .error e ↔ ∃ reason, result = .error reason ∧ e = .io reason := by
  cases result with
  | ok a => exact iff_of_false nofun nofun
  | error reason =>
    constructor
    · rintro ⟨⟩
      exact ⟨reason, rfl, rfl⟩
    · rintro ⟨_, ⟨⟩, rfl⟩
      rfl

theorem mapError_io_eq_ok_iff {result : Except String Unit} :
    result.mapError Error.io = .ok () ↔ result = .ok () := by
  cases result with
  | ok a => exact iff_of_true rfl rfl
  | error reason => exact iff_of_false nofun nofun

/-- **A sink has the text of a table or a beginning of it.** A table that has no text fails with
that, and the sink gets nothing, whatever it is like. Otherwise the sink has a beginning of the text
in bytes, and all of it exactly if writing succeeds. Any failure then is one of writing; it is there
exactly if the sink fails on an offer, with its reason, and what the sink has taken and what it was
offered there make up the text. -/
theorem writeTable_accepted (sink : Sink σ) (state : σ) (t : Table) :
    let written := sink.writeTable state t
    match t.render with
    | .error cause => written = (.error (.unsupported cause), [])
    | .ok text =>
      let bytes := text.toUTF8.toList
      written.2 <+: bytes ∧
      (written.1 = .ok () ↔ written.2 = bytes) ∧
      (∀ e, written.1 = .error e → ∃ reason, e = .io reason) ∧
      ∀ rest reason, sink.FailsOn state bytes rest reason ↔
        written.1 = .error (.io reason) ∧ written.2 ++ rest = bytes := by
  intro written
  cases hrender : t.render with
  | error cause => exact sink.writeTable_of_error state hrender
  | ok text =>
    dsimp only
    rw [show written = _ from sink.writeTable_of_ok state hrender]
    refine ⟨sink.accepted_prefix _ state 0,
      mapError_io_eq_ok_iff.trans (sink.writeAll_eq_ok_iff state _), ?_, ?_⟩
    · intro e he
      obtain ⟨reason, -, hreason⟩ := mapError_io_eq_error_iff.1 he
      exact ⟨reason, hreason⟩
    · intro rest reason
      rw [failsOn_iff, mapError_io_eq_error_iff]
      simp only [Error.io.injEq, exists_eq_right']

/-- A table with a character of two bytes in its text. -/
def accentedText : Table := .record "" [("A", .text "é")]

/-- A sink that takes three bytes at a time and has room for eight gets the first half of the
character. -/
theorem writeTable_accepted_halfCharacter :
    let written := (bounded 3).writeTable 8 accentedText
    accentedText.render = .ok "\x7b A = \"é\", \x7d" ∧
      written.2 = [0x7b, 0x20, 0x41, 0x20, 0x3d, 0x20, 0x22, 0xc3] ∧
      written.1 = .error (.io "sink full") ∧
      (bounded 3).FailsOn 8 "\x7b A = \"é\", \x7d".toUTF8.toList [0xa9, 0x22, 0x2c, 0x20, 0x7d]
        "sink full" := by
  intro written
  have hrender : accentedText.render = .ok "\x7b A = \"é\", \x7d" := rfl
  have hbytes : "\x7b A = \"é\", \x7d".toUTF8.toList =
      [0x7b, 0x20, 0x41, 0x20, 0x3d, 0x20, 0x22, 0xc3, 0xa9, 0x22, 0x2c, 0x20, 0x7d] := by
    decide +kernel
  have hwritten : written =
      (.error (.io "sink full"), [0x7b, 0x20, 0x41, 0x20, 0x3d, 0x20, 0x22, 0xc3]) := by
    rw [show written = _ from (bounded 3).writeTable_of_ok 8 hrender, hbytes]
    rfl
  have h := writeTable_accepted (bounded 3) 8 accentedText
  rw [hrender] at h
  obtain ⟨-, -, -, hfails⟩ := h
  refine ⟨hrender, congrArg Prod.snd hwritten, congrArg Prod.fst hwritten, (hfails _ _).2 ?_⟩
  rw [show Sink.writeTable _ _ _ = _ from hwritten, hbytes]
  exact ⟨rfl, rfl⟩

end Sink

end SceneScript
