/-
This file proves what the primitives of the printer do: reserving room, writing,
and finding the end of what was written.

`Holds` is the invariant between two parts: the block begins with the bytes
written so far, and the offset stands behind them, inside the block. A part is
specified by its text (`Prints`). It either writes it behind what is there, or it
is refused, and then the allocator refused a block or the text does not fit. The
rules for sequences follow the parts, and the specifications of larger parts are
assembled from them.
-/

import DiffServSimulation.CjsonPrintText

namespace DiffServSimulation

open Faulting

/-! ### The invariant -/

/-- What printing does not change: the format, whether the block may be moved, the hooks it began
with, and the most bytes a block may have. -/
structure Settings where
  format : Bool
  noalloc : Bool
  hooks : Hooks
  limit : Nat

/-- The buffer keeps to the settings, and no request was refused so far. A buffer that may not be
moved keeps its length. -/
def PrintBuffer.Keeps (p : PrintBuffer) (settings : Settings) : Prop :=
  p.format = settings.format ∧ p.noalloc = settings.noalloc ∧
    settings.hooks.Granted p.hooks ∧ (if p.noalloc then p.length else intMax) = settings.limit

/-- The block begins with some bytes. -/
structure BlockBegins (settings : Settings) (depth : Nat) (bytes : List UInt8) (p : PrintBuffer) :
    Prop where
  isSettings : p.Keeps settings
  isDepth : p.depth = depth
  block : ∃ block, p.buffer = some block ∧ bytes.map some <+: block ∧ p.length ≤ block.length
  small : p.length ≤ intMax
  copies : 0 < p.length ∨ p.hooks.reallocates = true ∨ p.noalloc = true

/-- The block begins with what was written, and the offset stands behind it. -/
structure Holds (settings : Settings) (depth : Nat) (written : List UInt8) (p : PrintBuffer) :
    Prop extends BlockBegins settings depth written p where
  offset : p.offset = written.length
  inside : p.length = 0 ∧ written = [] ∨ written.length < p.length

/-- A value was written behind what was there before, with its terminator, and the offset was left
somewhere on the way. -/
structure Printed (settings : Settings) (depth : Nat) (written text : List UInt8)
    (p : PrintBuffer) : Prop extends BlockBegins settings depth (written ++ text ++ [0]) p where
  above : written.length ≤ p.offset
  below : p.offset ≤ (written ++ text).length
  inside : (written ++ text).length < p.length

/-- A block was asked for and not granted. -/
def Settings.Starved (settings : Settings) (next : PrintBuffer) : Prop :=
  settings.noalloc = false ∧ settings.hooks.Refused next.hooks

/-- There is a reason to refuse a text: the allocator did not grant a block, the text does not
exist, or it does not fit together with two bytes behind it. -/
def Refuses (settings : Settings) (written : List UInt8) (text : Option (List UInt8))
    (next : PrintBuffer) : Prop :=
  settings.Starved next ∨ ∀ whole, text = some whole →
    settings.limit < written.length + whole.length + 2

section BlockBegins

variable {settings : Settings} {depth : Nat} {p : PrintBuffer}

theorem BlockBegins.front {bytes rest : List UInt8}
    (stands : BlockBegins settings depth (bytes ++ rest) p) :
    BlockBegins settings depth bytes p := by
  obtain ⟨block, present, begins, long⟩ := stands.block
  refine ⟨stands.isSettings, stands.isDepth, ⟨block, present, ?_, long⟩, stands.small,
    stands.copies⟩
  rw [List.map_append] at begins
  exact (List.prefix_append _ _).trans begins

theorem BlockBegins.format {bytes : List UInt8} (stands : BlockBegins settings depth bytes p) :
    p.format = settings.format :=
  stands.isSettings.1

theorem BlockBegins.noalloc {bytes : List UInt8} (stands : BlockBegins settings depth bytes p) :
    p.noalloc = settings.noalloc :=
  stands.isSettings.2.1

theorem BlockBegins.granted {bytes : List UInt8} (stands : BlockBegins settings depth bytes p) :
    settings.hooks.Granted p.hooks :=
  stands.isSettings.2.2.1

theorem BlockBegins.limit {bytes : List UInt8} (stands : BlockBegins settings depth bytes p) :
    (if p.noalloc then p.length else intMax) = settings.limit :=
  stands.isSettings.2.2.2

/-- No block has more bytes than the limit. -/
theorem BlockBegins.length_le_limit {bytes : List UInt8}
    (stands : BlockBegins settings depth bytes p) :
    p.length ≤ settings.limit := by
  have limit := stands.limit
  have small := stands.small
  split_ifs at limit <;> omega

/-- Writing a byte behind the ones that stand there. -/
theorem prefix_set {bytes : List UInt8} {block : ByteBlock} (byte : UInt8)
    (begins : bytes.map some <+: block) (room : bytes.length < block.length) :
    (bytes ++ [byte]).map some <+: block.set bytes.length (some byte) := by
  obtain ⟨rest, rfl⟩ := begins
  rw [List.length_append, List.length_map] at room
  obtain ⟨cell, others, rfl⟩ := List.exists_cons_of_ne_nil (show rest ≠ [] by
    rintro rfl
    simp at room)
  rw [List.set_append_right _ _ (by simp), List.length_map, Nat.sub_self, List.set_cons_zero,
    List.map_append]
  exact ⟨others, by simp⟩

theorem put_run {bytes : List UInt8} (stands : BlockBegins settings depth bytes p) (byte : UInt8)
    (room : bytes.length < p.length) :
    ∃ block, (put bytes.length byte).run p = .ok (⟨⟩, { p with buffer := some block }) ∧
      BlockBegins settings depth (bytes ++ [byte]) { p with buffer := some block } := by
  obtain ⟨block, present, begins, long⟩ := stands.block
  refine ⟨block.set bytes.length (some byte), ?_, stands.isSettings, stands.isDepth,
    ⟨_, rfl, prefix_set byte begins (Nat.lt_of_lt_of_le room long), ?_⟩, stands.small,
    stands.copies⟩
  · rw [put, run_get_bind]
    simp only [present, if_pos (Nat.lt_of_lt_of_le room long)]
    rfl
  · rw [List.length_set]
    exact long

/-- Writing some bytes behind the ones that stand there. -/
theorem putAll_run (more : List UInt8) {bytes : List UInt8}
    (stands : BlockBegins settings depth bytes p) (room : bytes.length + more.length ≤ p.length) :
    ∃ block, (putAll bytes.length more).run p = .ok (⟨⟩, { p with buffer := some block }) ∧
      BlockBegins settings depth (bytes ++ more) { p with buffer := some block } := by
  induction more generalizing bytes p with
  | nil =>
    obtain ⟨block, present, -⟩ := stands.block
    refine ⟨block, ?_, ?_⟩
    · rw [← present]
      rfl
    · rw [List.append_nil, ← present]
      exact stands
  | cons byte more inductionHypothesis =>
    rw [List.length_cons] at room
    obtain ⟨block, ran, next⟩ := put_run stands byte (by omega)
    obtain ⟨last, rest, final⟩ := inductionHypothesis next (by
      rw [List.length_append, List.length_singleton]
      show _ ≤ p.length
      omega)
    refine ⟨last, ?_, ?_⟩
    · rw [List.length_append, List.length_singleton] at rest
      rw [putAll, run_bind_ok _ _ _ _ _ ran]
      exact rest
    · rwa [List.append_assoc, List.singleton_append] at final

end BlockBegins

/-! ### Reserving room -/

/-- Room for some more bytes, and one, was reserved behind what was written. -/
structure Room (settings : Settings) (depth : Nat) (written : List UInt8) (needed : Nat)
    (p : PrintBuffer) : Prop extends Holds settings depth written p where
  room : written.length + needed + 1 ≤ p.length

section Ensure

variable {settings : Settings} {depth : Nat} {written : List UInt8} {p : PrintBuffer}

theorem prefix_resized {bytes : List UInt8} {block : ByteBlock} (count newsize : Nat)
    (begins : bytes.map some <+: block) (enough : bytes.length ≤ count) :
    bytes.map some <+: block.resized count newsize := by
  obtain ⟨rest, rfl⟩ := begins
  refine ⟨rest.take (count - bytes.length) ++ List.replicate (newsize - count) none, ?_⟩
  rw [ByteBlock.resized, List.take_append, List.length_map,
    List.take_of_length_le (l := bytes.map some) (by rwa [List.length_map]), List.append_assoc]

theorem length_resized {block : ByteBlock} (count newsize : Nat) (within : count ≤ block.length)
    (fits : count ≤ newsize) : (block.resized count newsize).length = newsize := by
  rw [ByteBlock.resized, List.length_append, List.length_take_of_le within, List.length_replicate]
  omega

/-- A block is copied with what is written in it and one byte more. -/
theorem copied_of_prefix {bytes : List UInt8} {block : ByteBlock} (newsize : Nat)
    (begins : bytes.map some <+: block) (inside : bytes.length + 1 ≤ block.length)
    (fits : bytes.length + 1 ≤ newsize) :
    block.copied (bytes.length + 1) newsize = .ok (block.resized (bytes.length + 1) newsize) := by
  have front : block.take bytes.length = bytes.map some := by
    obtain ⟨rest, rfl⟩ := begins
    exact List.take_left' (List.length_map _)
  rw [ByteBlock.copied, if_pos ⟨inside, fits⟩, Nat.add_sub_cancel, front, if_pos]
  simp

/-- What `ensure` does when it reaches for a larger block. -/
theorem reallocate_completes (holds : Holds settings depth written p) (block : ByteBlock)
    (present : p.buffer = some block) (needed newsize : Nat) (grows : p.noalloc = false)
    (enough : written.length + needed + 1 ≤ newsize) (small : newsize ≤ intMax) :
    Completes (reallocate block newsize) p fun result next =>
      match result with
      | none => settings.Starved next
      | some output => output = written.length ∧ Room settings depth written needed next := by
  obtain ⟨block', present', begins, long⟩ := holds.block
  obtain rfl : block = block' := Option.some.inj (present.symm.trans present')
  have behind : written.length ≤ block.length := by
    rw [← List.length_map (f := some)]
    exact begins.length_le
  refine completes_get_bind ?_
  by_cases grants : p.hooks.grants 0 newsize = true
  · rw [if_pos grants]
    have outcome : ∀ count, written.length ≤ count → count ≤ block.length → count ≤ newsize →
        Completes (do
          set { p with length := newsize, buffer := some (block.resized count newsize),
                       hooks := p.hooks.asked newsize }
          pure (some p.offset) : Printer (Option Nat)) p fun result next =>
            match result with
            | none => settings.Starved next
            | some output => output = written.length ∧ Room settings depth written needed next := by
      intro count low within fits
      have positive : 0 < newsize := by omega
      have stands : BlockBegins settings depth written
          { p with length := newsize, buffer := some (block.resized count newsize),
                   hooks := p.hooks.asked newsize } := by
        refine ⟨?_, holds.isDepth, ?_, small, Or.inl positive⟩
        · have limit := holds.limit
          rw [grows] at limit
          exact ⟨holds.format, holds.noalloc, holds.granted.asked grants,
            by rw [grows]; exact limit⟩
        · exact ⟨_, rfl, prefix_resized count newsize begins low,
            (length_resized count newsize within fits).ge⟩
      have behind' : written.length < newsize := by omega
      exact ⟨_, _, rfl, holds.offset, ⟨stands, holds.offset, Or.inr behind'⟩, enough⟩
    by_cases reallocates : p.hooks.reallocates = true
    · rw [if_pos reallocates]
      exact completes_run_bind rfl
        (outcome _ (by omega) (Nat.min_le_left _ _) (Nat.min_le_right _ _))
    · rw [if_neg reallocates]
      have positive : 0 < p.length := by
        rcases holds.copies with positive | absurd' | absurd'
        · exact positive
        · exact absurd absurd' reallocates
        · rw [grows] at absurd'
          cases absurd'
      have offset := holds.offset
      have fits : p.offset + 1 ≤ block.length ∧ p.offset + 1 ≤ newsize := by
        rcases holds.inside with empty | inside
        · omega
        · omega
      have copied := copied_of_prefix newsize begins (offset ▸ fits.1) (offset ▸ fits.2)
      rw [← offset] at copied
      exact completes_lift_bind copied (outcome (p.offset + 1) (by omega) fits.1 fits.2)
  · rw [if_neg grants]
    refine ⟨_, _, rfl, ?_, holds.granted.refused (by simpa using grants)⟩
    rw [← holds.noalloc, grows]

/-- `ensure` gives the position behind what was written, with room for more, or null when that is
refused. -/
theorem ensure_completes (holds : Holds settings depth written p) (needed : Nat) :
    Completes (ensure needed) p fun result next =>
      match result with
      | none => settings.Starved next ∨ settings.limit < written.length + needed + 1
      | some output => output = written.length ∧ Room settings depth written needed next := by
  obtain ⟨block, present, begins, long⟩ := holds.block
  have offset := holds.offset
  have limit := holds.limit
  have small := holds.small
  have inside := holds.inside
  have moved : ∀ newsize, p.noalloc = false → written.length + needed + 1 ≤ newsize →
      newsize ≤ intMax → Completes (reallocate block newsize) p fun result next =>
        match result with
        | none => settings.Starved next ∨ settings.limit < written.length + needed + 1
        | some output => output = written.length ∧ Room settings depth written needed next := by
    intro newsize grows enough fits
    refine (reallocate_completes holds block present needed newsize grows enough fits).mono ?_
    intro result next outcome
    cases result with
    | none => exact Or.inl outcome
    | some output => exact outcome
  refine completes_get_bind ?_
  simp only [present]
  rw [if_neg (by rcases inside with ⟨empty, rfl⟩ | inside <;> omega)]
  by_cases huge : intMax < needed
  · rw [if_pos huge]
    refine ⟨_, _, rfl, Or.inr ?_⟩
    split_ifs at limit <;> omega
  rw [if_neg huge]
  by_cases room : needed + (p.offset + 1) ≤ p.length
  · rw [if_pos room]
    exact ⟨_, _, rfl, offset, holds, by omega⟩
  rw [if_neg room]
  by_cases noalloc : p.noalloc = true
  · rw [if_pos noalloc] at limit ⊢
    refine ⟨_, _, rfl, Or.inr ?_⟩
    omega
  rw [if_neg noalloc] at limit ⊢
  rw [Bool.not_eq_true] at noalloc
  by_cases half : intMax / 2 < needed + (p.offset + 1)
  · rw [if_pos half]
    by_cases most : needed + (p.offset + 1) ≤ intMax
    · rw [if_pos most]
      exact moved intMax noalloc (by omega) (Nat.le_refl _)
    · rw [if_neg most]
      exact ⟨_, _, rfl, Or.inr (by omega)⟩
  · rw [if_neg half]
    exact moved _ noalloc (by omega) (by omega)

end Ensure

/-! ### Parts and their texts -/

/-- A part writes its text and moves the offset behind it, or is refused. It may change the
depth. -/
def Prints (settings : Settings) (before after : Nat) (part : Printer Bool)
    (text : Option (List UInt8)) : Prop :=
  ∀ written p, Holds settings before written p → Completes part p fun succeeds next =>
    if succeeds then ∃ whole, text = some whole ∧ TerminatorFree whole ∧
      Holds settings after (written ++ whole) next
    else Refuses settings written text next

/-- A part writes its text with the terminator, leaves the offset on the way, and had room for two
bytes more, or is refused. -/
def PrintsValue (settings : Settings) (before after : Nat) (part : Printer Bool)
    (text : Option (List UInt8)) : Prop :=
  ∀ written p, Holds settings before written p → Completes part p fun succeeds next =>
    if succeeds then ∃ whole, text = some whole ∧ TerminatorFree whole ∧
      Printed settings after written whole next ∧
      written.length + whole.length + 2 ≤ settings.limit
    else Refuses settings written text next

theorem TerminatorFree.append {first second : List UInt8} (left : TerminatorFree first)
    (right : TerminatorFree second) : TerminatorFree (first ++ second) :=
  List.forall_mem_append.mpr ⟨left, right⟩

theorem TerminatorFree.map_some {text : List UInt8} (free : TerminatorFree text)
    (rest : ByteBlock) : strlen (text.map some ++ some 0 :: rest) = .ok text.length := by
  induction text with
  | nil => rfl
  | cons byte text inductionHypothesis =>
    obtain ⟨nonzero, others⟩ := List.forall_mem_cons.mp free
    rw [List.map_cons, List.cons_append, strlen, if_neg nonzero, inductionHypothesis others]
    rfl

section Rules

variable {settings : Settings} {before between after : Nat} {written : List UInt8}
  {p : PrintBuffer}

theorem Refuses.left {first : Option (List UInt8)} (refuses : Refuses settings written first p)
    (second : Option (List UInt8)) : Refuses settings written (joined first second) p := by
  refine refuses.imp id fun large whole isWhole => ?_
  obtain ⟨front, rest, isFront, -, rfl⟩ := joined_eq_some_iff.mp isWhole
  have bound := large front isFront
  rw [List.length_append]
  omega

theorem Refuses.right {front : List UInt8} {second : Option (List UInt8)}
    (refuses : Refuses settings (written ++ front) second p) :
    Refuses settings written (joined (some front) second) p := by
  refine refuses.imp id fun large whole isWhole => ?_
  obtain ⟨front', rest, isFront, isRest, rfl⟩ := joined_eq_some_iff.mp isWhole
  obtain rfl := Option.some.inj isFront
  have bound := large rest isRest
  rw [List.length_append] at bound ⊢
  omega

theorem prints_nothing (settings : Settings) (depth : Nat) :
    Prints settings depth depth (pure true) (some []) := by
  intro written p holds
  refine ⟨true, p, rfl, [], rfl, fun _ absent => absurd absent List.not_mem_nil, ?_⟩
  rwa [List.append_nil]

/-- The rule of sequencing. -/
theorem Prints.andThen {first second : Printer Bool} {text more : Option (List UInt8)}
    (begins : Prints settings before between first text)
    (continues : Prints settings between after second more) :
    Prints settings before after (andThen first second) (joined text more) := by
  intro written p holds
  refine completes_bind (begins written p holds) fun succeeds next outcome => ?_
  cases succeeds with
  | false => exact ⟨false, next, rfl, outcome.left more⟩
  | true =>
    obtain ⟨front, rfl, free, middle⟩ := outcome
    refine (continues _ next middle).mono fun succeeds last outcome => ?_
    cases succeeds with
    | false => exact Refuses.right outcome
    | true =>
      obtain ⟨rest, rfl, restFree, final⟩ := outcome
      rw [List.append_assoc] at final
      exact ⟨front ++ rest, rfl, free.append restFree, final⟩

/-- The rule of sequencing before a value. -/
theorem Prints.andThenValue {first second : Printer Bool} {text more : Option (List UInt8)}
    (begins : Prints settings before between first text)
    (continues : PrintsValue settings between after second more) :
    PrintsValue settings before after (DiffServSimulation.andThen first second)
      (joined text more) := by
  intro written p holds
  refine completes_bind (begins written p holds) fun succeeds next outcome => ?_
  cases succeeds with
  | false => exact ⟨false, next, rfl, outcome.left more⟩
  | true =>
    obtain ⟨front, rfl, free, middle⟩ := outcome
    refine (continues _ next middle).mono fun succeeds last outcome => ?_
    cases succeeds with
    | false => exact Refuses.right outcome
    | true =>
      obtain ⟨rest, rfl, restFree, final, fits⟩ := outcome
      refine ⟨front ++ rest, rfl, free.append restFree, ⟨?_, ?_, ?_, ?_⟩, ?_⟩
      · rw [← List.append_assoc]
        exact final.toBlockBegins
      · have above := final.above
        rw [List.length_append] at above
        omega
      · rw [← List.append_assoc]
        exact final.below
      · rw [← List.append_assoc]
        exact final.inside
      · rw [List.length_append] at fits ⊢
        omega

/-- `update_offset` finds the end of a value. -/
theorem PrintsValue.updated_completes {part : Printer Bool} {text : Option (List UInt8)}
    (prints : PrintsValue settings before after part text) {p : PrintBuffer}
    (holds : Holds settings before written p) :
    Completes (DiffServSimulation.updated part) p fun succeeds next =>
      if succeeds then ∃ whole, text = some whole ∧ TerminatorFree whole ∧
        Printed settings after written whole next ∧ next.offset = (written ++ whole).length ∧
        written.length + whole.length + 2 ≤ settings.limit
      else Refuses settings written text next := by
  refine completes_bind (prints written p holds) fun succeeds next outcome => ?_
  cases succeeds with
  | false => exact ⟨false, next, rfl, outcome⟩
  | true =>
    obtain ⟨whole, rfl, free, printed, fits⟩ := outcome
    obtain ⟨block, present, begins, long⟩ := printed.block
    obtain ⟨rest, rfl⟩ := begins
    have above := printed.above
    have below := printed.below
    rw [List.length_append] at below
    have left : (((written ++ whole ++ [0]).map some ++ rest).drop next.offset) =
        (whole.drop (next.offset - written.length)).map some ++ some 0 :: rest := by
      obtain ⟨count, isCount⟩ := Nat.exists_eq_add_of_le above
      rw [isCount, Nat.add_sub_cancel_left, List.map_append, List.map_append, List.append_assoc,
        List.append_assoc, ← List.drop_drop, List.drop_left' (by simp),
        List.drop_append_of_le_length (by rw [List.length_map]; omega), List.map_drop]
      rfl
    have rests : TerminatorFree (whole.drop (next.offset - written.length)) :=
      fun byte member => free byte (List.mem_of_mem_drop member)
    have length := rests.map_some rest
    rw [← left, List.length_drop] at length
    have ran : updateOffset.run next =
        .ok (⟨⟩, { next with offset := (written ++ whole).length }) := by
      rw [updateOffset, run_get_bind]
      simp only [present, length, List.length_append]
      rw [run_bind_ok _ _ _ _ _ (run_lift_ok _ _)]
      have total : next.offset + (whole.length - (next.offset - written.length)) =
          written.length + whole.length := by omega
      rw [← total, ← present]
      rfl
    have begins := printed.toBlockBegins
    exact completes_run_bind ran ⟨true, _, rfl, whole, rfl, free, ⟨⟨begins.isSettings,
      begins.isDepth, begins.block, begins.small, begins.copies⟩,
      by show _ ≤ (written ++ whole).length; rw [List.length_append]; omega, Nat.le_refl _,
      printed.inside⟩, rfl, fits⟩

theorem PrintsValue.updated {part : Printer Bool} {text : Option (List UInt8)}
    (prints : PrintsValue settings before after part text) :
    Prints settings before after (updated part) text := by
  intro written p holds
  refine (prints.updated_completes holds).mono fun succeeds next outcome => ?_
  cases succeeds with
  | false => exact outcome
  | true =>
    obtain ⟨whole, rfl, free, printed, offset, -⟩ := outcome
    exact ⟨whole, rfl, free, printed.toBlockBegins.front, offset, Or.inr printed.inside⟩

/-- A part that reserves room and fills it. -/
theorem prints_ensured (needed : Nat) (write : Nat → Printer PUnit) (text : List UInt8)
    (free : TerminatorFree text) (modest : needed ≤ text.length + 1)
    (writes : ∀ written p, Room settings before written needed p →
      Completes (write written.length) p fun _ next =>
        Holds settings after (written ++ text) next) :
    Prints settings before after (ensured needed write) (some text) := by
  intro written p holds
  refine completes_bind (ensure_completes holds needed) fun result next outcome => ?_
  cases result with
  | none =>
    refine ⟨false, next, rfl, outcome.imp id fun large whole isWhole => ?_⟩
    obtain rfl := Option.some.inj isWhole
    omega
  | some output =>
    obtain ⟨rfl, room⟩ := outcome
    refine completes_bind (writes written next room) fun _ last final => ?_
    exact ⟨true, last, rfl, text, rfl, free, final⟩

/-- A value that reserves room for its text and the terminator. -/
theorem printsValue_ensured (write : Nat → Printer PUnit) (text : List UInt8)
    (free : TerminatorFree text)
    (writes : ∀ written p, Room settings before written (text.length + 1) p →
      Completes (write written.length) p fun _ next => Printed settings after written text next) :
    PrintsValue settings before after (ensured (text.length + 1) write) (some text) := by
  intro written p holds
  refine completes_bind (ensure_completes holds (text.length + 1)) fun result next outcome => ?_
  cases result with
  | none =>
    refine ⟨false, next, rfl, outcome.imp id fun large whole isWhole => ?_⟩
    obtain rfl := Option.some.inj isWhole
    omega
  | some output =>
    obtain ⟨rfl, room⟩ := outcome
    have fits := room.room
    have limit := room.length_le_limit
    refine completes_bind (writes written next room) fun _ last final => ?_
    exact ⟨true, last, rfl, text, rfl, free, final, by omega⟩

/-- The rule for a part that looks at the format and the depth first. -/
theorem prints_get {part : PrintBuffer → Printer Bool} {text : Option (List UInt8)}
    (prints : ∀ p : PrintBuffer, p.format = settings.format → p.depth = before →
      Prints settings before after (part p) text) :
    Prints settings before after (get >>= part) text :=
  fun written p holds =>
    completes_get_bind (prints p holds.format holds.isDepth written p holds)

theorem printsValue_get {part : PrintBuffer → Printer Bool} {text : Option (List UInt8)}
    (prints : ∀ p : PrintBuffer, p.format = settings.format → p.depth = before →
      PrintsValue settings before after (part p) text) :
    PrintsValue settings before after (get >>= part) text :=
  fun written p holds =>
    completes_get_bind (prints p holds.format holds.isDepth written p holds)

theorem printsValue_refuses (settings : Settings) (before after : Nat) :
    PrintsValue settings before after (pure false) none :=
  fun _ p _ => ⟨false, p, rfl, Or.inr fun _ absent => by cases absent⟩

end Rules

end DiffServSimulation
