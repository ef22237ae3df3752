/-
This file states the invariant of a parse and proves that the parsers of the small
tokens keep it.

`Ready` is what holds between any two statements of a parse that has not failed:
the offset is inside the text, and the text ends in its terminator. A parser may
only step over a byte it has seen to be no terminator, which is why the offset
stays inside. `Passed` says which text was stepped over.
-/

import DiffServSimulation.CjsonParseRuns

namespace DiffServSimulation

open Faulting

/-! ### The invariant of the buffer -/

/-- The offset is inside a text that ends in its terminator. -/
structure Ready (buffer : ParseBuffer) : Prop where
  regular : buffer.Regular
  inside : buffer.offset < buffer.length
  terminated : buffer.content[buffer.length - 1]? = some 0

theorem Ready.of_offset {buffer : ParseBuffer} (ready : Ready buffer) (offset depth : Nat)
    (inside : offset < buffer.length) :
    Ready { buffer with offset := offset, depth := depth } :=
  ⟨⟨ready.regular.isLength, ready.regular.granting⟩, inside, ready.terminated⟩

/-- Every position inside holds a byte. -/
theorem Ready.byte {buffer : ParseBuffer} (ready : Ready buffer) (position : Nat)
    (inside : position < buffer.length) : ∃ byte, buffer.content[position]? = some byte :=
  ⟨_, List.getElem?_eq_getElem (Nat.lt_of_lt_of_eq inside ready.regular.isLength)⟩

/-- Behind a byte that is no terminator there is another byte. -/
theorem Ready.next_inside {buffer : ParseBuffer} (ready : Ready buffer) {position : Nat}
    {byte : UInt8} (inside : position < buffer.length)
    (holds : buffer.content[position]? = some byte) (nonzero : byte ≠ 0) :
    position + 1 < buffer.length := by
  by_contra outside
  have last : position = buffer.length - 1 := by omega
  rw [last, ready.terminated] at holds
  exact nonzero (Option.some.inj holds).symm

/-- The text ahead ends in the terminator. -/
theorem Ready.ahead_eq {buffer : ParseBuffer} (ready : Ready buffer) :
    ∃ front, buffer.ahead = front ++ [0] := by
  have inside := ready.inside
  have length := ready.regular.length_ahead
  have nonempty : buffer.ahead ≠ [] := by
    rw [← List.length_pos_iff]
    omega
  refine ⟨buffer.ahead.dropLast, ?_⟩
  have last : buffer.ahead.getLast? = some 0 := by
    rw [ParseBuffer.ahead, List.getLast?_drop, if_neg (by rw [← ready.regular.isLength]; omega),
      List.getLast?_eq_getElem?, ← ready.regular.isLength, ready.terminated]
  rw [← List.getLast_of_getLast?_eq_some last, List.dropLast_append_getLast]

/-- The parser went over a text and is inside again. -/
structure Passed (before : ParseBuffer) (text : List UInt8) (after : ParseBuffer) : Prop where
  skipped : after = before.skip text.length
  stands : before.ahead = text ++ after.ahead
  ready : Ready after

namespace Passed

variable {before middle after : ParseBuffer} {text more : List UInt8}

theorem offset (passed : Passed before text after) :
    after.offset = before.offset + text.length := by
  rw [passed.skipped]
  rfl

theorem length (passed : Passed before text after) : after.length = before.length := by
  rw [passed.skipped]
  rfl

theorem depth (passed : Passed before text after) : after.depth = before.depth := by
  rw [passed.skipped]
  rfl

theorem refl (ready : Ready before) : Passed before [] before := ⟨rfl, rfl, ready⟩

theorem trans (first : Passed before text middle) (second : Passed middle more after) :
    Passed before (text ++ more) after := by
  refine ⟨?_, ?_, second.ready⟩
  · rw [second.skipped, first.skipped, ParseBuffer.skip_skip, List.length_append]
  · rw [first.stands, second.stands, List.append_assoc]

end Passed

theorem Ready.passed {buffer : ParseBuffer} (ready : Ready buffer) {text rest : List UInt8}
    (stands : buffer.ahead = text ++ rest) (more : rest ≠ []) :
    Passed buffer text (buffer.skip text.length) := by
  have length := ready.regular.length_ahead
  have positive := List.length_pos_iff.mpr more
  rw [stands, List.length_append] at length
  refine ⟨rfl, ?_, ready.of_offset _ _ (by omega)⟩
  rw [ParseBuffer.ahead_skip, stands, List.drop_left]

/-- A text without a terminator leaves the parser inside. -/
theorem Ready.passed_of_free {buffer : ParseBuffer} (ready : Ready buffer)
    {text rest : List UInt8} (stands : buffer.ahead = text ++ rest) (free : 0 ∉ text) :
    Passed buffer text (buffer.skip text.length) := by
  refine ready.passed stands ?_
  rintro rfl
  obtain ⟨front, ends⟩ := ready.ahead_eq
  rw [stands, List.append_nil] at ends
  exact free (ends ▸ List.mem_append_right _ (List.mem_singleton_self 0))

/-! ### Tokens -/

/-- A parser that refuses promises nothing about the item. -/
theorem completes_refuse {Value : Type} {buffer : ParseBuffer}
    {post : Value → ParseBuffer → Prop} :
    Completes (pure none : Parser (Option Value)) buffer fun result next =>
      ∀ parsed, result = some parsed → post parsed next :=
  completes_pure fun _ absent => nomatch absent

section Tokens

variable {buffer : ParseBuffer} (ready : Ready buffer)

include ready

theorem nextIs_completes (expected : UInt8) :
    Completes (nextIs expected) buffer fun found next =>
      next = buffer ∧ (found = true → ∃ rest, buffer.ahead = expected :: rest) := by
  refine ⟨_, _, nextIs_run ready.regular expected, rfl, fun found => ?_⟩
  rw [beq_iff_eq, List.head?_eq_some_iff] at found
  exact found

theorem literalIs_completes (literal : List UInt8) (positive : 0 < literal.length) :
    Completes (literalIs literal) buffer fun found next =>
      next = buffer ∧ (found = true → ∃ rest, buffer.ahead = literal ++ rest) := by
  refine ⟨_, _, literalIs_run ready.regular literal positive, rfl, fun found => ?_⟩
  obtain ⟨rest, stands⟩ := List.isPrefixOf_iff_prefix.mp found
  exact ⟨rest, stands.symm⟩

theorem bufferSkipWhitespace_completes :
    Completes bufferSkipWhitespace buffer fun _ next =>
      ∃ white, White white ∧ Passed buffer white next := by
  obtain ⟨front, ends⟩ := ready.ahead_eq
  refine ⟨_, _, bufferSkipWhitespace_run ready.regular, front.takeWhile isWhitespace, ?_, ?_⟩
  · intro byte member
    have white : isWhitespace byte = true := List.mem_takeWhile_imp member
    exact of_decide_eq_true white
  · have split : front.takeWhile isWhitespace ++ (front.dropWhile isWhitespace ++ [0]) =
        buffer.ahead := by
      rw [← List.append_assoc, List.takeWhile_append_dropWhile, ends]
    rw [ends, List.dropLast_concat]
    exact ready.passed split.symm (List.append_ne_nil_of_right_ne_nil _ (List.cons_ne_nil _ _))

/-- Stepping over a byte that is no terminator. -/
theorem passed_one {byte : UInt8} {rest : List UInt8} (stands : buffer.ahead = byte :: rest)
    (nonzero : byte ≠ 0) : Passed buffer [byte] (buffer.skip 1) :=
  ready.passed_of_free (show buffer.ahead = [byte] ++ rest from stands)
    (by simpa using nonzero.symm)

end Tokens

/-! ### Numbers -/

theorem isNumberByte_ne_zero {byte : UInt8} (number : isNumberByte byte = true) : byte ≠ 0 := by
  rintro rfl
  exact absurd number (by decide)

/-- A number is taken as far as it is read. -/
theorem parseNumber_completes {buffer : ParseBuffer} (ready : Ready buffer) (item : Item)
    (starts : ∃ byte ∈ buffer.ahead.head?, byte = '-'.toUInt8 ∨ DecimalNumber.isDigit byte = true) :
    Completes (parseNumber item) buffer fun result next =>
      ∀ parsed, result = some parsed → ∃ text number, Passed buffer text next ∧
        NumberText text number ∧
        parsed = { item with type := .number, valueint := DecimalNumber.saturate number,
                             valuedouble := DecimalNumber.Double.ofRat number } := by
  rw [parseNumber]
  refine completes_run_bind (numberLoop_run ready.regular 63 0) ?_
  rw [List.drop_zero]
  have window := List.takeWhile_prefix (l := buffer.ahead.take 63) isNumberByte
  have isNumber : ∀ byte ∈ (buffer.ahead.take 63).takeWhile isNumberByte,
      isNumberByte byte = true := fun byte member => List.mem_takeWhile_imp member
  generalize (buffer.ahead.take 63).takeWhile isNumberByte = bytes at window isNumber
  cases reads : DecimalNumber.strtod bytes with
  | none => exact completes_refuse
  | some read =>
    obtain ⟨number, length⟩ := read
    have taken := DecimalNumber.strtod_length bytes number length reads
    have isLength : (bytes.take length).length = length := List.length_take_of_le taken.2
    obtain ⟨rest, stands⟩ : bytes.take length <+: buffer.ahead :=
      (List.take_prefix length bytes).trans (window.trans (List.take_prefix 63 buffer.ahead))
    have free : 0 ∉ bytes.take length := fun zero =>
      isNumberByte_ne_zero (isNumber 0 (List.mem_of_mem_take zero)) rfl
    have passed := ready.passed_of_free stands.symm free
    rw [isLength] at passed
    refine ⟨_, _, rfl, fun parsed filled => ?_⟩
    cases filled
    refine ⟨bytes.take length, number, passed,
      ⟨fun byte member => isNumber byte (List.mem_of_mem_take member), ?_, ?_, ?_⟩, rfl⟩
    · obtain ⟨byte, first, kind⟩ := starts
      refine ⟨byte, ?_, kind⟩
      rwa [← stands, List.head?_append_of_ne_nil _
        (List.ne_nil_of_length_pos (by omega))] at first
    · have short := window.length_le
      rw [List.length_take] at short
      omega
    · rw [isLength]
      exact DecimalNumber.strtod_take bytes number length reads

end DiffServSimulation
