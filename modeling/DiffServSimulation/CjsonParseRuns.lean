/-
This file says exactly what the smallest parts of the parser do, in terms of the
text ahead of the offset.

A part that only looks leaves the buffer as it is and its answer is a function of
the text ahead. A part that takes bytes moves the offset over them, which is
`skip`, and the text ahead is then what stood behind them. The lemmas rewrite a
run of the parser from one such state to the next.
-/

import DiffServSimulation.CjsonDialect

namespace DiffServSimulation

open Faulting DecimalNumber

/-! ### The text ahead -/

namespace ParseBuffer

variable (buffer : ParseBuffer)

/-- The content from the offset on. -/
def ahead : List UInt8 := buffer.content.drop buffer.offset

/-- The buffer with its offset further on. -/
def skip (count : Nat) : ParseBuffer := { buffer with offset := buffer.offset + count }

/-- The length is the length of the content, and every request is granted. -/
structure Regular : Prop where
  isLength : buffer.length = buffer.content.length
  granting : buffer.hooks = Hooks.granting

@[simp] theorem ahead_skip (count : Nat) : (buffer.skip count).ahead = buffer.ahead.drop count := by
  rw [ahead, ahead, skip, List.drop_drop]

@[simp] theorem skip_skip (first second : Nat) :
    (buffer.skip first).skip second = buffer.skip (first + second) := by
  rw [skip, skip, skip, Nat.add_assoc]

variable {buffer}

theorem Regular.skip (regular : buffer.Regular) (count : Nat) : (buffer.skip count).Regular :=
  ⟨regular.isLength, regular.granting⟩

theorem Regular.at_depth (regular : buffer.Regular) (depth : Nat) :
    { buffer with depth := depth }.Regular :=
  ⟨regular.isLength, regular.granting⟩

theorem Regular.of_skip {count : Nat} (regular : (buffer.skip count).Regular) : buffer.Regular :=
  ⟨regular.isLength, regular.granting⟩

theorem getElem?_ahead (index : Nat) :
    buffer.content[buffer.offset + index]? = buffer.ahead[index]? := by
  rw [ahead, List.getElem?_drop]

theorem Regular.length_ahead (regular : buffer.Regular) :
    buffer.ahead.length = buffer.length - buffer.offset := by
  rw [ahead, List.length_drop, regular.isLength]

theorem Regular.canAccessAtIndex_iff (regular : buffer.Regular) (index : Nat) :
    buffer.CanAccessAtIndex index ↔ index < buffer.ahead.length := by
  rw [regular.length_ahead, CanAccessAtIndex]
  omega

theorem Regular.canRead_iff (regular : buffer.Regular) (size : Nat) (positive : 0 < size) :
    buffer.CanRead size ↔ size ≤ buffer.ahead.length := by
  rw [regular.length_ahead, CanRead]
  omega

end ParseBuffer

variable {buffer : ParseBuffer}

/-! ### Looking -/

theorem getElem?_of_drop {content : List UInt8} {position : Nat} {byte : UInt8}
    {rest : List UInt8} (stands : content.drop position = byte :: rest) :
    content[position]? = some byte := by
  rw [← List.head?_drop, stands]
  rfl

theorem drop_of_drop {content : List UInt8} {position : Nat} (text : List UInt8)
    {rest : List UInt8} (stands : content.drop position = text ++ rest) :
    content.drop (position + text.length) = rest := by
  rw [← List.drop_drop, stands, List.drop_left]

theorem readAt_run {position : Nat} {byte : UInt8} (holds : buffer.content[position]? = some byte) :
    (readAt position).run buffer = .ok (byte, buffer) := by
  rw [readAt, run_get_bind, holds]
  rfl

theorem byteAt_run {index : Nat} {byte : UInt8} (holds : buffer.ahead[index]? = some byte) :
    (byteAt index).run buffer = .ok (byte, buffer) := by
  rw [byteAt, run_get_bind]
  exact readAt_run (buffer.getElem?_ahead index ▸ holds)

theorem nextIs_run (regular : buffer.Regular) (expected : UInt8) :
    (nextIs expected).run buffer = .ok (buffer.ahead.head? == some expected, buffer) := by
  rw [nextIs, run_get_bind]
  by_cases accessible : buffer.CanAccessAtIndex 0
  · rw [if_pos accessible]
    have inside := (regular.canAccessAtIndex_iff 0).mp accessible
    refine (run_bind_ok _ _ _ _ _ (byteAt_run (List.getElem?_eq_getElem inside))).trans ?_
    rw [List.head?_eq_getElem?, List.getElem?_eq_getElem inside]
    rfl
  · rw [if_neg accessible]
    have outside := mt (regular.canAccessAtIndex_iff 0).mpr accessible
    rw [List.length_eq_zero_iff.mp (Nat.eq_zero_of_not_pos outside)]
    rfl

/-- Once the length is checked, the comparison with a literal is a prefix test. -/
theorem startsWith_run (literal : List UInt8) (index : Nat)
    (room : index + literal.length ≤ buffer.ahead.length) :
    (startsWith literal index).run buffer =
      .ok (literal.isPrefixOf (buffer.ahead.drop index), buffer) := by
  induction literal generalizing index with
  | nil => rfl
  | cons expected rest inductionHypothesis =>
    rw [List.length_cons] at room
    have inside : index < buffer.ahead.length := by omega
    rw [startsWith, List.drop_eq_getElem_cons inside, List.isPrefixOf_cons_cons]
    refine (run_bind_ok _ _ _ _ _ (byteAt_run (List.getElem?_eq_getElem inside))).trans ?_
    by_cases same : buffer.ahead[index] = expected
    · rw [if_pos same, inductionHypothesis (index + 1) (by omega), same, beq_self_eq_true,
        Bool.true_and]
    · rw [if_neg same, beq_false_of_ne (Ne.symm same), Bool.false_and]
      rfl

theorem isPrefixOf_eq_false_of_length_lt {first second : List UInt8}
    (shorter : second.length < first.length) : first.isPrefixOf second = false := by
  rw [Bool.eq_false_iff, ne_eq, List.isPrefixOf_iff_prefix]
  exact fun isPrefix => Nat.not_le_of_lt shorter isPrefix.length_le

theorem literalIs_run (regular : buffer.Regular) (literal : List UInt8)
    (positive : 0 < literal.length) :
    (literalIs literal).run buffer = .ok (literal.isPrefixOf buffer.ahead, buffer) := by
  rw [literalIs, run_get_bind]
  by_cases readable : buffer.CanRead literal.length
  · rw [if_pos readable]
    have room := (regular.canRead_iff _ positive).mp readable
    exact startsWith_run literal 0 (by omega)
  · rw [if_neg readable]
    have short := mt (regular.canRead_iff _ positive).mpr readable
    rw [isPrefixOf_eq_false_of_length_lt (by omega)]
    rfl

/-! ### Taking -/

/-- A request that is granted leaves the buffer as it is. -/
theorem allocate_run (regular : buffer.Regular) (size : Nat) :
    (allocate size).run buffer = .ok (true, buffer) := by
  obtain ⟨content, length, offset, depth, hooks⟩ := buffer
  obtain rfl : hooks = Hooks.granting := regular.granting
  rfl

theorem advance_run (count : Nat) :
    (advance count).run buffer = .ok (⟨⟩, buffer.skip count) := rfl

/-- A byte the parser takes for whitespace. -/
def isWhitespace (byte : UInt8) : Bool := byte ≤ 32

/-- The whitespace loop passes over the whitespace ahead. -/
theorem whitespaceLoop_run (regular : buffer.Regular) (fuel : Nat)
    (enough : buffer.ahead.length < fuel) :
    (whitespaceLoop fuel).run buffer =
      .ok (⟨⟩, buffer.skip (buffer.ahead.takeWhile isWhitespace).length) := by
  induction fuel generalizing buffer with
  | zero => exact absurd enough (Nat.not_lt_zero _)
  | succ fuel inductionHypothesis =>
    rw [whitespaceLoop, run_get_bind]
    cases stands : buffer.ahead with
    | nil =>
      rw [if_neg (mt (regular.canAccessAtIndex_iff 0).mp (by rw [stands]; exact Nat.lt_irrefl 0))]
      rfl
    | cons byte rest =>
      rw [if_pos ((regular.canAccessAtIndex_iff 0).mpr (by rw [stands]; exact Nat.succ_pos _))]
      refine (run_bind_ok _ _ _ _ byte (byteAt_run (by rw [stands]; rfl))).trans ?_
      rw [List.takeWhile_cons]
      by_cases white : byte ≤ 32
      · have behind : (buffer.skip 1).ahead = rest := by
          rw [ParseBuffer.ahead_skip, stands]
          rfl
        rw [stands] at enough
        rw [if_pos white, if_pos (show isWhitespace byte = true from decide_eq_true white)]
        refine (run_bind_ok _ _ _ _ _ (advance_run 1)).trans ?_
        rw [inductionHypothesis (regular.skip 1) (behind ▸ Nat.lt_of_succ_lt_succ enough), behind,
          ParseBuffer.skip_skip, List.length_cons, Nat.add_comm 1]
      · have visible : ¬ isWhitespace byte = true := by simpa [isWhitespace] using white
        rw [if_neg white, if_neg visible]
        rfl

/-- Skipping whitespace passes over it, but never over the last byte. -/
theorem bufferSkipWhitespace_run (regular : buffer.Regular) :
    bufferSkipWhitespace.run buffer =
      .ok (⟨⟩, buffer.skip (buffer.ahead.dropLast.takeWhile isWhitespace).length) := by
  have length := regular.length_ahead
  rw [bufferSkipWhitespace, run_get_bind, List.dropLast_eq_take, ← List.take_takeWhile,
    List.length_take]
  by_cases accessible : buffer.CanAccessAtIndex 0
  · have inside := (regular.canAccessAtIndex_iff 0).mp accessible
    have white := (List.takeWhile_prefix (l := buffer.ahead) isWhitespace).length_le
    rw [if_pos accessible]
    refine (run_bind_ok _ _ _ _ _ (whitespaceLoop_run regular (buffer.length + 1) (by omega))).trans
      ?_
    rw [run_get_bind]
    generalize (buffer.ahead.takeWhile isWhitespace).length = count at white
    by_cases atEnd : (buffer.skip count).offset = (buffer.skip count).length
    · have isEnd : buffer.offset + count = buffer.length := atEnd
      have back : buffer.offset + count - 1 =
          buffer.offset + min (buffer.ahead.length - 1) count := by omega
      rw [if_pos atEnd]
      show Except.ok (PUnit.unit, { buffer with offset := buffer.offset + count - 1 }) = _
      rw [back]
      rfl
    · have notEnd : buffer.offset + count ≠ buffer.length := atEnd
      have least : min (buffer.ahead.length - 1) count = count := by omega
      rw [if_neg atEnd, least]
      rfl
  · have outside := mt (regular.canAccessAtIndex_iff 0).mpr accessible
    have least :
        min (buffer.ahead.length - 1) (buffer.ahead.takeWhile isWhitespace).length = 0 := by omega
    rw [if_neg accessible, least]
    rfl

theorem White.isWhitespace {text : List UInt8} (isWhite : White text) :
    ∀ byte ∈ text, isWhitespace byte = true :=
  fun byte member => decide_eq_true (isWhite byte member)

/-- Skipping whitespace takes all of it that stands before a visible byte. -/
theorem bufferSkipWhitespace_run_white (regular : buffer.Regular) {white rest : List UInt8}
    {byte : UInt8} (isWhite : White white) (visible : 32 < byte)
    (stands : buffer.ahead = white ++ byte :: rest) :
    bufferSkipWhitespace.run buffer = .ok (⟨⟩, buffer.skip white.length) := by
  have stops : StopsAt isWhitespace (byte :: rest).dropLast := by
    intro first isFirst
    rw [List.head?_dropLast] at isFirst
    split_ifs at isFirst
    · cases isFirst
      exact decide_eq_false (UInt8.not_le.mpr visible)
    · cases isFirst
  rw [bufferSkipWhitespace_run regular, stands,
    List.dropLast_append_of_ne_nil (List.cons_ne_nil byte rest),
    takeWhile_append_of_stopsAt _ _ _ isWhite.isWhitespace stops]

/-- The terminator counts as whitespace, but it is the last byte. -/
theorem bufferSkipWhitespace_run_end (regular : buffer.Regular) {white : List UInt8}
    (isWhite : White white) (stands : buffer.ahead = white ++ [0]) :
    bufferSkipWhitespace.run buffer = .ok (⟨⟩, buffer.skip white.length) := by
  rw [bufferSkipWhitespace_run regular, stands, List.dropLast_concat,
    List.takeWhile_eq_self_iff.mpr isWhite.isWhitespace]

/-! ### Code units -/

theorem hexLoop_run (digits : List UInt8) (position value : Nat) {rest : List UInt8}
    (nonempty : digits ≠ []) (stands : buffer.content.drop position = digits ++ rest) :
    (hexLoop digits.length position (16 * value)).run buffer =
      .ok (hexValue value digits, buffer) := by
  induction digits generalizing position value with
  | nil => exact absurd rfl nonempty
  | cons byte digits inductionHypothesis =>
    rw [List.length_cons, hexLoop, hexValue]
    refine (run_bind_ok _ _ _ _ _ (readAt_run (getElem?_of_drop stands))).trans ?_
    cases hexDigit? byte with
    | none => rfl
    | some digit =>
      cases digits with
      | nil => rfl
      | cons next digits =>
        have shifted : (16 * value + digit) <<< 4 = 16 * (16 * value + digit) := by
          rw [Nat.shiftLeft_eq]
          omega
        have behind := drop_of_drop [byte] stands
        simp only [if_pos (show 0 < (next :: digits).length from Nat.succ_pos _), shifted]
        exact inductionHypothesis (position + 1) (16 * value + digit) (List.cons_ne_nil _ _) behind

/-- Four bytes are read as the code unit they write. -/
theorem parseHex4_run {digits rest : List UInt8} (four : digits.length = 4) (position : Nat)
    (stands : buffer.content.drop position = digits ++ rest) :
    (parseHex4 position).run buffer = .ok (hexValue 0 digits, buffer) := by
  have nonempty : digits ≠ [] := by
    rintro rfl
    cases four
  have ran := hexLoop_run digits position 0 nonempty stands
  rwa [four] at ran

/-! ### Numbers -/

theorem numberLoop_run (regular : buffer.Regular) (room index : Nat) :
    (numberLoop room index).run buffer =
      .ok (((buffer.ahead.drop index).take room).takeWhile isNumberByte, buffer) := by
  induction room generalizing index with
  | zero => rfl
  | succ room inductionHypothesis =>
    rw [numberLoop, run_get_bind]
    by_cases accessible : buffer.CanAccessAtIndex index
    · rw [if_pos accessible]
      have inside := (regular.canAccessAtIndex_iff index).mp accessible
      refine (run_bind_ok _ _ _ _ _ (byteAt_run (List.getElem?_eq_getElem inside))).trans ?_
      rw [List.drop_eq_getElem_cons inside, List.take_succ_cons, List.takeWhile_cons]
      by_cases number : isNumberByte buffer.ahead[index] = true
      · rw [if_pos number, if_pos number]
        exact run_bind_ok _ _ _ _ _ (inductionHypothesis (index + 1))
      · rw [if_neg number, if_neg number]
        rfl
    · rw [if_neg accessible]
      have outside := mt (regular.canAccessAtIndex_iff index).mpr accessible
      rw [List.drop_eq_nil_of_le (Nat.le_of_not_lt outside)]
      rfl

/-- A number is taken whole if no number byte stands behind it. -/
theorem parseNumber_run (regular : buffer.Regular) (item : Item) {text rest : List UInt8}
    {number : ℚ} (isNumber : NumberText text number) (stops : StopsAt isNumberByte rest)
    (stands : buffer.ahead = text ++ rest) :
    (parseNumber item).run buffer =
      .ok (some { item with
        type := .number, valueint := saturate number, valuedouble := Double.ofRat number },
        buffer.skip text.length) := by
  have stopsEarly : StopsAt isNumberByte (rest.take (63 - text.length)) := by
    intro byte first
    refine stops byte ?_
    rw [List.head?_take] at first
    split_ifs at first
    · cases first
    · exact first
  have taken : ((buffer.ahead.drop 0).take 63).takeWhile isNumberByte = text := by
    rw [List.drop_zero, stands, List.take_append, List.take_of_length_le isNumber.short]
    exact takeWhile_append_of_stopsAt _ _ _ isNumber.bytes stopsEarly
  rw [parseNumber]
  refine (run_bind_ok _ _ _ _ _ (numberLoop_run regular 63 0)).trans ?_
  rw [taken, isNumber.reads]
  rfl

end DiffServSimulation
