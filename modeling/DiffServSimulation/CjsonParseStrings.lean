/-
This file proves that `parse_string` takes every string of the dialect, for
exactly the bytes the dialect unescapes it to.

Both passes work on absolute positions, so the lemmas say what stands at a
position and step over it. That the second pass has room for what it writes is
not shown again: every part keeps the account that the safety proof keeps.
-/

import DiffServSimulation.CjsonStringSafety

namespace DiffServSimulation

open Faulting

variable {buffer : ParseBuffer}

/-! ### A part of a string -/

/-- A code unit that is a character of its own. -/
theorem utf16LiteralToUtf8_run_unit {digits bytes rest : List UInt8} (four : digits.length = 4)
    (single : Single (hexValue 0 digits)) (encodes : encodeUtf8 (hexValue 0 digits) = some bytes)
    (position inputEnd : Nat)
    (stands : buffer.content.drop position = '\\'.toUInt8 :: 'u'.toUInt8 :: (digits ++ rest))
    (room : position + 6 ≤ inputEnd) :
    (utf16LiteralToUtf8 position inputEnd).run buffer = .ok (some (bytes, 6), buffer) := by
  have behind := drop_of_drop ['\\'.toUInt8, 'u'.toUInt8] stands
  rw [Single] at single
  rw [utf16LiteralToUtf8, if_neg (by omega)]
  refine (run_bind_ok _ _ _ _ _ (parseHex4_run four _ behind)).trans ?_
  rw [if_neg (by omega), if_neg (by omega), encodes]
  rfl

/-- Two code units that make a character together. -/
theorem utf16LiteralToUtf8_run_pair {high low bytes rest : List UInt8}
    (highFour : high.length = 4) (lowFour : low.length = 4)
    (isHigh : 0xD800 ≤ hexValue 0 high ∧ hexValue 0 high ≤ 0xDBFF)
    (isLow : 0xDC00 ≤ hexValue 0 low ∧ hexValue 0 low ≤ 0xDFFF)
    (encodes : encodeUtf8 (0x10000 + (((hexValue 0 high &&& 0x3FF) <<< 10) |||
      (hexValue 0 low &&& 0x3FF))) = some bytes) (position inputEnd : Nat)
    (stands : buffer.content.drop position = '\\'.toUInt8 :: 'u'.toUInt8 ::
      (high ++ '\\'.toUInt8 :: 'u'.toUInt8 :: (low ++ rest)))
    (room : position + 12 ≤ inputEnd) :
    (utf16LiteralToUtf8 position inputEnd).run buffer = .ok (some (bytes, 12), buffer) := by
  have behind := drop_of_drop ['\\'.toUInt8, 'u'.toUInt8] stands
  have second := drop_of_drop high behind
  rw [highFour] at second
  have letter := drop_of_drop ['\\'.toUInt8] second
  have secondBehind := drop_of_drop ['u'.toUInt8] letter
  rw [utf16LiteralToUtf8, if_neg (by omega)]
  refine (run_bind_ok _ _ _ _ _ (parseHex4_run highFour _ behind)).trans ?_
  rw [if_neg (by omega), if_pos (by omega), if_neg (by omega)]
  refine (run_bind_ok _ _ _ _ _ (readAt_run (getElem?_of_drop second))).trans ?_
  rw [if_neg (not_not_intro rfl)]
  refine (run_bind_ok _ _ _ _ _ (readAt_run (getElem?_of_drop letter))).trans ?_
  rw [if_neg (not_not_intro rfl)]
  refine (run_bind_ok _ _ _ _ _ (parseHex4_run lowFour _ secondBehind)).trans ?_
  rw [if_neg (by omega)]
  simp only [encodes]
  rfl

theorem unescape_run_simple {letter byte : UInt8} {rest : List UInt8}
    (escape : simpleEscape? letter = some byte) (position inputEnd : Nat)
    (stands : buffer.content.drop position = '\\'.toUInt8 :: letter :: rest) :
    (unescape position inputEnd).run buffer = .ok (some ([byte], 2), buffer) := by
  have behind := drop_of_drop ['\\'.toUInt8] stands
  rw [unescape]
  refine (run_bind_ok _ _ _ _ _ (readAt_run (getElem?_of_drop stands))).trans ?_
  rw [if_neg (not_not_intro rfl)]
  refine (run_bind_ok _ _ _ _ _ (readAt_run (getElem?_of_drop behind))).trans ?_
  rw [escape]
  rfl

/-- What begins with a backslash and the letter `u` is left to the decoder of code units. -/
theorem unescape_run_unicode {rest : List UInt8} (position inputEnd : Nat)
    (stands : buffer.content.drop position = '\\'.toUInt8 :: 'u'.toUInt8 :: rest) :
    (unescape position inputEnd).run buffer =
      (utf16LiteralToUtf8 position inputEnd).run buffer := by
  have behind := drop_of_drop ['\\'.toUInt8] stands
  rw [unescape]
  refine (run_bind_ok _ _ _ _ _ (readAt_run (getElem?_of_drop stands))).trans ?_
  rw [if_neg (not_not_intro rfl)]
  exact run_bind_ok _ _ _ _ _ (readAt_run (getElem?_of_drop behind))

/-- One step of the second pass gives the bytes of a part and takes all of it. -/
theorem unescape_run {text bytes rest : List UInt8} (part : Part text bytes)
    (position inputEnd : Nat) (stands : buffer.content.drop position = text ++ rest)
    (room : position + text.length ≤ inputEnd) :
    (unescape position inputEnd).run buffer = .ok (some (bytes, text.length), buffer) := by
  cases part with
  | plain byte noEscape =>
    rw [unescape]
    refine (run_bind_ok _ _ _ _ _ (readAt_run (getElem?_of_drop stands))).trans ?_
    rw [if_pos noEscape]
    rfl
  | simple escape => exact unescape_run_simple escape position inputEnd stands
  | @unit digits bytes four single encodes =>
    have length : ('\\'.toUInt8 :: 'u'.toUInt8 :: digits).length = 6 := by simp [four]
    rw [length] at room ⊢
    exact (unescape_run_unicode position inputEnd stands).trans
      (utf16LiteralToUtf8_run_unit four single encodes position inputEnd stands room)
  | @pair high low bytes highFour lowFour isHigh isLow encodes =>
    have length : ('\\'.toUInt8 :: 'u'.toUInt8 ::
        (high ++ '\\'.toUInt8 :: 'u'.toUInt8 :: low)).length = 12 := by
      simp [highFour, lowFour]
    have reordered : buffer.content.drop position = '\\'.toUInt8 :: 'u'.toUInt8 ::
        (high ++ '\\'.toUInt8 :: 'u'.toUInt8 :: (low ++ rest)) := by
      simpa using stands
    rw [length] at room ⊢
    exact (unescape_run_unicode position inputEnd reordered).trans
      (utf16LiteralToUtf8_run_pair highFour lowFour isHigh isLow encodes position inputEnd
        reordered room)

/-! ### The second pass -/

section SecondPass

variable {final room : Nat}

/-- The second pass steps over a part. -/
theorem unescapeLoop_run_part {text bytes rest : List UInt8} (fuel position : Nat)
    (output : StringBlock) (before : position < final) (capacity : output.capacity = room + 1)
    (unescapes : (unescape position final).run buffer = .ok (some (bytes, text.length), buffer))
    (part : Part text bytes) (stands : buffer.content.drop position = text ++ rest)
    (within : 2 < text.length → position + text.length ≤ final)
    (fits : Fits buffer.content final room position output.written.length) :
    (unescapeLoop final (fuel + 1) position output).run buffer =
        (unescapeLoop final fuel (position + text.length)
          { output with written := output.written ++ bytes }).run buffer ∧
      Fits buffer.content final room (position + text.length) (output.written ++ bytes).length := by
  have taken := fits.part before part stands within
  rw [← List.length_append] at taken
  have le := taken.le
  rw [List.length_append] at le
  have written : output.write bytes = .ok { output with written := output.written ++ bytes } := by
    rw [StringBlock.write, if_pos (by omega)]
  refine ⟨?_, taken⟩
  rw [unescapeLoop, if_pos before]
  refine (run_bind_ok _ _ _ _ _ unescapes).trans ?_
  simp only [written]
  exact run_bind_ok _ _ _ _ _ (run_lift_ok _ _)

theorem unescapeLoop_run_parts {text bytes rest : List UInt8} (parts : Parts text bytes)
    (position : Nat) (output : StringBlock) (capacity : output.capacity = room + 1)
    (stands : buffer.content.drop position = text ++ rest)
    (within : position + text.length ≤ final)
    (fits : Fits buffer.content final room position output.written.length) :
    (∃ rounds, rounds ≤ text.length ∧ ∀ fuel,
      (unescapeLoop final (fuel + rounds) position output).run buffer =
        (unescapeLoop final fuel (position + text.length)
          { output with written := output.written ++ bytes }).run buffer) ∧
      Fits buffer.content final room (position + text.length) (output.written ++ bytes).length := by
  induction parts generalizing position output with
  | nil =>
    refine ⟨⟨0, Nat.le_refl 0, fun fuel => ?_⟩, ?_⟩
    · rw [List.append_nil, List.length_nil, Nat.add_zero, Nat.add_zero]
    · rwa [List.append_nil]
  | @cons text others bytes more first _ inductionHypothesis =>
    have positive := first.length_pos
    rw [List.length_append] at within
    rw [List.append_assoc] at stands
    have unescapes := unescape_run first position final stands (by omega)
    have step := fun fuel => unescapeLoop_run_part fuel position output (by omega) capacity
      unescapes first stands (fun _ => by omega) fits
    obtain ⟨⟨rounds, few, rest⟩, fitsLast⟩ := inductionHypothesis (position + text.length)
      { output with written := output.written ++ bytes } capacity (drop_of_drop text stands)
      (by omega) (step 0).2
    refine ⟨⟨rounds + 1, ?_, fun fuel => ?_⟩, ?_⟩
    · rw [List.length_append]
      omega
    · rw [← Nat.add_assoc, (step (fuel + rounds)).1, rest fuel, List.length_append, Nat.add_assoc,
        List.append_assoc]
    · rw [List.length_append, ← Nat.add_assoc, ← List.append_assoc]
      exact fitsLast

theorem unescapeLoop_run_end (fuel position : Nat) (output : StringBlock)
    (ends : final ≤ position) :
    (unescapeLoop final (fuel + 1) position output).run buffer =
      .ok ((some output, position), buffer) := by
  rw [unescapeLoop, if_neg (Nat.not_lt.mpr ends)]
  rfl

/-- The second pass fills the block with the bytes of the string. -/
theorem unescapeLoop_run {bytes : List UInt8} (fuel position : Nat) (output : StringBlock)
    (unescapes : Unescapes buffer.content final position bytes)
    (capacity : output.capacity = room + 1) (enough : final + 1 < position + fuel)
    (fits : Fits buffer.content final room position output.written.length) :
    (output.written ++ bytes).length ≤ room ∧ ∃ stop,
      (unescapeLoop final fuel position output).run buffer =
        .ok ((some { output with written := output.written ++ bytes }, stop), buffer) := by
  cases unescapes with
  | @within text rest parts stands ends =>
    obtain ⟨⟨rounds, few, ran⟩, fitsLast⟩ := unescapeLoop_run_parts parts position output capacity
      stands (by omega) fits
    obtain ⟨fuel, rfl⟩ := Nat.exists_eq_add_of_le' (show rounds + 1 ≤ fuel by omega)
    refine ⟨fitsLast.le, position + text.length, ?_⟩
    rw [← Nat.add_assoc, Nat.add_right_comm, ran, unescapeLoop_run_end fuel _ _ (by omega)]
  | @beyond text rest front quote byte parts escape isBytes stands ends =>
    obtain ⟨⟨rounds, few, ran⟩, fitsFront⟩ := unescapeLoop_run_parts parts position output capacity
      stands (by omega) fits
    have last := drop_of_drop text stands
    obtain ⟨fuel, rfl⟩ := Nat.exists_eq_add_of_le' (show rounds + 2 ≤ fuel by omega)
    obtain ⟨step, fitsLast⟩ := unescapeLoop_run_part (fuel + 1) (position + text.length)
      { output with written := output.written ++ front } (by omega) capacity
      (unescape_run_simple escape _ final last) (Part.simple escape) last
      (fun long => absurd long (Nat.lt_irrefl 2)) fitsFront
    rw [isBytes, ← List.append_assoc]
    refine ⟨fitsLast.le, position + text.length + 2, ?_⟩
    have order : fuel + (rounds + 2) = fuel + 1 + 1 + rounds := by omega
    rw [order, ran, step]
    exact unescapeLoop_run_end fuel _ _ (show final ≤ position + text.length + 2 by omega)

end SecondPass

/-! ### The first pass -/

theorem lt_length_of_drop (regular : buffer.Regular) {position : Nat} {byte : UInt8}
    {rest : List UInt8} (stands : buffer.content.drop position = byte :: rest) :
    position < buffer.length := by
  rw [regular.isLength]
  exact (List.getElem?_eq_some_iff.mp (getElem?_of_drop stands)).1

/-- The first pass steps over a text without a closing quote, and counts its escapes. -/
theorem closingLoop_run (regular : buffer.Regular) {body rest : List UInt8}
    (unclosed : Unclosed body) (position skipped : Nat)
    (stands : buffer.content.drop position = body ++ '"'.toUInt8 :: rest) :
    ∃ rounds escapes, rounds ≤ body.length ∧
      Scan buffer.content (position + body.length) position escapes ∧
      ∀ fuel, (closingLoop (fuel + rounds) position skipped).run buffer =
        (closingLoop fuel (position + body.length) (skipped + escapes)).run buffer := by
  induction unclosed generalizing position skipped with
  | nil => exact ⟨0, 0, Nat.le_refl 0, Scan.done, fun fuel => rfl⟩
  | @plain byte others noQuote noEscape _ inductionHypothesis =>
    have holds := getElem?_of_drop stands
    have inside := lt_length_of_drop regular stands
    obtain ⟨rounds, escapes, few, scan, ran⟩ := inductionHypothesis (position + 1) skipped
      (drop_of_drop [byte] stands)
    have ends : position + 1 + others.length = position + (byte :: others).length := by
      rw [List.length_cons]
      omega
    rw [ends] at scan ran
    refine ⟨rounds + 1, escapes, Nat.succ_le_succ few, Scan.plain holds noQuote noEscape scan,
      fun fuel => ?_⟩
    rw [← ran, ← Nat.add_assoc, closingLoop, run_get_bind, if_pos inside]
    refine (run_bind_ok _ _ _ _ _ (readAt_run holds)).trans ?_
    rw [if_neg noQuote, if_neg noEscape]
  | @escape hidden others _ inductionHypothesis =>
    have holds := getElem?_of_drop stands
    have inside := lt_length_of_drop regular stands
    have behind : position + 1 < buffer.length :=
      lt_length_of_drop regular (drop_of_drop ['\\'.toUInt8] stands)
    obtain ⟨rounds, escapes, few, scan, ran⟩ := inductionHypothesis (position + 2) (skipped + 1)
      (drop_of_drop ['\\'.toUInt8, hidden] stands)
    have ends : position + 2 + others.length =
        position + ('\\'.toUInt8 :: hidden :: others).length := by
      rw [List.length_cons, List.length_cons]
      omega
    rw [ends] at scan ran
    refine ⟨rounds + 1, escapes + 1, Nat.succ_le_succ (few.trans (Nat.le_succ _)),
      Scan.escape holds scan, fun fuel => ?_⟩
    rw [Nat.add_comm escapes 1, ← Nat.add_assoc skipped, ← ran, ← Nat.add_assoc, closingLoop,
      run_get_bind, if_pos inside]
    refine (run_bind_ok _ _ _ _ _ (readAt_run holds)).trans ?_
    rw [if_neg (by decide), if_pos rfl, if_neg (Nat.not_le.mpr behind)]

theorem closingLoop_run_quote (regular : buffer.Regular) (fuel position skipped : Nat)
    {rest : List UInt8} (stands : buffer.content.drop position = '"'.toUInt8 :: rest) :
    (closingLoop (fuel + 1) position skipped).run buffer =
      .ok (some (position, skipped), buffer) := by
  rw [closingLoop, run_get_bind, if_pos (lt_length_of_drop regular stands)]
  refine (run_bind_ok _ _ _ _ _ (readAt_run (getElem?_of_drop stands))).trans ?_
  rw [if_pos rfl]
  rfl

/-! ### A whole string -/

/-- What stands between the quotes, as either pass reads it. -/
theorem Quoted.body {text bytes : List UInt8} (quoted : Quoted text bytes) :
    ∃ body, text = '"'.toUInt8 :: (body ++ ['"'.toUInt8]) ∧ Unclosed body ∧
      ∀ content position rest, content.drop position = body ++ '"'.toUInt8 :: rest →
        Unescapes content (position + body.length) position bytes := by
  cases quoted with
  | @intro body bytes unclosed parts =>
    exact ⟨body, rfl, unclosed, fun content position rest stands =>
      Unescapes.within parts stands rfl⟩
  | @beyond front bytes unclosed parts =>
    refine ⟨_, rfl, unclosed, fun content position rest stands => ?_⟩
    have split : content.drop position = front ++ '\\'.toUInt8 :: '"'.toUInt8 :: rest := by
      rw [stands]
      simp
    refine Unescapes.beyond parts (by decide) rfl split ?_
    rw [List.length_append, List.length_singleton, Nat.add_assoc]

/-- A string is taken with its quotes, and its item holds the bytes up to the first terminator. -/
theorem parseString_run (regular : buffer.Regular) (item : Item) {text bytes rest : List UInt8}
    (quoted : Quoted text bytes) (stands : buffer.ahead = text ++ rest) :
    (parseString item).run buffer =
      .ok (some { item with type := .string, valuestring := some (CString.ofBuffer bytes) },
        buffer.skip text.length) := by
  obtain ⟨body, rfl, unclosed, unescapes⟩ := quoted.body
  have whole : buffer.content.drop buffer.offset =
      ['"'.toUInt8] ++ (body ++ '"'.toUInt8 :: rest) := by
    simpa [ParseBuffer.ahead] using stands
  have inner := drop_of_drop ['"'.toUInt8] whole
  have closing := drop_of_drop body inner
  have inside := lt_length_of_drop regular closing
  rw [List.length_singleton] at inner closing inside
  obtain ⟨rounds, escapes, few, scan, ran⟩ := closingLoop_run regular unclosed _ 0 inner
  have finds : (closingLoop (buffer.length + 1) (buffer.offset + 1) 0).run buffer =
      .ok (some (buffer.offset + 1 + body.length, escapes), buffer) := by
    have enough : buffer.length + 1 = (buffer.length - rounds) + 1 + rounds := by omega
    rw [enough, ran, closingLoop_run_quote regular _ _ _ closing, Nat.zero_add]
  have bound := scan.le
  have fits : Fits buffer.content (buffer.offset + 1 + body.length)
      (buffer.offset + 1 + body.length - buffer.offset - escapes) (buffer.offset + 1)
      ([] : List UInt8).length :=
    Or.inl ⟨by omega, escapes, Or.inl scan, by rw [List.length_nil]; omega⟩
  obtain ⟨room, stop, fills⟩ := unescapeLoop_run (buffer.length + 1) (buffer.offset + 1)
    { capacity := buffer.offset + 1 + body.length - buffer.offset - escapes + 1 }
    (unescapes _ _ _ inner) rfl (by omega) fits
  rw [List.nil_append] at room fills
  rw [parseString, run_get_bind]
  refine (run_bind_ok _ _ _ _ '"'.toUInt8 (byteAt_run (by rw [stands]; rfl))).trans ?_
  rw [if_neg (not_not_intro rfl)]
  refine (run_bind_ok _ _ _ _ _ finds).trans ?_
  refine (run_bind_ok _ _ _ _ _ (allocate_run regular _)).trans ?_
  rw [if_neg (not_not_intro rfl)]
  refine (run_bind_ok _ _ _ _ _ fills).trans ?_
  simp only [StringBlock.write, List.length_singleton, if_pos (Nat.succ_le_succ room)]
  refine (run_bind_ok _ _ _ _ _ (run_lift_ok _ _)).trans ?_
  have length : buffer.offset + 1 + body.length + 1 =
      buffer.offset + ('"'.toUInt8 :: (body ++ ['"'.toUInt8])).length := by
    simp only [List.length_cons, List.length_append, List.length_nil]
    omega
  rw [ofBuffer_append_terminator, length]
  rfl

end DiffServSimulation
