/-
This file proves that `parse_string` is safe: no read leaves the text, no write
leaves the block the unescaped string is built in, and both passes end. It also
says which text the parser takes, and what for.

The block of a string is large enough because each part of the string gives at
most one byte for each byte it takes that does not begin an escape. `Scan` counts
those bytes along the first pass, and the second pass is charged against that
count even where the two passes disagree about what is escaped.
-/

import DiffServSimulation.CjsonParseSafety

namespace DiffServSimulation

open Faulting

/-! ### The first pass -/

/-- Reading a text from one position to another as the first pass over a string does, with the
number of bytes that begin an escape. -/
inductive Scan (content : List UInt8) (final : Nat) : Nat → Nat → Prop where
  | done : Scan content final final 0
  | plain {position escapes : Nat} {byte : UInt8} (holds : content[position]? = some byte)
      (noQuote : byte ≠ '"'.toUInt8) (isPlain : byte ≠ '\\'.toUInt8)
      (rest : Scan content final (position + 1) escapes) :
      Scan content final position escapes
  | escape {position escapes : Nat} (holds : content[position]? = some '\\'.toUInt8)
      (rest : Scan content final (position + 2) escapes) :
      Scan content final position (escapes + 1)

theorem Scan.le {content : List UInt8} {final position escapes : Nat}
    (scan : Scan content final position escapes) : position + escapes ≤ final := by
  induction scan with
  | done => exact Nat.le_refl _
  | plain _ _ _ _ inductionHypothesis => omega
  | escape _ _ inductionHypothesis => omega

theorem drop_eq_cons {content : List UInt8} {position : Nat} {byte : UInt8}
    (holds : content[position]? = some byte) :
    content.drop position = byte :: content.drop (position + 1) := by
  obtain ⟨inside, isByte⟩ := List.getElem?_eq_some_iff.mp holds
  rw [List.drop_eq_getElem_cons inside, isByte]

/-- What the first pass went over holds no closing quote. -/
theorem Scan.unclosed {content : List UInt8} {final position escapes : Nat}
    (scan : Scan content final position escapes) (inside : final < content.length) :
    ∃ body, Unclosed body ∧ position + body.length = final ∧
      content.drop position = body ++ content.drop final := by
  induction scan with
  | done => exact ⟨[], Unclosed.nil, rfl, rfl⟩
  | plain holds noQuote isPlain _ inductionHypothesis =>
    obtain ⟨body, unclosed, length, stands⟩ := inductionHypothesis
    refine ⟨_ :: body, Unclosed.plain noQuote isPlain unclosed, ?_, ?_⟩
    · rw [List.length_cons]
      omega
    · rw [drop_eq_cons holds, stands, List.cons_append]
  | @escape position escapes holds rest inductionHypothesis =>
    obtain ⟨body, unclosed, length, stands⟩ := inductionHypothesis
    have within := rest.le
    have hidden : content[position + 1]? = some content[position + 1] :=
      List.getElem?_eq_getElem (by omega)
    refine ⟨_ :: _ :: body, Unclosed.escape content[position + 1] unclosed, ?_, ?_⟩
    · rw [List.length_cons, List.length_cons]
      omega
    · rw [drop_eq_cons holds, drop_eq_cons hidden, stands, List.cons_append, List.cons_append]

/-- The first pass finds the closing quote and counts the escapes. -/
theorem closingLoop_completes {buffer : ParseBuffer} (ready : Ready buffer)
    (fuel inputEnd skipped : Nat) (inside : inputEnd ≤ buffer.length)
    (enough : buffer.length < inputEnd + fuel) :
    Completes (closingLoop fuel inputEnd skipped) buffer fun result next =>
      next = buffer ∧ ∀ final total, result = some (final, total) →
        buffer.content[final]? = some '"'.toUInt8 ∧ final < buffer.length ∧
          ∃ escapes, total = skipped + escapes ∧ Scan buffer.content final inputEnd escapes := by
  induction fuel generalizing inputEnd skipped with
  | zero => omega
  | succ fuel inductionHypothesis =>
    rw [closingLoop]
    refine completes_get_bind ?_
    by_cases ends : inputEnd < buffer.length
    · rw [if_pos ends]
      obtain ⟨byte, holds⟩ := ready.byte _ ends
      refine completes_run_bind (readAt_run holds) ?_
      by_cases quote : byte = '"'.toUInt8
      · rw [if_pos quote]
        refine completes_pure ⟨rfl, fun final total found => ?_⟩
        cases found
        exact ⟨quote ▸ holds, ends, 0, rfl, Scan.done⟩
      · rw [if_neg quote]
        by_cases escape : byte = '\\'.toUInt8
        · rw [if_pos escape]
          by_cases cut : buffer.length ≤ inputEnd + 1
          · rw [if_pos cut]
            exact completes_pure ⟨rfl, fun _ _ absent => nomatch absent⟩
          · rw [if_neg cut]
            refine (inductionHypothesis (inputEnd + 2) (skipped + 1) (by omega) (by omega)).mono ?_
            rintro result next ⟨same, finds⟩
            refine ⟨same, fun final total found => ?_⟩
            obtain ⟨closes, before, escapes, counted, scan⟩ := finds final total found
            exact ⟨closes, before, escapes + 1, by omega, Scan.escape (escape ▸ holds) scan⟩
        · rw [if_neg escape]
          refine (inductionHypothesis (inputEnd + 1) skipped (by omega) (by omega)).mono ?_
          rintro result next ⟨same, finds⟩
          refine ⟨same, fun final total found => ?_⟩
          obtain ⟨closes, before, escapes, counted, scan⟩ := finds final total found
          exact ⟨closes, before, escapes, counted, Scan.plain holds quote escape scan⟩
    · rw [if_neg ends]
      exact completes_pure ⟨rfl, fun _ _ absent => nomatch absent⟩

/-- Where the second pass may stand: where the first pass stood, or one byte further. -/
def Stands (content : List UInt8) (final position escapes : Nat) : Prop :=
  Scan content final position escapes ∨ Scan content final (position + 1) escapes

theorem Stands.le {content : List UInt8} {final position escapes : Nat}
    (stands : Stands content final position escapes) : position + escapes ≤ final := by
  rcases stands with scan | scan
  · exact scan.le
  · have bound := scan.le
    omega

/-- Taking a byte that is no backslash passes no escape. -/
theorem Stands.plain {content : List UInt8} {final position escapes : Nat} {byte : UInt8}
    (stands : Stands content final position escapes) (before : position < final)
    (holds : content[position]? = some byte) (isPlain : byte ≠ '\\'.toUInt8) :
    Stands content final (position + 1) escapes := by
  rcases stands with scan | scan
  · cases scan with
    | done => omega
    | plain _ _ _ rest => exact Or.inl rest
    | escape backslash _ => exact absurd (Option.some.inj (holds.symm.trans backslash)) isPlain
  · exact Or.inl scan

theorem Scan.one {content : List UInt8} {final position escapes : Nat}
    (scan : Scan content final position escapes) (before : position < final) :
    ∃ left, Stands content final (position + 1) left ∧ escapes ≤ left + 1 := by
  cases scan with
  | done => omega
  | plain _ _ _ rest => exact ⟨escapes, Or.inl rest, by omega⟩
  | escape _ rest => exact ⟨_, Or.inr rest, Nat.le_refl _⟩

/-- Two bytes begin one escape at most. -/
theorem Stands.two {content : List UInt8} {final position escapes : Nat}
    (stands : Stands content final position escapes) (before : position + 2 ≤ final) :
    ∃ left, Stands content final (position + 2) left ∧ escapes ≤ left + 1 := by
  rcases stands with scan | scan
  · cases scan with
    | done => omega
    | plain _ _ _ rest => exact rest.one (by omega)
    | escape _ rest => exact ⟨_, Or.inl rest, Nat.le_refl _⟩
  · exact scan.one (by omega)

theorem Stands.even {content : List UInt8} {final position escapes : Nat} (pairs : Nat)
    (stands : Stands content final position escapes) (before : position + 2 * pairs ≤ final) :
    ∃ left, Stands content final (position + 2 * pairs) left ∧ escapes ≤ left + pairs := by
  induction pairs with
  | zero => exact ⟨escapes, stands, Nat.le_refl _⟩
  | succ pairs inductionHypothesis =>
    obtain ⟨middle, there, bound⟩ := inductionHypothesis (by omega)
    obtain ⟨left, final, step⟩ := there.two (by omega)
    exact ⟨left, final, by omega⟩

/-- A backslash right before the closing quote is the second byte of an escape. -/
theorem Stands.backslash_last {content : List UInt8} {position escapes : Nat}
    (stands : Stands content (position + 1) position escapes)
    (holds : content[position]? = some '\\'.toUInt8) : escapes = 0 := by
  rcases stands with scan | scan
  · cases scan with
    | plain other _ isPlain _ => exact absurd (Option.some.inj (other.symm.trans holds)) isPlain
    | escape _ rest =>
      have bound := rest.le
      omega
  · have bound := scan.le
    omega

/-! ### What a part of a string gives -/

theorem hexDigit?_lt {byte : UInt8} {digit : Nat} (reads : hexDigit? byte = some digit) :
    digit < 16 := by
  have upTo9 : '9'.toUInt8.toNat = 57 := rfl
  have fromA : 'A'.toUInt8.toNat = 65 := rfl
  have upToF : 'F'.toUInt8.toNat = 70 := rfl
  have fromLowerA : 'a'.toUInt8.toNat = 97 := rfl
  have upToLowerF : 'f'.toUInt8.toNat = 102 := rfl
  have from0 : '0'.toUInt8.toNat = 48 := rfl
  unfold hexDigit? at reads
  simp only [UInt8.le_iff_toNat_le] at reads
  split_ifs at reads <;> cases reads <;> omega

theorem hexValue_lt (value : Nat) (digits : List UInt8) :
    hexValue value digits < (value + 1) * 16 ^ digits.length := by
  induction digits generalizing value with
  | nil => simp [hexValue]
  | cons byte digits inductionHypothesis =>
    rw [hexValue]
    cases reads : hexDigit? byte with
    | none => exact Nat.mul_pos (Nat.succ_pos value) (Nat.pow_pos (by decide))
    | some digit =>
      have small := hexDigit?_lt reads
      calc hexValue (16 * value + digit) digits
          < (16 * value + digit + 1) * 16 ^ digits.length := inductionHypothesis _
        _ ≤ (value + 1) * 16 * 16 ^ digits.length := Nat.mul_le_mul_right _ (by omega)
        _ = (value + 1) * 16 ^ (byte :: digits).length := by
          rw [List.length_cons, Nat.pow_succ', Nat.mul_assoc]

theorem continuationBytes_length (position codepoint : Nat) (written : List UInt8) :
    (continuationBytes position codepoint written).2.length = position + written.length := by
  induction position generalizing codepoint written with
  | zero => simp [continuationBytes]
  | succ position inductionHypothesis =>
    rw [continuationBytes, inductionHypothesis, List.length_cons]
    omega

theorem encode_length (codepoint continuation firstByteMark : Nat) :
    (encodeUtf8.encode codepoint continuation firstByteMark).length = continuation + 1 := by
  rw [encodeUtf8.encode, List.length_cons, continuationBytes_length, List.length_nil,
    Nat.add_zero]

/-- An encoding has at most four bytes, and at most three below the surrogate range's end. -/
theorem encodeUtf8_length {codepoint : Nat} {bytes : List UInt8}
    (encodes : encodeUtf8 codepoint = some bytes) :
    bytes.length ≤ 4 ∧ (codepoint < 0x10000 → bytes.length ≤ 3) := by
  unfold encodeUtf8 at encodes
  split_ifs at encodes <;> cases encodes
  · exact ⟨by simp, fun _ => by simp⟩
  · rw [encode_length]
    omega
  · rw [encode_length]
    omega
  · rw [encode_length]
    omega

/-- The bytes written so far fit, with one byte left for each byte that is still to be taken and
begins no escape. -/
def Fits (content : List UInt8) (final room position written : Nat) : Prop :=
  (position ≤ final ∧ ∃ escapes, Stands content final position escapes ∧
      written + final ≤ room + escapes + position) ∨
    (position = final + 1 ∧ written ≤ room)

theorem Fits.le {content : List UInt8} {final room position written : Nat}
    (fits : Fits content final room position written) : written ≤ room := by
  rcases fits with ⟨-, escapes, stands, bound⟩ | ⟨-, bound⟩
  · have le := stands.le
    omega
  · exact bound

/-- A part keeps the account: what it gives is covered by what it takes. -/
theorem Fits.part {content : List UInt8} {final room position written : Nat}
    {text bytes rest : List UInt8} (fits : Fits content final room position written)
    (before : position < final) (part : Part text bytes)
    (stands : content.drop position = text ++ rest)
    (inside : 2 < text.length → position + text.length ≤ final) :
    Fits content final room (position + text.length) (written + bytes.length) := by
  rcases fits with ⟨-, escapes, there, bound⟩ | ⟨after, -⟩
  · cases part with
    | plain byte noEscape =>
      have holds := getElem?_of_drop stands
      exact Or.inl ⟨before, escapes, there.plain before holds noEscape, by simp; omega⟩
    | @simple letter byte escape =>
      have holds := getElem?_of_drop stands
      by_cases last : position + 1 = final
      · subst last
        have none := there.backslash_last holds
        exact Or.inr ⟨rfl, by simp; omega⟩
      · obtain ⟨left, next, step⟩ := there.two (by omega)
        exact Or.inl ⟨by simp; omega, left, next, by simp; omega⟩
    | @unit digits bytes four single encodes =>
      have length : ('\\'.toUInt8 :: 'u'.toUInt8 :: digits).length = 2 * 3 := by simp [four]
      have small := hexValue_lt 0 digits
      rw [four] at small
      have short := (encodeUtf8_length encodes).2 small
      rw [length] at inside ⊢
      obtain ⟨left, next, step⟩ := there.even 3 (inside (by decide))
      exact Or.inl ⟨inside (by decide), left, next, by omega⟩
    | @pair high low bytes highFour lowFour isHigh isLow encodes =>
      have length : ('\\'.toUInt8 :: 'u'.toUInt8 ::
          (high ++ '\\'.toUInt8 :: 'u'.toUInt8 :: low)).length = 2 * 6 := by
        simp [highFour, lowFour]
      have short := (encodeUtf8_length encodes).1
      rw [length] at inside ⊢
      obtain ⟨left, next, step⟩ := there.even 6 (inside (by decide))
      exact Or.inl ⟨inside (by decide), left, next, by omega⟩
  · omega

/-! ### The second pass -/

/-- What the second pass makes of a part at a position: the bytes it gives, and how much it
takes. -/
def TakesPart (content : List UInt8) (position final : Nat) (bytes : List UInt8) (length : Nat) :
    Prop :=
  ∃ text rest, Part text bytes ∧ text.length = length ∧ content.drop position = text ++ rest ∧
    (2 < length → position + length ≤ final)

theorem take_four {content : List UInt8} {position : Nat} (inside : position + 4 ≤ content.length) :
    ∃ digits, digits.length = 4 ∧
      content.drop position = digits ++ content.drop (position + 4) := by
  refine ⟨(content.drop position).take 4, ?_, ?_⟩
  · rw [List.length_take, List.length_drop]
    omega
  · rw [← List.drop_drop, List.take_append_drop]

theorem utf16LiteralToUtf8_completes {buffer : ParseBuffer} (ready : Ready buffer)
    (position final : Nat) (inside : final < buffer.length)
    (backslash : buffer.content[position]? = some '\\'.toUInt8)
    (letter : buffer.content[position + 1]? = some 'u'.toUInt8) :
    Completes (utf16LiteralToUtf8 position final) buffer fun result next =>
      next = buffer ∧ ∀ bytes length, result = some (bytes, length) →
        TakesPart buffer.content position final bytes length := by
  have refuse : Completes (pure none : Parser (Option (List UInt8 × Nat))) buffer
      fun result next => next = buffer ∧ ∀ bytes length, result = some (bytes, length) →
        TakesPart buffer.content position final bytes length :=
    completes_pure ⟨rfl, fun _ _ absent => nomatch absent⟩
  have isLength : buffer.length = buffer.content.length := ready.regular.isLength
  rw [utf16LiteralToUtf8]
  by_cases short : final - position < 6
  · rw [if_pos short]
    exact refuse
  rw [if_neg short]
  obtain ⟨high, highFour, highStands⟩ : ∃ digits, digits.length = 4 ∧
      buffer.content.drop (position + 2) = digits ++ buffer.content.drop (position + 2 + 4) :=
    take_four (by omega)
  have begins : buffer.content.drop position =
      '\\'.toUInt8 :: 'u'.toUInt8 :: (high ++ buffer.content.drop (position + 2 + 4)) := by
    rw [drop_eq_cons backslash, drop_eq_cons letter, highStands]
  refine completes_run_bind (parseHex4_run highFour (position + 2) highStands) ?_
  by_cases isLow : 0xDC00 ≤ hexValue 0 high ∧ hexValue 0 high ≤ 0xDFFF
  · rw [if_pos isLow]
    exact refuse
  rw [if_neg isLow]
  by_cases isHigh : 0xD800 ≤ hexValue 0 high ∧ hexValue 0 high ≤ 0xDBFF
  · rw [if_pos isHigh]
    by_cases shortSecond : final - (position + 6) < 6
    · rw [if_pos shortSecond]
      exact refuse
    rw [if_neg shortSecond]
    obtain ⟨escape, escapeHolds⟩ := ready.byte (position + 6) (by omega)
    obtain ⟨second, secondHolds⟩ := ready.byte (position + 6 + 1) (by omega)
    refine completes_run_bind (readAt_run escapeHolds) ?_
    by_cases noEscape : escape ≠ '\\'.toUInt8
    · rw [if_pos noEscape]
      exact refuse
    rw [if_neg noEscape]
    refine completes_run_bind (readAt_run secondHolds) ?_
    by_cases noLetter : second ≠ 'u'.toUInt8
    · rw [if_pos noLetter]
      exact refuse
    rw [if_neg noLetter]
    obtain ⟨low, lowFour, lowStands⟩ : ∃ digits, digits.length = 4 ∧
        buffer.content.drop (position + 6 + 2) =
          digits ++ buffer.content.drop (position + 6 + 2 + 4) := take_four (by omega)
    refine completes_run_bind (parseHex4_run lowFour (position + 6 + 2) lowStands) ?_
    by_cases invalid : hexValue 0 low < 0xDC00 ∨ 0xDFFF < hexValue 0 low
    · rw [if_pos invalid]
      exact refuse
    rw [if_neg invalid]
    refine completes_pure ⟨rfl, fun bytes length found => ?_⟩
    simp only [Option.map_eq_some_iff, Prod.mk.injEq] at found
    obtain ⟨encoded, encodes, rfl, rfl⟩ := found
    refine ⟨_, buffer.content.drop (position + 6 + 2 + 4),
      Part.pair highFour lowFour isHigh (by omega) encodes, by simp [highFour, lowFour], ?_,
      fun _ => by omega⟩
    rw [begins, drop_eq_cons escapeHolds, drop_eq_cons secondHolds, lowStands, not_not.mp noEscape,
      not_not.mp noLetter]
    simp
  · rw [if_neg isHigh]
    refine completes_pure ⟨rfl, fun bytes length found => ?_⟩
    simp only [Option.map_eq_some_iff, Prod.mk.injEq] at found
    obtain ⟨encoded, encodes, rfl, rfl⟩ := found
    have single : Single (hexValue 0 high) := by
      rw [Single]
      omega
    exact ⟨_, _, Part.unit highFour single encodes, by simp [highFour], begins, fun _ => by omega⟩

theorem unescape_completes {buffer : ParseBuffer} (ready : Ready buffer) (position final : Nat)
    (before : position < final) (inside : final < buffer.length) :
    Completes (unescape position final) buffer fun result next =>
      next = buffer ∧ ∀ bytes length, result = some (bytes, length) →
        TakesPart buffer.content position final bytes length := by
  obtain ⟨byte, holds⟩ := ready.byte position (by omega)
  obtain ⟨letter, letterHolds⟩ := ready.byte (position + 1) (by omega)
  rw [unescape]
  refine completes_run_bind (readAt_run holds) ?_
  by_cases isPlain : byte ≠ '\\'.toUInt8
  · rw [if_pos isPlain]
    refine completes_pure ⟨rfl, fun bytes length found => ?_⟩
    cases found
    exact ⟨[byte], _, Part.plain byte isPlain, rfl, drop_eq_cons holds,
      fun long => absurd long (by decide)⟩
  · rw [if_neg isPlain]
    rw [not_not] at isPlain
    subst isPlain
    refine completes_run_bind (readAt_run letterHolds) ?_
    cases simple : simpleEscape? letter with
    | some plain =>
      refine completes_pure ⟨rfl, fun bytes length found => ?_⟩
      cases found
      refine ⟨_, buffer.content.drop (position + 1 + 1), Part.simple simple, rfl, ?_,
        fun long => absurd long (by decide)⟩
      rw [drop_eq_cons holds, drop_eq_cons letterHolds]
      rfl
    | none =>
      by_cases unicode : letter = 'u'.toUInt8
      · simp only [if_pos unicode]
        exact utf16LiteralToUtf8_completes ready position final inside holds
          (unicode ▸ letterHolds)
      · simp only [if_neg unicode]
        exact completes_pure ⟨rfl, fun _ _ absent => nomatch absent⟩

/-- What the second pass makes of the text from a position on: it stops at the closing quote, or
behind it after a backslash right before it. -/
inductive Unescapes (content : List UInt8) (final position : Nat) (bytes : List UInt8) : Prop where
  | within {text rest : List UInt8} (parts : Parts text bytes)
      (stands : content.drop position = text ++ rest) (ends : position + text.length = final) :
      Unescapes content final position bytes
  | beyond {text rest front : List UInt8} {quote byte : UInt8} (parts : Parts text front)
      (escape : simpleEscape? quote = some byte) (isBytes : bytes = front ++ [byte])
      (stands : content.drop position = text ++ '\\'.toUInt8 :: quote :: rest)
      (ends : position + text.length + 1 = final) :
      Unescapes content final position bytes

/-- A part that is followed by more. -/
theorem Unescapes.cons {content : List UInt8} {final position : Nat} {text bytes more : List UInt8}
    {rest : List UInt8} (part : Part text bytes) (stands : content.drop position = text ++ rest)
    (further : Unescapes content final (position + text.length) more) :
    Unescapes content final position (bytes ++ more) := by
  have behind := drop_of_drop text stands
  cases further with
  | @within others rest parts standsFurther ends =>
    have whole : content.drop position = text ++ others ++ rest := by
      rw [stands, List.append_assoc, ← standsFurther, behind]
    exact Unescapes.within (Parts.cons part parts) whole (by rw [List.length_append]; omega)
  | @beyond others rest front quote byte parts escape isBytes standsFurther ends =>
    have whole : content.drop position = text ++ others ++ '\\'.toUInt8 :: quote :: rest := by
      rw [stands, List.append_assoc, ← standsFurther, behind]
    refine Unescapes.beyond (Parts.cons part parts) escape ?_ whole ?_
    · rw [isBytes, List.append_assoc]
    · rw [List.length_append]
      omega

/-- A part that goes beyond the closing quote escapes it. -/
theorem Unescapes.last {content : List UInt8} {final position : Nat} {text bytes rest : List UInt8}
    (part : Part text bytes) (stands : content.drop position = text ++ rest)
    (before : position < final) (beyond : final < position + text.length)
    (within : 2 < text.length → position + text.length ≤ final) :
    Unescapes content final position bytes := by
  have short : text.length ≤ 2 := by
    by_contra long
    have bound := within (by omega)
    omega
  cases part with
  | plain byte noEscape =>
    rw [List.length_singleton] at beyond
    omega
  | @simple letter byte escape =>
    refine Unescapes.beyond Parts.nil escape rfl stands ?_
    simp only [List.length_cons, List.length_nil] at beyond ⊢
    omega
  | unit four single encodes => simp [four] at short
  | pair highFour lowFour isHigh isLow encodes => simp [highFour, lowFour] at short

/-- The second pass ends, takes the text up to the closing quote or with it, and never writes more
than the block has room for. -/
theorem unescapeLoop_completes {buffer : ParseBuffer} (ready : Ready buffer)
    (final fuel position room : Nat) (output : StringBlock) (inside : final < buffer.length)
    (capacity : output.capacity = room + 1) (enough : final < position + fuel)
    (before : position ≤ final)
    (fits : Fits buffer.content final room position output.written.length) :
    Completes (unescapeLoop final fuel position output) buffer fun result next =>
      next = buffer ∧ ∀ filled, result.1 = some filled →
        (filled.written.length ≤ room ∧ filled.capacity = room + 1) ∧
          ∃ bytes, filled.written = output.written ++ bytes ∧
            Unescapes buffer.content final position bytes := by
  induction fuel generalizing position output with
  | zero => omega
  | succ fuel inductionHypothesis =>
    rw [unescapeLoop]
    by_cases ends : position < final
    · rw [if_pos ends]
      refine completes_bind_same (unescape_completes ready position final ends inside)
        fun result takes => ?_
      cases result with
      | none => exact completes_pure ⟨rfl, fun _ absent => nomatch absent⟩
      | some read =>
        obtain ⟨bytes, length⟩ := read
        obtain ⟨text, rest, part, rfl, stands, within⟩ := takes bytes length rfl
        have taken := fits.part ends part stands within
        have progress := part.length_pos
        have room' : output.written.length + bytes.length ≤ output.capacity := by
          rw [capacity]
          exact Nat.le_succ_of_le taken.le
        have writes : output.write bytes =
            .ok { output with written := output.written ++ bytes } := by
          rw [StringBlock.write, if_pos room']
        refine completes_lift_bind writes ?_
        by_cases beyond : final < position + text.length
        · cases fuel with
          | zero => omega
          | succ fuel =>
            rw [unescapeLoop, if_neg (by omega)]
            refine completes_pure ⟨rfl, fun filled found => ?_⟩
            cases found
            refine ⟨⟨?_, capacity⟩, bytes, rfl, Unescapes.last part stands ends beyond within⟩
            show (output.written ++ bytes).length ≤ room
            rw [List.length_append]
            exact taken.le
        · refine (inductionHypothesis (position + text.length)
            { output with written := output.written ++ bytes } capacity (by omega) (by omega)
            ?_).mono ?_
          · show Fits _ _ _ _ (output.written ++ bytes).length
            rw [List.length_append]
            exact taken
          · rintro result next ⟨same, fills⟩
            refine ⟨same, fun filled found => ?_⟩
            obtain ⟨holdsRoom, more, written, further⟩ := fills filled found
            exact ⟨holdsRoom, bytes ++ more, by rw [written, List.append_assoc],
              further.cons part stands⟩
    · rw [if_neg ends]
      refine completes_pure ⟨rfl, fun filled found => ?_⟩
      cases found
      exact ⟨⟨fits.le, capacity⟩, [], (List.append_nil _).symm,
        Unescapes.within Parts.nil rfl (by rw [List.length_nil]; omega)⟩

theorem failAt_completes {buffer : ParseBuffer} (offset : Nat)
    {post : Item → ParseBuffer → Prop} :
    Completes (failAt offset) buffer fun result next =>
      ∀ parsed, result = some parsed → post parsed next :=
  completes_modify_bind completes_refuse

/-- A string is parsed without leaving the text or the block it is built in. -/
theorem parseString_completes {buffer : ParseBuffer} (ready : Ready buffer) (item : Item) :
    Completes (parseString item) buffer fun result next =>
      ∀ parsed, result = some parsed → ∃ text bytes, Passed buffer text next ∧
        Quoted text bytes ∧
        parsed = { item with type := .string, valuestring := some (CString.ofBuffer bytes) } := by
  have start := ready.inside
  have isLength : buffer.length = buffer.content.length := ready.regular.isLength
  obtain ⟨opening, holds⟩ := ready.byte buffer.offset ready.inside
  rw [parseString]
  refine completes_get_bind ?_
  refine completes_run_bind (byteAt_run ((buffer.getElem?_ahead 0).symm.trans holds)) ?_
  by_cases noQuote : opening ≠ '"'.toUInt8
  · rw [if_pos noQuote]
    exact failAt_completes _
  rw [if_neg noQuote]
  rw [not_not] at noQuote
  subst noQuote
  refine completes_bind_same (closingLoop_completes ready (buffer.length + 1) (buffer.offset + 1) 0
    (by omega) (by omega)) fun closing finds => ?_
  cases closing with
  | none => exact failAt_completes _
  | some found =>
    obtain ⟨final, skipped⟩ := found
    obtain ⟨closes, inside, escapes, counted, scan⟩ := finds final skipped rfl
    have bound := scan.le
    obtain ⟨body, unclosed, ends, stands⟩ := scan.unclosed (by omega)
    have fits : Fits buffer.content final (final - buffer.offset - skipped) (buffer.offset + 1)
        ([] : List UInt8).length :=
      Or.inl ⟨by omega, escapes, Or.inl scan, by rw [List.length_nil]; omega⟩
    refine completes_run_bind (allocate_run ready.regular _) ?_
    rw [if_neg (not_not_intro rfl)]
    refine completes_bind_same (unescapeLoop_completes ready final (buffer.length + 1)
      (buffer.offset + 1) _ { capacity := final - buffer.offset - skipped + 1 } inside rfl
      (by omega) (by omega) fits) fun result fills => ?_
    obtain ⟨filled, stopped⟩ := result
    cases filled with
    | none => exact failAt_completes _
    | some output =>
      obtain ⟨⟨le, capacity⟩, bytes, written, unescapes⟩ := fills output rfl
      have room : output.written.length + [(0 : UInt8)].length ≤ output.capacity := by
        rw [capacity, List.length_singleton]
        exact Nat.succ_le_succ le
      have writes : output.write [0] = .ok { output with written := output.written ++ [0] } := by
        rw [StringBlock.write, if_pos room]
      refine completes_lift_bind writes (completes_modify_bind (completes_pure ?_))
      intro parsed filled
      cases filled
      have behind := ready.next_inside inside closes (by decide)
      have whole : buffer.ahead = ('"'.toUInt8 :: (body ++ ['"'.toUInt8])) ++
          buffer.content.drop (final + 1) := by
        rw [ParseBuffer.ahead, drop_eq_cons holds, stands, drop_eq_cons closes]
        simp
      have length : ('"'.toUInt8 :: (body ++ ['"'.toUInt8])).length =
          final + 1 - buffer.offset := by
        simp only [List.length_cons, List.length_append, List.length_nil]
        omega
      have more : buffer.content.drop (final + 1) ≠ [] := by
        rw [← List.length_pos_iff, List.length_drop]
        omega
      have passed := ready.passed whole more
      have isContent : CString.ofBuffer (output.written ++ [0]) = CString.ofBuffer bytes := by
        rw [ofBuffer_append_terminator, written]
        rfl
      have at' : buffer.skip ('"'.toUInt8 :: (body ++ ['"'.toUInt8])).length =
          { buffer with offset := final + 1 } := by
        rw [ParseBuffer.skip, length, Nat.add_sub_cancel' (by omega)]
      rw [at'] at passed
      refine ⟨_, bytes, passed, ?_, by rw [isContent]⟩
      rw [drop_eq_cons closes] at stands
      cases unescapes with
      | @within text rest parts same ends =>
        have isBody : text = body :=
          (List.append_inj (same.symm.trans stands) (by omega)).1
        exact Quoted.intro unclosed (isBody ▸ parts)
      | @beyond text rest front quote byte parts escape isBytes same ends =>
        have split : text ++ '\\'.toUInt8 :: quote :: rest =
            (text ++ ['\\'.toUInt8]) ++ quote :: rest := by simp
        obtain ⟨isBody, isRest⟩ := List.append_inj (split.symm.trans (same.symm.trans stands))
          (by rw [List.length_append, List.length_singleton]; omega)
        rw [List.cons.injEq] at isRest
        rw [isRest.1] at escape
        have isByte : byte = '"'.toUInt8 := (Option.some.inj escape).symm
        rw [← isBody, isBytes, isByte]
        exact Quoted.beyond (isBody ▸ unclosed) parts

end DiffServSimulation
