/-
This file is a small library for JSON texts. It names nothing of the simulator.

`Json` is a document, and the relations below say which byte strings write it.
The grammar differs from the standard one in three ways: a number may begin with
zeros, an escape of a lone surrogate is no character, and the bytes of a string
that are not escaped need not be UTF-8. A derivation carries the two limits an
implementation may set: how deep arrays and objects nest, and how many bytes a
number is written with. The content of a string is the bytes it stands for, with
an escaped character in UTF-8.
-/

import DiffServSimulation.DecimalNumeral
import Mathlib.Tactic.IntervalCases

namespace JsonGrammar

open DecimalNumber

/-! ### Documents -/

/-- A JSON document. Names and contents of strings are the bytes they stand for. -/
inductive Json where
  | null
  | bool (value : Bool)
  | number (numeral : Numeral)
  | string (content : List UInt8)
  | array (elements : List Json)
  | object (members : List (List UInt8 × Json))

/-- The bytes of an ASCII text. -/
def ascii (text : String) : List UInt8 := text.toList.map Char.toUInt8

/-- A text of blanks: spaces, tabs, line feeds and carriage returns. -/
def Blank (text : List UInt8) : Prop := ∀ byte ∈ text, byte ∈ [0x20, 0x09, 0x0A, (0x0D : UInt8)]

/-! ### Strings -/

/-- A byte writes a hexadecimal digit of some value. -/
inductive HexDigit : UInt8 → Nat → Prop where
  | decimal (value : Nat) (small : value < 10) : HexDigit (UInt8.ofNat (48 + value)) value
  | upper (value : Nat) (small : value < 6) : HexDigit (UInt8.ofNat (65 + value)) (10 + value)
  | lower (value : Nat) (small : value < 6) : HexDigit (UInt8.ofNat (97 + value)) (10 + value)

/-- Four hexadecimal digits write a 16-bit code unit. -/
inductive HexQuad : List UInt8 → Nat → Prop where
  | intro {byte₁ byte₂ byte₃ byte₄ : UInt8} {digit₁ digit₂ digit₃ digit₄ : Nat}
      (first : HexDigit byte₁ digit₁) (second : HexDigit byte₂ digit₂)
      (third : HexDigit byte₃ digit₃) (fourth : HexDigit byte₄ digit₄) :
      HexQuad [byte₁, byte₂, byte₃, byte₄] (((digit₁ * 16 + digit₂) * 16 + digit₃) * 16 + digit₄)

/-- The letters of the short escapes and the bytes they stand for. -/
def shortEscapes : List (UInt8 × UInt8) :=
  [('"'.toUInt8, '"'.toUInt8), ('\\'.toUInt8, '\\'.toUInt8), ('/'.toUInt8, '/'.toUInt8),
    ('b'.toUInt8, 8), ('f'.toUInt8, 12), ('n'.toUInt8, 10), ('r'.toUInt8, 13), ('t'.toUInt8, 9)]

/-- A part of a string and the content it writes: a byte as it is, a short escape, or an escaped
character, which takes two code units from `0x10000` on. -/
inductive CharText : List UInt8 → List UInt8 → Prop where
  | plain (byte : UInt8) (visible : 0x20 ≤ byte) (noQuote : byte ≠ '"'.toUInt8)
      (noEscape : byte ≠ '\\'.toUInt8) : CharText [byte] [byte]
  | short (letter byte : UInt8) (escape : (letter, byte) ∈ shortEscapes) :
      CharText ['\\'.toUInt8, letter] [byte]
  | unit (digits : List UInt8) (char : Char) (hex : HexQuad digits char.toNat) :
      CharText ('\\'.toUInt8 :: 'u'.toUInt8 :: digits) (String.utf8EncodeChar char)
  | pair (high low : List UInt8) (char : Char) (above : 0x10000 ≤ char.toNat)
      (highHex : HexQuad high (0xD800 + (char.toNat - 0x10000) / 0x400))
      (lowHex : HexQuad low (0xDC00 + (char.toNat - 0x10000) % 0x400)) :
      CharText ('\\'.toUInt8 :: 'u'.toUInt8 :: (high ++ '\\'.toUInt8 :: 'u'.toUInt8 :: low))
        (String.utf8EncodeChar char)

/-- What stands between the quotes of a string, and its content. -/
inductive StringBody : List UInt8 → List UInt8 → Prop where
  | nil : StringBody [] []
  | cons {text rest content more : List UInt8} (first : CharText text content)
      (others : StringBody rest more) : StringBody (text ++ rest) (content ++ more)

/-- A string with its quotes, and its content. -/
def StringText (text content : List UInt8) : Prop :=
  ∃ body, StringBody body content ∧ text = '"'.toUInt8 :: (body ++ ['"'.toUInt8])

/-! ### Values -/

mutual

/-- A text writes a document that nests no deeper than a limit. -/
inductive Value (numberLength : Nat) : Nat → List UInt8 → Json → Prop where
  | null (depth : Nat) : Value numberLength depth (ascii "null") .null
  | false (depth : Nat) : Value numberLength depth (ascii "false") (.bool false)
  | true (depth : Nat) : Value numberLength depth (ascii "true") (.bool true)
  | number (depth : Nat) (numeral : Numeral) (short : numeral.text.length ≤ numberLength) :
      Value numberLength depth numeral.text (.number numeral)
  | string (depth : Nat) {text content : List UInt8} (writes : StringText text content) :
      Value numberLength depth text (.string content)
  | emptyArray (depth : Nat) {blank : List UInt8} (isBlank : Blank blank) :
      Value numberLength (depth + 1) ('['.toUInt8 :: (blank ++ [']'.toUInt8])) (.array [])
  | array {depth : Nat} {blank text : List UInt8} {elements : List Json} (isBlank : Blank blank)
      (writes : Elements numberLength depth text elements) :
      Value numberLength (depth + 1) ('['.toUInt8 :: (blank ++ text ++ [']'.toUInt8]))
        (.array elements)
  | emptyObject (depth : Nat) {blank : List UInt8} (isBlank : Blank blank) :
      Value numberLength (depth + 1) ('\x7b'.toUInt8 :: (blank ++ ['\x7d'.toUInt8])) (.object [])
  | object {depth : Nat} {blank text : List UInt8} {members : List (List UInt8 × Json)}
      (isBlank : Blank blank) (writes : Members numberLength depth text members) :
      Value numberLength (depth + 1) ('\x7b'.toUInt8 :: (blank ++ text ++ ['\x7d'.toUInt8]))
        (.object members)

/-- The elements of an array that is not empty, with the commas and blanks behind them. -/
inductive Elements (numberLength : Nat) : Nat → List UInt8 → List Json → Prop where
  | last {depth : Nat} {text blank : List UInt8} {json : Json}
      (writes : Value numberLength depth text json) (isBlank : Blank blank) :
      Elements numberLength depth (text ++ blank) [json]
  | cons {depth : Nat} {text before after rest : List UInt8} {json : Json} {others : List Json}
      (writes : Value numberLength depth text json) (isBefore : Blank before)
      (isAfter : Blank after) (writesRest : Elements numberLength depth rest others) :
      Elements numberLength depth (text ++ before ++ ','.toUInt8 :: (after ++ rest))
        (json :: others)

/-- The members of an object that is not empty. -/
inductive Members (numberLength : Nat) : Nat → List UInt8 → List (List UInt8 × Json) → Prop where
  | last {depth : Nat} {name text blank : List UInt8} {json : Json}
      (writes : Member numberLength depth text name json) (isBlank : Blank blank) :
      Members numberLength depth (text ++ blank) [(name, json)]
  | cons {depth : Nat} {name text before after rest : List UInt8} {json : Json}
      {others : List (List UInt8 × Json)} (writes : Member numberLength depth text name json)
      (isBefore : Blank before) (isAfter : Blank after)
      (writesRest : Members numberLength depth rest others) :
      Members numberLength depth (text ++ before ++ ','.toUInt8 :: (after ++ rest))
        ((name, json) :: others)

/-- A name, a colon and a value. -/
inductive Member (numberLength : Nat) : Nat → List UInt8 → List UInt8 → Json → Prop where
  | intro {depth : Nat} {key name before after text : List UInt8} {json : Json}
      (named : StringText key name) (isBefore : Blank before) (isAfter : Blank after)
      (writes : Value numberLength depth text json) :
      Member numberLength depth (key ++ before ++ ':'.toUInt8 :: (after ++ text)) name json

end

/-- A text that writes a document between blanks. -/
def JsonText (numberLength depth : Nat) (text : List UInt8) (json : Json) : Prop :=
  ∃ lead body trail, Blank lead ∧ Blank trail ∧ Value numberLength depth body json ∧
    text = lead ++ (body ++ trail)

/-! ### Strings and numbers hold no terminator -/

/-- The bytes of the characters the grammar names. -/
theorem grammar_bytes :
    '"'.toUInt8 = 0x22 ∧ '\\'.toUInt8 = 0x5C ∧ '/'.toUInt8 = 0x2F ∧ 'u'.toUInt8 = 0x75 ∧
      'b'.toUInt8 = 0x62 ∧ 'f'.toUInt8 = 0x66 ∧ 'n'.toUInt8 = 0x6E ∧ 'r'.toUInt8 = 0x72 ∧
      't'.toUInt8 = 0x74 ∧ '['.toUInt8 = 0x5B ∧ ']'.toUInt8 = 0x5D ∧ '\x7b'.toUInt8 = 0x7B ∧
      '\x7d'.toUInt8 = 0x7D ∧ ','.toUInt8 = 0x2C ∧ ':'.toUInt8 = 0x3A := by
  decide

theorem Blank.terminatorFree {text : List UInt8} (isBlank : Blank text) : 0 ∉ text := by
  intro member
  exact absurd (isBlank 0 member) (by decide)

/-- A hexadecimal digit neither ends a text nor a string, and begins no escape. -/
theorem HexDigit.plain {byte : UInt8} {value : Nat} (digit : HexDigit byte value) :
    byte ≠ 0 ∧ byte ≠ '"'.toUInt8 ∧ byte ≠ '\\'.toUInt8 := by
  cases digit with
  | decimal value small => interval_cases value <;> decide
  | upper value small => interval_cases value <;> decide
  | lower value small => interval_cases value <;> decide

theorem HexQuad.plain {digits : List UInt8} {value : Nat} (quad : HexQuad digits value) :
    ∀ byte ∈ digits, byte ≠ 0 ∧ byte ≠ '"'.toUInt8 ∧ byte ≠ '\\'.toUInt8 := by
  obtain ⟨first, second, third, fourth⟩ := quad
  simp only [List.forall_mem_cons]
  exact ⟨first.plain, second.plain, third.plain, fourth.plain, by simp⟩

theorem HexQuad.length {digits : List UInt8} {value : Nat} (quad : HexQuad digits value) :
    digits.length = 4 := by
  cases quad
  rfl

theorem HexQuad.terminatorFree {digits : List UInt8} {value : Nat} (quad : HexQuad digits value) :
    0 ∉ digits :=
  fun member => (quad.plain 0 member).1 rfl

theorem shortEscapes_ne_zero {letter byte : UInt8} (escape : (letter, byte) ∈ shortEscapes) :
    letter ≠ 0 := by
  rintro rfl
  simp [shortEscapes, grammar_bytes] at escape

theorem CharText.terminatorFree {text content : List UInt8} (char : CharText text content) :
    0 ∉ text := by
  cases char with
  | plain byte visible _ _ =>
    rw [List.mem_singleton]
    rintro rfl
    exact absurd visible (by decide)
  | short letter byte escape => simp [grammar_bytes, Ne.symm (shortEscapes_ne_zero escape)]
  | unit digits char hex => simp [grammar_bytes, hex.terminatorFree]
  | pair high low char above highHex lowHex =>
    simp [grammar_bytes, highHex.terminatorFree, lowHex.terminatorFree]

theorem StringText.terminatorFree {text content : List UInt8} (writes : StringText text content) :
    0 ∉ text := by
  obtain ⟨body, string, rfl⟩ := writes
  have free : 0 ∉ body := by
    induction string with
    | nil => exact List.not_mem_nil
    | cons first _ inductionHypothesis =>
      rw [List.mem_append, not_or]
      exact ⟨first.terminatorFree, inductionHypothesis⟩
  simp [grammar_bytes, free]

theorem numeral_terminatorFree (numeral : Numeral) : 0 ∉ numeral.text := by
  intro member
  rcases numeral.mem_text member with digit | sign
  · exact absurd digit (by decide)
  · exact absurd sign (by decide)

/-! ### Values -/

mutual

theorem Value.terminatorFree {numberLength depth : Nat} {text : List UInt8} {json : Json} :
    Value numberLength depth text json → 0 ∉ text
  | .null _ => by decide
  | .false _ => by decide
  | .true _ => by decide
  | .number _ numeral _ => numeral_terminatorFree numeral
  | .string _ writes => writes.terminatorFree
  | .emptyArray _ isBlank => by simp [grammar_bytes, isBlank.terminatorFree]
  | .array isBlank writes => by simp [grammar_bytes, isBlank.terminatorFree, writes.terminatorFree]
  | .emptyObject _ isBlank => by simp [grammar_bytes, isBlank.terminatorFree]
  | .object isBlank writes => by simp [grammar_bytes, isBlank.terminatorFree, writes.terminatorFree]

theorem Elements.terminatorFree {numberLength depth : Nat} {text : List UInt8}
    {elements : List Json} : Elements numberLength depth text elements → 0 ∉ text
  | .last writes isBlank => by simp [writes.terminatorFree, isBlank.terminatorFree]
  | .cons writes isBefore isAfter writesRest => by
    simp [grammar_bytes, writes.terminatorFree, isBefore.terminatorFree, isAfter.terminatorFree,
      writesRest.terminatorFree]

theorem Members.terminatorFree {numberLength depth : Nat} {text : List UInt8}
    {members : List (List UInt8 × Json)} : Members numberLength depth text members → 0 ∉ text
  | .last writes isBlank => by simp [writes.terminatorFree, isBlank.terminatorFree]
  | .cons writes isBefore isAfter writesRest => by
    simp [grammar_bytes, writes.terminatorFree, isBefore.terminatorFree, isAfter.terminatorFree,
      writesRest.terminatorFree]

theorem Member.terminatorFree {numberLength depth : Nat} {text name : List UInt8} {json : Json} :
    Member numberLength depth text name json → 0 ∉ text
  | .intro named isBefore isAfter writes => by
    simp [grammar_bytes, named.terminatorFree, isBefore.terminatorFree, isAfter.terminatorFree,
      writes.terminatorFree]

end

theorem JsonText.terminatorFree {numberLength depth : Nat} {text : List UInt8} {json : Json}
    (writes : JsonText numberLength depth text json) : 0 ∉ text := by
  obtain ⟨lead, body, trail, isLead, isTrail, value, rfl⟩ := writes
  simp [isLead.terminatorFree, isTrail.terminatorFree, value.terminatorFree]

end JsonGrammar
