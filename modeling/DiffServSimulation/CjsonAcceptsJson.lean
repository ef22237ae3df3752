/-
This file proves that the vendored parser accepts every JSON text within its
limits and builds the tree the text writes.

JSON is a part of the dialect, so the proof is a map from the derivations of one
grammar to those of the other. An escaped character is written with the bytes of
its UTF-8 encoding, which is where the bit operations of the encoder are compared
with the arithmetic ones. The limits are the ones the parser sets: a thousand
levels of nesting, and sixty-three bytes for a number.
-/

import DiffServSimulation.CjsonParseAccepts
import DiffServSimulation.JsonGrammar

namespace DiffServSimulation

open JsonGrammar DecimalNumber

/-! ### The encoding of a character -/

/-- A mark over free low bits is added. -/
theorem or_mark (places mark low : Nat) (small : low < 2 ^ places) :
    low ||| 2 ^ places * mark = 2 ^ places * mark + low := by
  rw [Nat.or_comm, Nat.two_pow_add_eq_or_of_lt small]

/-- A continuation byte carries the six low bits. -/
theorem continuation_eq (codepoint : Nat) :
    (codepoint ||| 0x80) &&& 0xBF = codepoint % 0x40 + 0x80 := by
  have low : codepoint % 0x40 < 2 ^ 7 := by omega
  have bits : codepoint &&& 0x3F = codepoint % 0x40 := Nat.and_two_pow_sub_one_eq_mod codepoint 6
  calc (codepoint ||| 0x80) &&& 0xBF
      = (codepoint ||| 0x80) &&& (0x3F ||| 0x80) := rfl
    _ = (codepoint &&& 0x3F) ||| 0x80 := (Nat.or_and_distrib_right _ _ _).symm
    _ = codepoint % 0x40 ||| 2 ^ 7 * 1 := congrArg (· ||| 0x80) bits
    _ = 2 ^ 7 * 1 + codepoint % 0x40 := or_mark _ _ _ low
    _ = codepoint % 0x40 + 0x80 := Nat.add_comm _ _

theorem byte_of_and_255 (value : Nat) : UInt8.ofNat (value &&& 0xFF) = UInt8.ofNat value := by
  rw [← UInt8.toNat_inj, UInt8.toNat_ofNat', UInt8.toNat_ofNat',
    Nat.and_two_pow_sub_one_eq_mod value 8, Nat.mod_mod]

theorem char_valid (char : Char) :
    char.toNat < 0xD800 ∨ 0xDFFF < char.toNat ∧ char.toNat < 0x110000 := char.valid

/-- The encoder writes the UTF-8 encoding of every character. -/
theorem encodeUtf8_toNat (char : Char) :
    encodeUtf8 char.toNat = some (String.utf8EncodeChar char) := by
  have valid := char_valid char
  have value : char.val.toNat = char.toNat := rfl
  unfold encodeUtf8 String.utf8EncodeChar
  simp only [value]
  generalize char.toNat = codepoint at valid
  simp only [encodeUtf8.encode, continuationBytes, byte_of_and_255, continuation_eq,
    Nat.shiftRight_eq_div_pow, Nat.div_div_eq_div_mul]
  by_cases one : codepoint < 0x80
  · have low : codepoint &&& 0x7F = codepoint :=
      (Nat.and_two_pow_sub_one_eq_mod codepoint 7).trans (Nat.mod_eq_of_lt one)
    rw [if_pos one, if_pos (Nat.le_of_lt_succ one), low]
  rw [if_neg one, if_neg (mt Nat.lt_succ_of_le one)]
  by_cases two : codepoint < 0x800
  · have mark : codepoint / 2 ^ 6 ||| 0xC0 = codepoint / 64 % 0x20 + 0xC0 :=
      (or_mark 6 3 (codepoint / 2 ^ 6) (by omega)).trans (by omega)
    rw [if_pos two, if_pos (Nat.le_of_lt_succ two), mark]
  rw [if_neg two, if_neg (mt Nat.lt_succ_of_le two)]
  by_cases three : codepoint < 0x10000
  · have mark : codepoint / (2 ^ 6 * 2 ^ 6) ||| 0xE0 = codepoint / 4096 % 0x10 + 0xE0 :=
      (or_mark 5 7 (codepoint / (2 ^ 6 * 2 ^ 6)) (by omega)).trans (by omega)
    rw [if_pos three, if_pos (Nat.le_of_lt_succ three), mark]
  have mark : codepoint / (2 ^ 6 * 2 ^ 6 * 2 ^ 6) ||| 0xF0 = codepoint / 262144 % 8 + 0xF0 :=
    (or_mark 4 15 (codepoint / (2 ^ 6 * 2 ^ 6 * 2 ^ 6)) (by omega)).trans (by omega)
  rw [if_neg three, if_neg (mt Nat.lt_succ_of_le three), if_pos (by omega), mark]

/-! ### Strings -/

theorem hexDigit?_of_hexDigit {byte : UInt8} {value : Nat} (digit : HexDigit byte value) :
    hexDigit? byte = some value := by
  cases digit with
  | decimal value small => interval_cases value <;> decide
  | upper value small => interval_cases value <;> decide
  | lower value small => interval_cases value <;> decide

/-- The code unit four digits write is what is read of them. -/
theorem hexValue_of_hexQuad {digits : List UInt8} {value : Nat} (quad : HexQuad digits value) :
    hexValue 0 digits = value := by
  obtain ⟨first, second, third, fourth⟩ := quad
  simp only [hexValue, hexDigit?_of_hexDigit first, hexDigit?_of_hexDigit second,
    hexDigit?_of_hexDigit third, hexDigit?_of_hexDigit fourth]
  omega

/-- The ten low bits of either surrogate are a half of the character. -/
theorem surrogate_halves (char : Char) (above : 0x10000 ≤ char.toNat) :
    0x10000 + (((0xD800 + (char.toNat - 0x10000) / 0x400) &&& 0x3FF) <<< 10 |||
      ((0xDC00 + (char.toNat - 0x10000) % 0x400) &&& 0x3FF)) = char.toNat := by
  have valid := char_valid char
  have low : (char.toNat - 0x10000) % 0x400 < 2 ^ 10 := Nat.mod_lt _ (by decide)
  have high : (0xD800 + (char.toNat - 0x10000) / 0x400) % 2 ^ 10 =
      (char.toNat - 0x10000) / 0x400 := by omega
  have lowBits : (0xDC00 + (char.toNat - 0x10000) % 0x400) % 2 ^ 10 =
      (char.toNat - 0x10000) % 0x400 := by omega
  rw [Nat.and_two_pow_sub_one_eq_mod _ 10, Nat.and_two_pow_sub_one_eq_mod _ 10, high, lowBits,
    Nat.shiftLeft_eq, Nat.mul_comm _ (2 ^ 10), ← Nat.two_pow_add_eq_or_of_lt low]
  omega

theorem simpleEscape?_of_mem {letter byte : UInt8} (escape : (letter, byte) ∈ shortEscapes) :
    simpleEscape? letter = some byte := by
  simp only [shortEscapes, List.mem_cons, Prod.mk.injEq, List.not_mem_nil, or_false] at escape
  rcases escape with ⟨rfl, rfl⟩ | ⟨rfl, rfl⟩ | ⟨rfl, rfl⟩ | ⟨rfl, rfl⟩ | ⟨rfl, rfl⟩ |
    ⟨rfl, rfl⟩ | ⟨rfl, rfl⟩ | ⟨rfl, rfl⟩ <;> decide

/-- A part of a JSON string is a part for the second pass. -/
theorem part_of_charText {text content : List UInt8} (char : CharText text content) :
    Part text content := by
  cases char with
  | plain byte visible noQuote noEscape => exact Part.plain byte noEscape
  | short letter byte escape => exact Part.simple (simpleEscape?_of_mem escape)
  | unit digits char hex =>
    have value := hexValue_of_hexQuad hex
    refine Part.unit hex.length ?_ ?_
    · rw [value, Single]
      have valid := char_valid char
      omega
    · rw [value]
      exact encodeUtf8_toNat char
  | pair high low char above highHex lowHex =>
    have valid := char_valid char
    have highValue := hexValue_of_hexQuad highHex
    have lowValue := hexValue_of_hexQuad lowHex
    refine Part.pair highHex.length lowHex.length ?_ ?_ ?_
    · omega
    · omega
    · rw [highValue, lowValue, surrogate_halves char above]
      exact encodeUtf8_toNat char

theorem Unclosed.append {first second : List UInt8} (left : Unclosed first)
    (right : Unclosed second) : Unclosed (first ++ second) := by
  induction left with
  | nil => exact right
  | plain noQuote noEscape _ inductionHypothesis =>
    exact Unclosed.plain noQuote noEscape inductionHypothesis
  | escape hidden _ inductionHypothesis => exact Unclosed.escape hidden inductionHypothesis

/-- Bytes that neither close a string nor begin an escape. -/
theorem unclosed_of_plain (bytes : List UInt8)
    (plain : ∀ byte ∈ bytes, byte ≠ '"'.toUInt8 ∧ byte ≠ '\\'.toUInt8) : Unclosed bytes := by
  induction bytes with
  | nil => exact Unclosed.nil
  | cons byte bytes inductionHypothesis =>
    obtain ⟨noQuote, noEscape⟩ := plain byte List.mem_cons_self
    exact Unclosed.plain noQuote noEscape
      (inductionHypothesis fun other member => plain other (List.mem_cons_of_mem _ member))

theorem unclosed_of_hexQuad {digits : List UInt8} {value : Nat} (quad : HexQuad digits value) :
    Unclosed ('\\'.toUInt8 :: 'u'.toUInt8 :: digits) :=
  Unclosed.escape _ (unclosed_of_plain digits fun byte member => (quad.plain byte member).2)

theorem unclosed_of_charText {text content : List UInt8} (char : CharText text content) :
    Unclosed text := by
  cases char with
  | plain byte visible noQuote noEscape => exact Unclosed.plain noQuote noEscape Unclosed.nil
  | short letter byte escape => exact Unclosed.escape letter Unclosed.nil
  | unit digits char hex => exact unclosed_of_hexQuad hex
  | pair high low char above highHex lowHex =>
    exact (unclosed_of_hexQuad highHex).append (unclosed_of_hexQuad lowHex)

theorem quoted_of_stringText {text content : List UInt8} (writes : StringText text content) :
    Quoted text content := by
  obtain ⟨body, string, rfl⟩ := writes
  have both : Unclosed body ∧ Parts body content := by
    induction string with
    | nil => exact ⟨Unclosed.nil, Parts.nil⟩
    | cons first _ inductionHypothesis =>
      exact ⟨(unclosed_of_charText first).append inductionHypothesis.1,
        Parts.cons (part_of_charText first) inductionHypothesis.2⟩
  exact Quoted.intro both.1 both.2

/-! ### Numbers and blanks -/

/-- What the parser makes of a number: its nearest double, saturated to an `int`. -/
def valueintOf (numeral : Numeral) : Int32 := saturate (roundToDouble numeral.value)

/-- The double the parser keeps of a number. -/
def valuedoubleOf (numeral : Numeral) : Double := Double.ofRat numeral.value

theorem isNumberByte_of_mem_text {numeral : Numeral} {byte : UInt8}
    (member : byte ∈ numeral.text) : isNumberByte byte = true := by
  rcases numeral.mem_text member with digit | sign
  · simp [isNumberByte, digit]
  · simp only [List.mem_cons, List.not_mem_nil, or_false] at sign
    rcases sign with rfl | rfl | rfl | rfl | rfl <;> decide

theorem numberText_of_numeral (numeral : Numeral) (short : numeral.text.length ≤ 63) :
    NumberText numeral.text (roundToDouble numeral.value) := by
  obtain ⟨byte, rest, begins, starts⟩ := numeral.first
  exact ⟨fun byte member => isNumberByte_of_mem_text member, ⟨byte, by rw [begins]; rfl, starts⟩,
    short, numeral.strtod_text⟩

theorem taken_of_numeral (depth : Nat) (name : Option CString) (numeral : Numeral)
    (short : numeral.text.length ≤ 63) :
    Taken depth name numeral.text { type := .number, valueint := valueintOf numeral,
                                    valuedouble := valuedoubleOf numeral, string := name } := by
  have taken := Taken.number depth name (numberText_of_numeral numeral short)
  rwa [Double.ofRat_roundToDouble] at taken

theorem white_of_blank {text : List UInt8} (isBlank : Blank text) : White text := by
  intro byte member
  have among := isBlank byte member
  simp only [List.mem_cons, List.not_mem_nil, or_false] at among
  rcases among with rfl | rfl | rfl | rfl <;> decide

/-! ### The tree of a document -/

mutual

/-- The item the parser builds for a document, under a name if it is a member. -/
def itemOf (name : Option CString) : Json → Item
  | .null => { type := .null, string := name }
  | .bool false => { type := .false, string := name }
  | .bool true => { type := .true, valueint := 1, string := name }
  | .number numeral =>
    { type := .number, valueint := valueintOf numeral, valuedouble := valuedoubleOf numeral,
      string := name }
  | .string content =>
    { type := .string, valuestring := some (CString.ofBuffer content), string := name }
  | .array elements =>
    { type := .array, string := name, child := CJSON.link (elementItems elements) }
  | .object members =>
    { type := .object, string := name, child := CJSON.link (memberItems members) }

def elementItems : List Json → List Item
  | [] => []
  | json :: others => itemOf none json :: elementItems others

def memberItems : List (List UInt8 × Json) → List Item
  | [] => []
  | (name, json) :: others => itemOf (some (CString.ofBuffer name)) json :: memberItems others

end

theorem elementItems_eq_map (elements : List Json) :
    elementItems elements = elements.map (itemOf none) := by
  induction elements with
  | nil => rfl
  | cons json others inductionHypothesis =>
    rw [elementItems, inductionHypothesis, List.map_cons]

theorem memberItems_eq_map (members : List (List UInt8 × Json)) :
    memberItems members =
      members.map fun member => itemOf (some (CString.ofBuffer member.1)) member.2 := by
  induction members with
  | nil => rfl
  | cons member others inductionHypothesis =>
    obtain ⟨name, json⟩ := member
    rw [memberItems, inductionHypothesis, List.map_cons]

/-! ### Every derivation -/

mutual

theorem taken_of_value {depth : Nat} (name : Option CString) {text : List UInt8} {json : Json} :
    Value 63 depth text json → Taken depth name text (itemOf name json)
  | .null depth => Taken.null depth name
  | .false depth => Taken.false depth name
  | .true depth => Taken.true depth name
  | .number depth numeral short => taken_of_numeral depth name numeral short
  | .string depth writes => Taken.string depth name (quoted_of_stringText writes)
  | .emptyArray depth isBlank => Taken.emptyArray depth name (white_of_blank isBlank)
  | .array isBlank writes => Taken.array name (white_of_blank isBlank) (taken_of_elements writes)
  | .emptyObject depth isBlank => Taken.emptyObject depth name (white_of_blank isBlank)
  | .object isBlank writes => Taken.object name (white_of_blank isBlank) (taken_of_members writes)

theorem taken_of_elements {depth : Nat} {text : List UInt8} {elements : List Json} :
    Elements 63 depth text elements → TakenElements depth text (elementItems elements)
  | .last writes isBlank => TakenElements.last (taken_of_value none writes) (white_of_blank isBlank)
  | .cons writes isBefore isAfter writesRest =>
    TakenElements.cons (taken_of_value none writes) (white_of_blank isBefore)
      (white_of_blank isAfter) (taken_of_elements writesRest)

theorem taken_of_members {depth : Nat} {text : List UInt8} {members : List (List UInt8 × Json)} :
    Members 63 depth text members → TakenMembers depth text (memberItems members)
  | .last writes isBlank => TakenMembers.last (taken_of_member writes) (white_of_blank isBlank)
  | .cons writes isBefore isAfter writesRest =>
    TakenMembers.cons (taken_of_member writes) (white_of_blank isBefore) (white_of_blank isAfter)
      (taken_of_members writesRest)

theorem taken_of_member {depth : Nat} {text name : List UInt8} {json : Json} :
    Member 63 depth text name json →
      TakenMember depth text (itemOf (some (CString.ofBuffer name)) json)
  | .intro named isBefore isAfter writes =>
    TakenMember.intro (quoted_of_stringText named) (white_of_blank isBefore)
      (white_of_blank isAfter) (taken_of_value _ writes)

end

/-! ### Whole texts -/

/-- The bytes that may stand in front of a text: a byte order mark or nothing. -/
def utf8Bom (marked : Bool) : List UInt8 := if marked then [0xEF, 0xBB, 0xBF] else []

/-- A JSON text within the limits is accepted, with or without a byte order mark, and the tree is
the one it writes. -/
theorem cJSONParseWithOpts_accepts (value : CString) (marked requireNullTerminated : Bool)
    {text : List UInt8} {json : Json} (writes : JsonText 63 cJSONNestingLimit text json)
    (holds : value.bytes = utf8Bom marked ++ text) :
    cJSONParseWithOpts value requireNullTerminated = .ok (CJSON.link [itemOf none json]) := by
  obtain ⟨lead, body, trail, isLead, isTrail, derives, rfl⟩ := writes
  have isMark : utf8Bom marked = [] ∨ utf8Bom marked = [0xEF, 0xBB, 0xBF] := by
    cases marked
    · exact Or.inl rfl
    · exact Or.inr rfl
  have isWhite := white_of_blank isTrail
  refine cJSONParseWithOpts_takes value requireNullTerminated ⟨utf8Bom marked, lead, body, isMark,
    white_of_blank isLead, taken_of_value none derives, holds⟩ (fun _ byte first => ?_)
    fun _ => isWhite
  exact isNumberByte_of_white (isWhite byte (List.mem_of_mem_head? first))

end DiffServSimulation
