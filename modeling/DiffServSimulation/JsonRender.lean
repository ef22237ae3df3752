/-
This file is part of the library for JSON texts: every document within the limits
has a text, and `render` writes one. It names nothing of the simulator.

The text is the compact one. Strings are written byte by byte, so that a string
of any content comes out as one the grammar derives: quotes and backslashes are
escaped, control characters are written as code units, and everything else stands
as it is.
-/

import DiffServSimulation.JsonGrammar

namespace JsonGrammar

open DecimalNumber

/-! ### Strings -/

def hexByte (digit : Nat) : UInt8 :=
  if digit < 10 then UInt8.ofNat (48 + digit) else UInt8.ofNat (97 + (digit - 10))

theorem hexByte_digit (digit : Nat) (small : digit < 16) : HexDigit (hexByte digit) digit := by
  unfold hexByte
  split_ifs with decimal
  · exact HexDigit.decimal digit decimal
  · have lower := HexDigit.lower (digit - 10) (by omega)
    rwa [Nat.add_sub_cancel' (Nat.le_of_not_lt decimal)] at lower

/-- One byte of a string. -/
def renderByte (byte : UInt8) : List UInt8 :=
  if byte = '"'.toUInt8 ∨ byte = '\\'.toUInt8 then ['\\'.toUInt8, byte]
  else if byte < 0x20 then
    '\\'.toUInt8 :: 'u'.toUInt8 ::
      [hexByte 0, hexByte 0, hexByte (byte.toNat / 16), hexByte (byte.toNat % 16)]
  else [byte]

/-- A control character is its own encoding. -/
theorem utf8EncodeChar_control (byte : UInt8) (control : byte < 0x20) :
    (Char.ofNat byte.toNat).toNat = byte.toNat ∧
      String.utf8EncodeChar (Char.ofNat byte.toNat) = [byte] := by
  have small : byte.toNat < 32 := UInt8.lt_iff_toNat_lt.mp control
  have value : (Char.ofNat byte.toNat).toNat = byte.toNat := by
    have valid : byte.toNat.isValidChar := Or.inl (by omega)
    rw [Char.ofNat, dif_pos valid]
    rfl
  refine ⟨value, ?_⟩
  have low : (Char.ofNat byte.toNat).val.toNat ≤ 0x7F := by
    show (Char.ofNat byte.toNat).toNat ≤ 0x7F
    omega
  unfold String.utf8EncodeChar
  simp only [if_pos low]
  show [UInt8.ofNat (Char.ofNat byte.toNat).toNat] = [byte]
  rw [value, UInt8.ofNat_toNat]

theorem renderByte_writes (byte : UInt8) : CharText (renderByte byte) [byte] := by
  unfold renderByte
  split_ifs with escaped control
  · refine CharText.short byte byte ?_
    rcases escaped with rfl | rfl <;> decide
  · obtain ⟨value, encoding⟩ := utf8EncodeChar_control byte control
    have small : byte.toNat < 32 := UInt8.lt_iff_toNat_lt.mp control
    have quad := HexQuad.intro (hexByte_digit 0 (by decide)) (hexByte_digit 0 (by decide))
      (hexByte_digit (byte.toNat / 16) (by omega)) (hexByte_digit (byte.toNat % 16) (by omega))
    have isValue : ((0 * 16 + 0) * 16 + byte.toNat / 16) * 16 + byte.toNat % 16 =
        (Char.ofNat byte.toNat).toNat := by
      rw [value]
      omega
    rw [isValue] at quad
    have written := CharText.unit _ _ quad
    rwa [encoding] at written
  · exact CharText.plain byte (UInt8.not_lt.mp control) (fun quote => escaped (Or.inl quote))
      fun escape => escaped (Or.inr escape)

def renderString (content : List UInt8) : List UInt8 :=
  '"'.toUInt8 :: (content.flatMap renderByte ++ ['"'.toUInt8])

theorem renderString_writes (content : List UInt8) : StringText (renderString content) content := by
  refine ⟨content.flatMap renderByte, ?_, rfl⟩
  induction content with
  | nil => exact StringBody.nil
  | cons byte content inductionHypothesis =>
    exact StringBody.cons (renderByte_writes byte) inductionHypothesis

/-! ### Documents -/

/-- Texts with commas between them. -/
def joinCommas : List (List UInt8) → List UInt8
  | [] => []
  | [text] => text
  | text :: next :: others => text ++ ','.toUInt8 :: joinCommas (next :: others)

/-- Texts in brackets. -/
def bracket (opening closing : UInt8) (texts : List (List UInt8)) : List UInt8 :=
  opening :: (joinCommas texts ++ [closing])

mutual

/-- The compact text of a document. -/
def render : Json → List UInt8
  | .null => ascii "null"
  | .bool false => ascii "false"
  | .bool true => ascii "true"
  | .number numeral => numeral.text
  | .string content => renderString content
  | .array elements => bracket '['.toUInt8 ']'.toUInt8 (renderElements elements)
  | .object members => bracket '\x7b'.toUInt8 '\x7d'.toUInt8 (renderMembers members)

def renderElements : List Json → List (List UInt8)
  | [] => []
  | json :: others => render json :: renderElements others

def renderMembers : List (List UInt8 × Json) → List (List UInt8)
  | [] => []
  | (name, json) :: others =>
    (renderString name ++ ':'.toUInt8 :: render json) :: renderMembers others

end

mutual

/-- A document nests no deeper than a limit, and its numbers are written with no more bytes than
another. -/
inductive Within (numberLength : Nat) : Nat → Json → Prop where
  | null (depth : Nat) : Within numberLength depth .null
  | bool (depth : Nat) (value : Bool) : Within numberLength depth (.bool value)
  | number (depth : Nat) (numeral : Numeral) (short : numeral.text.length ≤ numberLength) :
      Within numberLength depth (.number numeral)
  | string (depth : Nat) (content : List UInt8) : Within numberLength depth (.string content)
  | array {depth : Nat} {elements : List Json} (within : AllWithin numberLength depth elements) :
      Within numberLength (depth + 1) (.array elements)
  | object {depth : Nat} {members : List (List UInt8 × Json)}
      (within : MembersWithin numberLength depth members) :
      Within numberLength (depth + 1) (.object members)

inductive AllWithin (numberLength : Nat) : Nat → List Json → Prop where
  | nil (depth : Nat) : AllWithin numberLength depth []
  | cons {depth : Nat} {json : Json} {others : List Json} (first : Within numberLength depth json)
      (rest : AllWithin numberLength depth others) :
      AllWithin numberLength depth (json :: others)

inductive MembersWithin (numberLength : Nat) : Nat → List (List UInt8 × Json) → Prop where
  | nil (depth : Nat) : MembersWithin numberLength depth []
  | cons {depth : Nat} {name : List UInt8} {json : Json} {others : List (List UInt8 × Json)}
      (first : Within numberLength depth json)
      (rest : MembersWithin numberLength depth others) :
      MembersWithin numberLength depth ((name, json) :: others)

end

/-! ### What is rendered is derived -/

theorem blank_nil : Blank [] := fun _ absent => absurd absent List.not_mem_nil

variable {numberLength depth : Nat}

theorem elements_joinCommas {text : List UInt8} {json : Json} {texts : List (List UInt8)}
    {elements : List Json} (first : Value numberLength depth text json)
    (others : List.Forall₂ (Value numberLength depth) texts elements) :
    Elements numberLength depth (joinCommas (text :: texts)) (json :: elements) := by
  induction others generalizing text json with
  | nil =>
    have last := Elements.last first blank_nil
    rwa [List.append_nil] at last
  | cons next _ inductionHypothesis =>
    have more := Elements.cons first blank_nil blank_nil (inductionHypothesis next)
    rwa [List.append_nil, List.nil_append] at more

theorem members_joinCommas {text : List UInt8} {member : List UInt8 × Json}
    {texts : List (List UInt8)} {members : List (List UInt8 × Json)}
    (first : Member numberLength depth text member.1 member.2)
    (others : List.Forall₂ (fun text member => Member numberLength depth text member.1 member.2)
      texts members) :
    Members numberLength depth (joinCommas (text :: texts)) (member :: members) := by
  induction others generalizing text member with
  | nil =>
    have last := Members.last first blank_nil
    rwa [List.append_nil] at last
  | cons next _ inductionHypothesis =>
    have more := Members.cons first blank_nil blank_nil (inductionHypothesis next)
    rwa [List.append_nil, List.nil_append] at more

theorem value_array {texts : List (List UInt8)} {elements : List Json}
    (writes : List.Forall₂ (Value numberLength depth) texts elements) :
    Value numberLength (depth + 1) (bracket '['.toUInt8 ']'.toUInt8 texts) (.array elements) := by
  cases writes with
  | nil => exact Value.emptyArray depth blank_nil
  | cons first others => exact Value.array blank_nil (elements_joinCommas first others)

theorem value_object {texts : List (List UInt8)} {members : List (List UInt8 × Json)}
    (writes : List.Forall₂ (fun text member => Member numberLength depth text member.1 member.2)
      texts members) :
    Value numberLength (depth + 1) (bracket '\x7b'.toUInt8 '\x7d'.toUInt8 texts)
      (.object members) := by
  cases writes with
  | nil => exact Value.emptyObject depth blank_nil
  | cons first others => exact Value.object blank_nil (members_joinCommas first others)

theorem member_colon {name text : List UInt8} {json : Json}
    (writes : Value numberLength depth text json) :
    Member numberLength depth (renderString name ++ ':'.toUInt8 :: text) name json := by
  have member := Member.intro (renderString_writes name) blank_nil blank_nil writes
  rwa [List.append_nil, List.nil_append] at member

mutual

/-- Rendering a document within the limits writes it. -/
theorem render_writes {depth : Nat} {json : Json} :
    Within numberLength depth json → Value numberLength depth (render json) json
  | .null depth => Value.null depth
  | .bool depth false => Value.false depth
  | .bool depth true => Value.true depth
  | .number depth numeral short => Value.number depth numeral short
  | .string depth content => Value.string depth (renderString_writes content)
  | .array within => value_array (renderElements_write within)
  | .object within => value_object (renderMembers_write within)

theorem renderElements_write {depth : Nat} {elements : List Json} :
    AllWithin numberLength depth elements →
      List.Forall₂ (Value numberLength depth) (renderElements elements) elements
  | .nil _ => List.Forall₂.nil
  | .cons first rest => List.Forall₂.cons (render_writes first) (renderElements_write rest)

theorem renderMembers_write {depth : Nat} {members : List (List UInt8 × Json)} :
    MembersWithin numberLength depth members →
      List.Forall₂ (fun text member => Member numberLength depth text member.1 member.2)
        (renderMembers members) members
  | .nil _ => List.Forall₂.nil
  | .cons first rest =>
    List.Forall₂.cons (member_colon (render_writes first)) (renderMembers_write rest)

end

theorem jsonText_render {json : Json} (within : Within numberLength depth json) :
    JsonText numberLength depth (render json) json :=
  ⟨[], render json, [], blank_nil, blank_nil, render_writes within, by simp⟩

end JsonGrammar
