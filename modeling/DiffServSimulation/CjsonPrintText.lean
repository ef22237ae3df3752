/-
This file says which text the printer writes for a tree, as a function of the
tree alone.

The functions follow the printer part by part, so that each part of the printer
has its text, but nothing here knows of a buffer. A tree has no text when the
printer refuses it: a node of an unknown type, or raw text that is not there. A
number is written as a numeral in all cases but one, and no number overruns the
buffer it is first written to.
-/

import DiffServSimulation.CjsonPrint

namespace DiffServSimulation

open Faulting DecimalNumber JsonGrammar

def TerminatorFree (text : List UInt8) : Prop := ∀ byte ∈ text, byte ≠ 0

theorem terminatorFree_of_all {text : List UInt8} (all : text.all (· != 0) = true) :
    TerminatorFree text := fun byte member => by simpa using List.all_eq_true.mp all byte member

/-! ### Numbers -/

/-- The numeral a finite double that is no `int` is written as: fifteen digits if they read back
as nearly the same double, and seventeen otherwise. -/
def doubleNumeral (value : ℚ) (d : Double) : Numeral :=
  if compareDouble (Double.ofRat (shortNumeral value).value) d then shortNumeral value
  else longNumeral value

/-- The numeral a number is written as, unless it is infinite or no number. -/
def numeralOf? (data : ItemData) : Option Numeral :=
  match data.valuedouble with
  | .nan => none
  | .infinity _ => none
  | .finite value isDouble inRange =>
    let d := Double.finite value isDouble inRange
    if d.eq (Double.ofInt data.valueint) then some (Numeral.ofInt data.valueint.toInt)
    else some (doubleNumeral value d)

def numberText (data : ItemData) : List UInt8 :=
  match numeralOf? data with
  | none => ascii "null"
  | some numeral => numeral.text

theorem sscanf_text (numeral : Numeral) :
    sscanf numeral.text = some (Double.ofRat numeral.value) := by
  rw [sscanf, numeral.literal_text]
  rfl

theorem sprintf_of_lt {capacity : Nat} {text : List UInt8} (fits : text.length < capacity) :
    sprintf capacity text = .ok text :=
  if_pos fits

theorem length_ofInt_toInt_le (value : Int32) :
    (Numeral.ofInt value.toInt).text.length ≤ 11 := by
  have low := value.le_toInt
  have high := value.toInt_lt
  exact Numeral.length_text_ofInt_le value.toInt 10 (by decide) (by omega)

theorem length_shortNumeral_le (value : ℚ) (isDouble : IsDouble value)
    (inRange : |value| < 2 ^ 1024) : (shortNumeral value).text.length ≤ 22 :=
  length_formatG_le 15 _ value (by decide) (natAbs_exponent_lt 15 value isDouble inRange)

theorem length_longNumeral_le (value : ℚ) (isDouble : IsDouble value)
    (inRange : |value| < 2 ^ 1024) : (longNumeral value).text.length ≤ 24 :=
  length_formatG_le 17 _ value (by decide) (natAbs_exponent_lt 17 value isDouble inRange)

theorem length_doubleNumeral_le (value : ℚ) (d : Double) (isDouble : IsDouble value)
    (inRange : |value| < 2 ^ 1024) : (doubleNumeral value d).text.length ≤ 24 := by
  have short := length_shortNumeral_le value isDouble inRange
  have long := length_longNumeral_le value isDouble inRange
  unfold doubleNumeral
  split_ifs
  · omega
  · exact long

/-- No number is written with more than twenty-four bytes. -/
theorem length_numeralOf?_le {data : ItemData} {numeral : Numeral}
    (written : numeralOf? data = some numeral) : numeral.text.length ≤ 24 := by
  unfold numeralOf? at written
  cases isDouble : data.valuedouble with
  | nan => simp [isDouble] at written
  | infinity negative => simp [isDouble] at written
  | finite value isDouble' inRange =>
    simp only [isDouble] at written
    split_ifs at written
    · rw [← Option.some.inj written]
      exact (length_ofInt_toInt_le _).trans (by decide)
    · rw [← Option.some.inj written]
      exact length_doubleNumeral_le value _ isDouble' inRange

theorem length_numberText_le (data : ItemData) : (numberText data).length ≤ 24 := by
  unfold numberText
  cases written : numeralOf? data with
  | none => decide
  | some numeral => exact length_numeralOf?_le written

/-- `number_buffer` is never overrun, and what it holds is the text. -/
theorem numberBuffer_eq (data : ItemData) : numberBuffer data = .ok (numberText data) := by
  have fits := length_numberText_le data
  unfold numberText numeralOf? at fits ⊢
  unfold numberBuffer
  cases isDouble : data.valuedouble with
  | nan => rfl
  | infinity negative => rfl
  | finite value isDouble' inRange =>
    have short := sprintf_of_lt (Nat.lt_of_le_of_lt
      (length_shortNumeral_le value isDouble' inRange) (show 22 < 26 by decide))
    have long := sprintf_of_lt (Nat.lt_of_le_of_lt
      (length_longNumeral_le value isDouble' inRange) (show 24 < 26 by decide))
    simp only [isDouble] at fits ⊢
    split_ifs at fits ⊢ with integral
    · exact sprintf_of_lt (Nat.lt_of_le_of_lt fits (by decide))
    · simp only [short, long, sscanf_text, doubleNumeral]
      split_ifs <;> rfl

theorem numberText_terminatorFree (data : ItemData) : TerminatorFree (numberText data) := by
  unfold numberText
  cases numeralOf? data with
  | none => exact terminatorFree_of_all (by decide)
  | some numeral =>
    exact fun byte member zero => numeral_terminatorFree numeral (zero ▸ member)

/-! ### Strings -/

/-- What a byte of a string is written as. -/
def escapedByte (byte : UInt8) : List UInt8 :=
  match escapeLetter? byte with
  | some letter => ['\\'.toUInt8, letter]
  | none => if byte < 32 then '\\'.toUInt8 :: unicodeEscape byte else [byte]

/-- A string in quotes. A null string is written as an empty one. -/
def stringText (string : Option CString) : List UInt8 :=
  match string with
  | none => ['"'.toUInt8, '"'.toUInt8]
  | some string => '"'.toUInt8 :: (string.bytes.flatMap escapedByte ++ ['"'.toUInt8])

theorem length_escapedByte (byte : UInt8) :
    (escapedByte byte).length = 1 + escapeCharacters byte := by
  unfold escapedByte escapeCharacters
  cases escapeLetter? byte with
  | some letter => rfl
  | none =>
    simp only [Option.isSome_none, Bool.false_eq_true, if_false]
    split_ifs <;> rfl

/-- The characters counted for escaping are the ones that are written. -/
theorem length_flatMap_escapedByte (bytes : List UInt8) :
    (bytes.flatMap escapedByte).length = bytes.length + (bytes.map escapeCharacters).sum := by
  induction bytes with
  | nil => rfl
  | cons byte bytes inductionHypothesis =>
    rw [List.flatMap_cons, List.length_append, inductionHypothesis, length_escapedByte,
      List.length_cons, List.map_cons, List.sum_cons]
    omega

/-- Without characters to escape a string is copied as it is. -/
theorem flatMap_escapedByte_of_sum_eq_zero (bytes : List UInt8)
    (plain : (bytes.map escapeCharacters).sum = 0) : bytes.flatMap escapedByte = bytes := by
  induction bytes with
  | nil => rfl
  | cons byte bytes inductionHypothesis =>
    rw [List.map_cons, List.sum_cons, Nat.add_eq_zero_iff] at plain
    have single : escapedByte byte = [byte] := by
      have none := plain.1
      unfold escapeCharacters at none
      unfold escapedByte
      cases letter : escapeLetter? byte with
      | some letter => simp [letter] at none
      | none =>
        by_cases control : byte < 32
        · simp [letter, control] at none
        · simp only [if_neg control]
    rw [List.flatMap_cons, single, inductionHypothesis plain.2, List.singleton_append]

theorem hexByte_ne_zero (digit : Nat) (small : digit < 16) : hexByte digit ≠ 0 := by
  interval_cases digit <;> decide

theorem escapedByte_terminatorFree (byte : UInt8) (nonzero : byte ≠ 0) :
    TerminatorFree (escapedByte byte) := by
  unfold TerminatorFree escapedByte
  cases letter : escapeLetter? byte with
  | some letter =>
    simp only [List.mem_cons, List.not_mem_nil, or_false, forall_eq_or_imp, forall_eq]
    refine ⟨by decide, ?_⟩
    unfold escapeLetter? at letter
    split_ifs at letter <;> (rw [← Option.some.inj letter]; decide)
  | none =>
    simp only
    split_ifs with control
    · have small : byte.toNat < 32 := UInt8.lt_iff_toNat_lt.mp control
      simp only [unicodeEscape, List.mem_cons, List.not_mem_nil, or_false, forall_eq_or_imp,
        forall_eq]
      exact ⟨by decide, by decide, by decide, by decide, hexByte_ne_zero _ (by omega),
        hexByte_ne_zero _ (by omega)⟩
    · simpa using nonzero

theorem stringText_terminatorFree (string : Option CString) :
    TerminatorFree (stringText string) := by
  unfold stringText
  cases string with
  | none => exact terminatorFree_of_all (by decide)
  | some string =>
    unfold TerminatorFree
    simp only [List.mem_cons, List.mem_append, List.not_mem_nil, or_false, List.mem_flatMap]
    rintro byte (rfl | ⟨other, member, escaped⟩ | rfl)
    · decide
    · exact escapedByte_terminatorFree other (string.noTerminator other member) byte escaped
    · decide

/-! ### Trees -/

/-- Two texts one behind the other, if both are there. -/
def joined : Option (List UInt8) → Option (List UInt8) → Option (List UInt8)
  | some first, some second => some (first ++ second)
  | _, _ => none

theorem joined_eq_some_iff {first second : Option (List UInt8)} {text : List UInt8} :
    joined first second = some text ↔
      ∃ front rest, first = some front ∧ second = some rest ∧ text = front ++ rest := by
  cases first with
  | none => simp [joined]
  | some front =>
    cases second with
    | none => simp [joined]
    | some rest =>
      simp only [joined, Option.some.injEq]
      constructor
      · rintro rfl
        exact ⟨front, rest, rfl, rfl, rfl⟩
      · rintro ⟨_, _, rfl, rfl, rfl⟩
        rfl

def contentsText (array object : Option (List UInt8)) (data : ItemData) : Option (List UInt8) :=
  match data.type with
  | .null => some (ascii "null")
  | .false => some (ascii "false")
  | .true => some (ascii "true")
  | .number => some (numberText data)
  | .raw => data.valuestring.map CString.bytes
  | .string => some (stringText data.valuestring)
  | .array => array
  | .object => object
  | .invalid => none

def tabs (depth : Nat) : List UInt8 := List.replicate depth '\t'.toUInt8

/-- Some bytes, if the text is formatted. -/
def whenFormatted (format : Bool) (bytes : List UInt8) : List UInt8 := if format then bytes else []

def arrayText (elements : Option (List UInt8)) : Option (List UInt8) :=
  joined (some ['['.toUInt8]) (joined elements (some [']'.toUInt8]))

def objectText (format : Bool) (depth : Nat) (members : Option (List UInt8)) :
    Option (List UInt8) :=
  joined (some ('\x7b'.toUInt8 :: whenFormatted format ['\n'.toUInt8]))
    (joined members (some (whenFormatted format (tabs depth) ++ ['\x7d'.toUInt8])))

def commaText (format last : Bool) : List UInt8 :=
  if last then [] else ','.toUInt8 :: whenFormatted format [' '.toUInt8]

def separatorText (format last : Bool) : List UInt8 :=
  (if last then [] else [','.toUInt8]) ++ whenFormatted format ['\n'.toUInt8]

mutual

/-- The elements of an array, whose own depth is given. -/
def elementsText (format : Bool) (depth : Nat) : CJSON → Option (List UInt8)
  | .null => some []
  | .node next child data =>
    joined (contentsText (arrayText (elementsText format (depth + 1) child))
      (objectText format depth (membersText format (depth + 1) child)) data)
    (joined (some (commaText format next.isNull)) (elementsText format depth next))

/-- The members of an object. -/
def membersText (format : Bool) (depth : Nat) : CJSON → Option (List UInt8)
  | .null => some []
  | .node next child data =>
    joined (some (whenFormatted format (tabs depth)))
    (joined (some (stringText data.string))
    (joined (some (':'.toUInt8 :: whenFormatted format ['\t'.toUInt8]))
    (joined (contentsText (arrayText (elementsText format (depth + 1) child))
      (objectText format depth (membersText format (depth + 1) child)) data)
    (joined (some (separatorText format next.isNull)) (membersText format depth next)))))

end

/-- The text of the node a pointer leads to. -/
def valueText (format : Bool) (depth : Nat) : CJSON → Option (List UInt8)
  | .null => none
  | .node _ child data =>
    contentsText (arrayText (elementsText format (depth + 1) child))
      (objectText format depth (membersText format (depth + 1) child)) data

end DiffServSimulation
