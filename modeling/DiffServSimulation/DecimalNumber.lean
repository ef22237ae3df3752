/-
This file is a small library for decimal literals and the machine numbers they
denote. It names nothing of the simulator.

`strtod` reads the longest decimal literal at the front of a byte string, takes
its exact rational value, and rounds it to the nearest double, ties to even. A
value beyond the largest double is not cut off to infinity: what is done with the
result here saturates long before. `saturate` is the conversion of a double to a
32-bit integer that stops at both ends of the range.
-/

import Mathlib.Data.Int.Log
import Mathlib.Data.List.TakeWhile
import Mathlib.Data.Rat.Floor
import Mathlib.Tactic.Common
import Mathlib.Tactic.Linarith
import Mathlib.Tactic.FieldSimp
import Mathlib.Tactic.Positivity

namespace DecimalNumber

/-! ### Reading a literal -/

def isDigit (byte : UInt8) : Bool := '0'.toUInt8 ≤ byte && byte ≤ '9'.toUInt8

def digitValue (byte : UInt8) : Nat := byte.toNat - '0'.toUInt8.toNat

/-- The number a run of digits denotes, continuing from the digits already read. -/
def digitsValue (read : Nat) (digits : List UInt8) : Nat :=
  digits.foldl (fun value digit => 10 * value + digitValue digit) read

/-- Whether a minus sign stands at the front, and the length of the sign there. -/
def signPart : List UInt8 → Bool × Nat
  | [] => (false, 0)
  | sign :: _ =>
    if sign = '-'.toUInt8 then (true, 1)
    else if sign = '+'.toUInt8 then (false, 1)
    else (false, 0)

/-- The digits behind a point at the front, and the length of both. -/
def fractionPart : List UInt8 → List UInt8 × Nat
  | [] => ([], 0)
  | point :: rest =>
    if point = '.'.toUInt8 then
      (rest.takeWhile isDigit, 1 + (rest.takeWhile isDigit).length)
    else ([], 0)

/-- The exponent a letter at the front introduces, and the length of its part. Without digits
there is no such part. -/
def exponentPart : List UInt8 → Int × Nat
  | [] => (0, 0)
  | letter :: rest =>
    if letter = 'e'.toUInt8 ∨ letter = 'E'.toUInt8 then
      let sign := signPart rest
      let digits := (rest.drop sign.2).takeWhile isDigit
      if digits = [] then (0, 0)
      else
        (if sign.1 then -(digitsValue 0 digits : Int) else digitsValue 0 digits,
          1 + sign.2 + digits.length)
    else (0, 0)

/-- The exact value of an unsigned literal at the front of a byte string and its length. -/
def unsignedLiteral (bytes : List UInt8) : Option (ℚ × Nat) :=
  let whole := bytes.takeWhile isDigit
  let fraction := fractionPart (bytes.drop whole.length)
  if whole = [] ∧ fraction.1 = [] then none
  else
    let exponent := exponentPart (bytes.drop (whole.length + fraction.2))
    some ((digitsValue 0 (whole ++ fraction.1) : ℚ) * 10 ^ (exponent.1 - fraction.1.length),
      whole.length + fraction.2 + exponent.2)

/-- The exact value of a literal at the front of a byte string and its length. -/
def literal (bytes : List UInt8) : Option (ℚ × Nat) :=
  let sign := signPart bytes
  (unsignedLiteral (bytes.drop sign.2)).map fun read =>
    (if sign.1 then -read.1 else read.1, sign.2 + read.2)

/-- What stands at the front, if anything does, is not in a class of bytes. -/
def StopsAt (inClass : UInt8 → Bool) (bytes : List UInt8) : Prop :=
  ∀ byte ∈ bytes.head?, inClass byte = false

/-- Taking the bytes of a class stops where they end. -/
theorem takeWhile_append_of_stopsAt (inClass : UInt8 → Bool) (front rest : List UInt8)
    (belong : ∀ byte ∈ front, inClass byte = true) (stops : StopsAt inClass rest) :
    (front ++ rest).takeWhile inClass = front := by
  rw [List.takeWhile_append_of_pos belong]
  cases rest with
  | nil => simp
  | cons byte rest =>
    have outside : inClass byte = false := stops byte (by simp)
    simp [outside]

theorem digits_length_le (bytes : List UInt8) : (bytes.takeWhile isDigit).length ≤ bytes.length :=
  (List.takeWhile_prefix isDigit).length_le

theorem signPart_length_le (bytes : List UInt8) : (signPart bytes).2 ≤ bytes.length := by
  unfold signPart
  cases bytes with
  | nil => exact Nat.le_refl 0
  | cons sign rest =>
    simp only [List.length_cons]
    split_ifs
    · exact Nat.succ_le_succ (Nat.zero_le _)
    · exact Nat.succ_le_succ (Nat.zero_le _)
    · exact Nat.zero_le _

/-- A fraction is at least as long as its digits. -/
theorem fractionPart_length_le (bytes : List UInt8) :
    (fractionPart bytes).1.length ≤ (fractionPart bytes).2 ∧
      (fractionPart bytes).2 ≤ bytes.length := by
  unfold fractionPart
  cases bytes with
  | nil => exact ⟨Nat.le_refl 0, Nat.le_refl 0⟩
  | cons point rest =>
    have digits := digits_length_le rest
    simp only [List.length_cons]
    split_ifs
    · exact ⟨by simp, by simp only; omega⟩
    · exact ⟨Nat.le_refl 0, Nat.zero_le _⟩

theorem exponentPart_length_le (bytes : List UInt8) : (exponentPart bytes).2 ≤ bytes.length := by
  unfold exponentPart
  cases bytes with
  | nil => exact Nat.le_refl 0
  | cons letter rest =>
    have sign := signPart_length_le rest
    have digits := digits_length_le (rest.drop (signPart rest).2)
    rw [List.length_drop] at digits
    simp only [List.length_cons]
    split_ifs <;> simp only <;> omega

theorem unsignedLiteral_length (bytes : List UInt8) (value : ℚ) (length : Nat)
    (reads : unsignedLiteral bytes = some (value, length)) :
    0 < length ∧ length ≤ bytes.length := by
  have whole := digits_length_le bytes
  have fraction := fractionPart_length_le (bytes.drop (bytes.takeWhile isDigit).length)
  have exponent := exponentPart_length_le (bytes.drop ((bytes.takeWhile isDigit).length +
    (fractionPart (bytes.drop (bytes.takeWhile isDigit).length)).2))
  rw [List.length_drop] at fraction exponent
  unfold unsignedLiteral at reads
  simp only at reads
  split_ifs at reads with empty
  rw [Option.some.injEq, Prod.mk.injEq] at reads
  have nonempty : 0 < (bytes.takeWhile isDigit).length +
      (fractionPart (bytes.drop (bytes.takeWhile isDigit).length)).1.length := by
    rw [Nat.add_pos_iff_pos_or_pos, List.length_pos_iff, List.length_pos_iff]
    exact Classical.not_and_iff_not_or_not.mp empty
  rw [← reads.2]
  omega

/-- A literal takes at least one byte and no more than there are. -/
theorem literal_length (bytes : List UInt8) (value : ℚ) (length : Nat)
    (reads : literal bytes = some (value, length)) : 0 < length ∧ length ≤ bytes.length := by
  have sign := signPart_length_le bytes
  unfold literal at reads
  simp only [Option.map_eq_some_iff, Prod.mk.injEq] at reads
  obtain ⟨read, unsigned, -, total⟩ := reads
  have rest := unsignedLiteral_length _ read.1 read.2 unsigned
  rw [List.length_drop] at rest
  omega

/-! ### A literal and nothing behind it -/

theorem takeWhile_take_of_le (bytes : List UInt8) (count : Nat)
    (le : (bytes.takeWhile isDigit).length ≤ count) :
    (bytes.take count).takeWhile isDigit = bytes.takeWhile isDigit := by
  rw [← List.take_takeWhile, List.take_of_length_le le]

theorem signPart_take (bytes : List UInt8) (count : Nat) (positive : 0 < count) :
    signPart (bytes.take count) = signPart bytes := by
  obtain ⟨count, rfl⟩ := Nat.exists_eq_succ_of_ne_zero (Nat.ne_of_gt positive)
  cases bytes <;> rfl

theorem fractionPart_take (bytes : List UInt8) (count : Nat)
    (le : (fractionPart bytes).2 ≤ count) :
    fractionPart (bytes.take count) = fractionPart bytes := by
  cases bytes with
  | nil => rw [List.take_nil]
  | cons point rest =>
    rw [fractionPart] at le ⊢
    by_cases isPoint : point = '.'.toUInt8
    · rw [if_pos isPoint] at le ⊢
      simp only at le
      obtain ⟨count, rfl⟩ := Nat.exists_eq_succ_of_ne_zero (show count ≠ 0 by omega)
      have digits : (rest.takeWhile isDigit).length ≤ count := by omega
      rw [List.take_succ_cons, fractionPart, if_pos isPoint, takeWhile_take_of_le rest count digits]
    · rw [if_neg isPoint]
      cases count with
      | zero => rfl
      | succ count => rw [List.take_succ_cons, fractionPart, if_neg isPoint]

theorem exponentPart_take (bytes : List UInt8) :
    exponentPart (bytes.take (exponentPart bytes).2) = exponentPart bytes := by
  cases bytes with
  | nil => rfl
  | cons letter rest =>
    rw [exponentPart]
    by_cases isLetter : letter = 'e'.toUInt8 ∨ letter = 'E'.toUInt8
    · rw [if_pos isLetter]
      simp only
      by_cases empty : (rest.drop (signPart rest).2).takeWhile isDigit = []
      · rw [if_pos empty]
        rfl
      · rw [if_neg empty]
        have positive := List.length_pos_iff.mpr empty
        generalize isCount : (signPart rest).2 +
          ((rest.drop (signPart rest).2).takeWhile isDigit).length = count at positive
        have total : 1 + (signPart rest).2 +
            ((rest.drop (signPart rest).2).takeWhile isDigit).length = count + 1 := by omega
        have sign : signPart (rest.take count) = signPart rest :=
          signPart_take rest count (by omega)
        have digits : ((rest.take count).drop (signPart rest).2).takeWhile isDigit =
            (rest.drop (signPart rest).2).takeWhile isDigit := by
          rw [List.drop_take]
          exact takeWhile_take_of_le _ _ (by omega)
        simp only [total, List.take_succ_cons]
        rw [exponentPart, if_pos isLetter]
        simp only [sign, digits, if_neg empty, total]
    · rw [if_neg isLetter]
      rfl

theorem unsignedLiteral_take (bytes : List UInt8) (value : ℚ) (length : Nat)
    (reads : unsignedLiteral bytes = some (value, length)) :
    unsignedLiteral (bytes.take length) = some (value, length) := by
  unfold unsignedLiteral at reads
  simp only at reads
  split_ifs at reads with empty
  rw [Option.some.injEq, Prod.mk.injEq] at reads
  obtain ⟨isValue, isLength⟩ := reads
  have whole : (bytes.take length).takeWhile isDigit = bytes.takeWhile isDigit :=
    takeWhile_take_of_le bytes length (by omega)
  have fraction : fractionPart ((bytes.take length).drop (bytes.takeWhile isDigit).length) =
      fractionPart (bytes.drop (bytes.takeWhile isDigit).length) := by
    rw [List.drop_take]
    exact fractionPart_take _ _ (by omega)
  have exponent : exponentPart ((bytes.take length).drop ((bytes.takeWhile isDigit).length +
      (fractionPart (bytes.drop (bytes.takeWhile isDigit).length)).2)) =
      exponentPart (bytes.drop ((bytes.takeWhile isDigit).length +
        (fractionPart (bytes.drop (bytes.takeWhile isDigit).length)).2)) := by
    rw [List.drop_take, ← isLength, Nat.add_sub_cancel_left]
    exact exponentPart_take _
  unfold unsignedLiteral
  simp only [whole, fraction, exponent, if_neg empty, isValue, isLength]

/-- A literal is read from the bytes it takes as it is from all of them. -/
theorem literal_take (bytes : List UInt8) (value : ℚ) (length : Nat)
    (reads : literal bytes = some (value, length)) :
    literal (bytes.take length) = some (value, length) := by
  have positive := (literal_length bytes value length reads).1
  unfold literal at reads ⊢
  simp only [Option.map_eq_some_iff, Prod.mk.injEq] at reads
  obtain ⟨read, unsigned, isValue, isLength⟩ := reads
  have rest : (bytes.take length).drop (signPart bytes).2 =
      (bytes.drop (signPart bytes).2).take read.2 := by
    rw [List.drop_take, ← isLength, Nat.add_sub_cancel_left]
  simp only [signPart_take bytes length positive, rest, unsignedLiteral_take _ _ _ unsigned,
    Option.map_some, isValue, isLength]

/-! ### Rounding -/

/-- The nearest integer, ties to even. -/
def roundHalfEven (value : ℚ) : ℤ :=
  let below := ⌊value⌋
  if value - below < 1 / 2 then below
  else if 1 / 2 < value - below then below + 1
  else if below % 2 = 0 then below
  else below + 1

/-- The exponent of the last bit a double keeps of a value: 53 significant bits, and no bit below
`2 ^ (-1074)`. -/
def lastBit (value : ℚ) : ℤ := max (Int.log 2 |value| - 52) (-1074)

/-- The nearest double, with unbounded range. -/
def roundToDouble (value : ℚ) : ℚ :=
  roundHalfEven (value / 2 ^ lastBit value) * 2 ^ lastBit value

/-- `strtod`: the double a literal denotes and the number of bytes it takes. -/
def strtod (bytes : List UInt8) : Option (ℚ × Nat) :=
  (literal bytes).map fun read => (roundToDouble read.1, read.2)

theorem strtod_length (bytes : List UInt8) (value : ℚ) (length : Nat)
    (reads : strtod bytes = some (value, length)) : 0 < length ∧ length ≤ bytes.length := by
  simp only [strtod, Option.map_eq_some_iff, Prod.mk.injEq] at reads
  obtain ⟨read, exact, -, total⟩ := reads
  exact total ▸ literal_length bytes read.1 read.2 exact

theorem strtod_take (bytes : List UInt8) (value : ℚ) (length : Nat)
    (reads : strtod bytes = some (value, length)) :
    strtod (bytes.take length) = some (value, length) := by
  simp only [strtod, Option.map_eq_some_iff, Prod.mk.injEq] at reads ⊢
  obtain ⟨read, exact, isValue, isLength⟩ := reads
  exact ⟨read, isLength ▸ literal_take bytes read.1 read.2 exact, isValue, isLength⟩

/-- Truncation towards zero. -/
def truncate (value : ℚ) : ℤ := value.num.tdiv value.den

/-- The conversion to a 32-bit integer that saturates at both ends. -/
def saturate (value : ℚ) : Int32 :=
  if 2147483647 ≤ value then Int32.maxValue
  else if value ≤ -2147483648 then Int32.minValue
  else Int32.ofInt (truncate value)

end DecimalNumber
