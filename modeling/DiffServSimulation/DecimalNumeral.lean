/-
This file connects the reading of decimal literals with their writing. It names
nothing of the simulator.

A `Numeral` is a decimal number as it is written down, well formed by its fields:
a sign, digits, a fraction and an exponent. Reading its text gives back exactly
its value and takes all of it, and for an integer of the 32-bit range the whole
way through the nearest double and the saturating conversion is the identity.
-/

import DiffServSimulation.DecimalNumber
import Mathlib.Data.List.TakeWhile
import Mathlib.Data.Nat.Digits.Lemmas
import Mathlib.Tactic.IntervalCases

namespace DecimalNumber

/-! ### Numerals -/

/-- The exponent of a numeral: its letter, its sign if one is written, and its digits. -/
structure Exponent where
  capital : Bool
  sign : Option Bool
  digits : List UInt8
  areDigits : ∀ byte ∈ digits, isDigit byte = true
  nonempty : digits ≠ []

/-- A decimal number as it is written. A fraction without digits is not written, and neither is its
point. -/
structure Numeral where
  negative : Bool
  whole : List UInt8
  fraction : List UInt8
  exponent : Option Exponent
  wholeDigits : ∀ byte ∈ whole, isDigit byte = true
  nonempty : whole ≠ []
  fractionDigits : ∀ byte ∈ fraction, isDigit byte = true

/-- A sign as it is written. -/
def signText : Option Bool → List UInt8
  | none => []
  | some true => ['-'.toUInt8]
  | some false => ['+'.toUInt8]

namespace Exponent

def text (exponent : Exponent) : List UInt8 :=
  (if exponent.capital then 'E'.toUInt8 else 'e'.toUInt8) ::
    (signText exponent.sign ++ exponent.digits)

def value (exponent : Exponent) : ℤ :=
  if exponent.sign = some true then -(digitsValue 0 exponent.digits : ℤ)
  else digitsValue 0 exponent.digits

end Exponent

namespace Numeral

variable (numeral : Numeral)

def fractionText : List UInt8 :=
  if numeral.fraction = [] then [] else '.'.toUInt8 :: numeral.fraction

def exponentText : List UInt8 :=
  match numeral.exponent with
  | none => []
  | some exponent => exponent.text

def exponentValue : ℤ :=
  match numeral.exponent with
  | none => 0
  | some exponent => exponent.value

/-- What is written behind the sign. -/
def unsignedText : List UInt8 := numeral.whole ++ numeral.fractionText ++ numeral.exponentText

def text : List UInt8 := signText (if numeral.negative then some true else none) ++
  numeral.unsignedText

def magnitude : ℚ :=
  (digitsValue 0 (numeral.whole ++ numeral.fraction) : ℚ) *
    10 ^ (numeral.exponentValue - numeral.fraction.length)

/-- The number a numeral denotes. -/
def value : ℚ := if numeral.negative then -numeral.magnitude else numeral.magnitude

end Numeral

/-! ### Reading a numeral -/

theorem takeDigits_self (digits : List UInt8) (areDigits : ∀ byte ∈ digits, isDigit byte = true) :
    digits.takeWhile isDigit = digits :=
  List.takeWhile_eq_self_iff.mpr areDigits

theorem isDigit_ne_sign {byte : UInt8} (digit : isDigit byte = true) :
    byte ≠ '-'.toUInt8 ∧ byte ≠ '+'.toUInt8 := by
  constructor
  · rintro rfl
    exact absurd digit (by decide)
  · rintro rfl
    exact absurd digit (by decide)

/-- A sign that is written is read, as long as digits follow. -/
theorem signPart_signText (sign : Option Bool) (digits rest : List UInt8)
    (areDigits : ∀ byte ∈ digits, isDigit byte = true) (nonempty : digits ≠ []) :
    signPart (signText sign ++ digits ++ rest) =
      (decide (sign = some true), (signText sign).length) := by
  cases sign with
  | none =>
    obtain ⟨first, others, rfl⟩ := List.exists_cons_of_ne_nil nonempty
    have noSign := isDigit_ne_sign (areDigits first List.mem_cons_self)
    show signPart (first :: (others ++ rest)) = _
    rw [signPart, if_neg noSign.1, if_neg noSign.2]
    rfl
  | some negative => cases negative <;> rfl

theorem Exponent.exponentPart_text (exponent : Exponent) :
    exponentPart exponent.text = (exponent.value, exponent.text.length) := by
  have sign := signPart_signText exponent.sign exponent.digits [] exponent.areDigits
    exponent.nonempty
  rw [List.append_nil] at sign
  have letter : ∀ capital : Bool, (if capital then 'E'.toUInt8 else 'e'.toUInt8) = 'e'.toUInt8 ∨
      (if capital then 'E'.toUInt8 else 'e'.toUInt8) = 'E'.toUInt8 := by decide
  rw [text, exponentPart, if_pos (letter exponent.capital)]
  simp only [sign, List.drop_left, takeDigits_self _ exponent.areDigits, if_neg exponent.nonempty,
    decide_eq_true_eq, List.length_cons, List.length_append, value]
  rw [Prod.mk.injEq]
  exact ⟨rfl, by omega⟩

namespace Numeral

variable (numeral : Numeral)

theorem exponentPart_exponentText :
    exponentPart numeral.exponentText = (numeral.exponentValue, numeral.exponentText.length) := by
  unfold exponentText exponentValue
  cases numeral.exponent with
  | none => rfl
  | some exponent => exact exponent.exponentPart_text

theorem exponentText_stopsAt_digit : StopsAt isDigit numeral.exponentText := by
  unfold exponentText
  cases numeral.exponent with
  | none => simp [StopsAt]
  | some exponent =>
    obtain ⟨capital, _, _, _, _⟩ := exponent
    cases capital <;> simp [StopsAt, Exponent.text] <;> decide

theorem fractionPart_fractionText :
    fractionPart (numeral.fractionText ++ numeral.exponentText) =
      (numeral.fraction, numeral.fractionText.length) := by
  unfold fractionText
  by_cases absent : numeral.fraction = []
  · rw [if_pos absent, absent, List.nil_append]
    unfold exponentText
    cases numeral.exponent with
    | none => rfl
    | some exponent =>
      obtain ⟨capital, _, _, _, _⟩ := exponent
      cases capital <;> rfl
  · rw [if_neg absent, List.cons_append, fractionPart, if_pos rfl,
      takeWhile_append_of_stopsAt _ _ _ numeral.fractionDigits numeral.exponentText_stopsAt_digit,
      List.length_cons, Nat.add_comm]

theorem fractionText_stopsAt_digit :
    StopsAt isDigit (numeral.fractionText ++ numeral.exponentText) := by
  unfold fractionText
  by_cases absent : numeral.fraction = []
  · rw [if_pos absent]
    exact numeral.exponentText_stopsAt_digit
  · rw [if_neg absent]
    intro byte first
    cases first
    decide

theorem unsignedLiteral_unsignedText :
    unsignedLiteral numeral.unsignedText =
      some (numeral.magnitude, numeral.unsignedText.length) := by
  have whole : numeral.unsignedText.takeWhile isDigit = numeral.whole := by
    rw [unsignedText, List.append_assoc]
    exact takeWhile_append_of_stopsAt _ _ _ numeral.wholeDigits numeral.fractionText_stopsAt_digit
  have behindWhole : numeral.unsignedText.drop numeral.whole.length =
      numeral.fractionText ++ numeral.exponentText := by
    rw [unsignedText, List.append_assoc, List.drop_left]
  have behindFraction :
      numeral.unsignedText.drop (numeral.whole.length + numeral.fractionText.length) =
        numeral.exponentText := by
    rw [unsignedText, ← List.length_append, List.drop_left]
  have present : ¬ (numeral.whole = [] ∧ numeral.fraction = []) :=
    fun empty => numeral.nonempty empty.1
  simp only [unsignedLiteral, whole, behindWhole, fractionPart_fractionText, behindFraction,
    exponentPart_exponentText, if_neg present, magnitude, Option.some.injEq, Prod.mk.injEq,
    true_and]
  rw [unsignedText, List.length_append, List.length_append]

/-- Reading the text of a numeral takes all of it and gives its value. -/
theorem literal_text : literal numeral.text = some (numeral.value, numeral.text.length) := by
  have sign := signPart_signText (if numeral.negative then some true else none) numeral.whole
    (numeral.fractionText ++ numeral.exponentText) numeral.wholeDigits numeral.nonempty
  rw [List.append_assoc, ← List.append_assoc numeral.whole] at sign
  have isSign : signPart numeral.text = (numeral.negative,
      (signText (if numeral.negative then some true else none)).length) := by
    rw [text, unsignedText, sign]
    cases numeral.negative <;> rfl
  have behindSign : numeral.text.drop
      (signText (if numeral.negative then some true else none)).length =
        numeral.unsignedText := by
    rw [text, List.drop_left]
  simp only [literal, isSign, behindSign, unsignedLiteral_unsignedText, Option.map_some, value]
  rw [text, List.length_append]

/-- A numeral begins with its sign or a digit. -/
theorem first : ∃ byte rest, numeral.text = byte :: rest ∧
    (byte = '-'.toUInt8 ∨ isDigit byte = true) := by
  rw [text]
  cases numeral.negative with
  | true => exact ⟨_, _, rfl, Or.inl rfl⟩
  | false =>
    obtain ⟨digit, others, whole⟩ := List.exists_cons_of_ne_nil numeral.nonempty
    refine ⟨digit, others ++ numeral.fractionText ++ numeral.exponentText, ?_, Or.inr ?_⟩
    · simp [unsignedText, whole, signText]
    · exact numeral.wholeDigits digit (whole ▸ List.mem_cons_self)

/-- The bytes a numeral is written with. -/
theorem mem_text {byte : UInt8} (member : byte ∈ numeral.text) :
    isDigit byte = true ∨
      byte ∈ ['-'.toUInt8, '+'.toUInt8, '.'.toUInt8, 'e'.toUInt8, 'E'.toUInt8] := by
  have signs : ∀ sign, byte ∈ signText sign → byte ∈ ['-'.toUInt8, '+'.toUInt8] := by
    intro sign written
    rcases sign with _ | _ | _ <;> simp_all [signText]
  simp only [text, unsignedText, List.mem_append] at member
  rcases member with sign | (whole | fraction) | exponent
  · have isSign := signs _ sign
    simp only [List.mem_cons, List.not_mem_nil, or_false] at isSign ⊢
    tauto
  · exact Or.inl (numeral.wholeDigits byte whole)
  · unfold fractionText at fraction
    split_ifs at fraction
    · exact absurd fraction List.not_mem_nil
    · rcases List.mem_cons.mp fraction with rfl | digit
      · exact Or.inr (by decide)
      · exact Or.inl (numeral.fractionDigits byte digit)
  · unfold exponentText at exponent
    cases present : numeral.exponent with
    | none => simp [present] at exponent
    | some written =>
      simp only [present, Exponent.text, List.mem_cons, List.mem_append] at exponent
      rcases exponent with rfl | sign | digit
      · cases written.capital <;> exact Or.inr (by decide)
      · have isSign := signs _ sign
        simp only [List.mem_cons, List.not_mem_nil, or_false] at isSign ⊢
        tauto
      · exact Or.inl (written.areDigits byte digit)

theorem strtod_text :
    strtod numeral.text = some (roundToDouble numeral.value, numeral.text.length) := by
  rw [strtod, literal_text]
  rfl

end Numeral

/-! ### Integers -/

theorem roundHalfEven_intCast (value : ℤ) : roundHalfEven value = value := by
  have below : (value : ℚ) - (⌊(value : ℚ)⌋ : ℤ) < 1 / 2 := by
    rw [Int.floor_intCast, sub_self]
    norm_num
  rw [roundHalfEven, if_pos below, Int.floor_intCast]

/-- An integer that fits in the significant bits of a double is one. -/
theorem roundToDouble_intCast (value : ℤ) (small : |value| < 2 ^ 53) :
    roundToDouble value = value := by
  have bits : lastBit value ≤ 0 := by
    have magnitude : |(value : ℚ)| < 2 ^ (53 : ℤ) := by exact_mod_cast small
    have log : Int.log 2 |(value : ℚ)| < 53 := by
      by_cases zero : |(value : ℚ)| = 0
      · rw [zero, Int.log_zero_right]
        decide
      · exact (Int.lt_zpow_iff_log_lt (by decide)
          (lt_of_le_of_ne (abs_nonneg _) (Ne.symm zero))).mp (by exact_mod_cast magnitude)
    rw [lastBit]
    omega
  obtain ⟨places, isPlaces⟩ := Int.exists_eq_neg_ofNat bits
  have scaled : (value : ℚ) / 2 ^ lastBit value = ((value * 2 ^ places : ℤ) : ℚ) := by
    rw [isPlaces, zpow_neg, zpow_natCast]
    push_cast
    field_simp
  rw [roundToDouble, scaled, roundHalfEven_intCast, isPlaces, zpow_neg, zpow_natCast]
  push_cast
  field_simp

theorem truncate_intCast (value : ℤ) : truncate value = value := by
  rw [truncate, Rat.num_intCast, Rat.den_intCast]
  exact Int.tdiv_one value

/-- The conversion is exact on the 32-bit range. -/
theorem saturate_intCast (value : ℤ) (low : -2 ^ 31 ≤ value) (high : value < 2 ^ 31) :
    saturate value = Int32.ofInt value := by
  unfold saturate
  by_cases top : (2147483647 : ℚ) ≤ value
  · have isTop : value = 2147483647 := by
      have atLeast : (2147483647 : ℤ) ≤ value := by exact_mod_cast top
      omega
    rw [if_pos top, isTop]
    rfl
  rw [if_neg top]
  by_cases bottom : (value : ℚ) ≤ -2147483648
  · have isBottom : value = -2147483648 := by
      have atMost : value ≤ -2147483648 := by exact_mod_cast bottom
      omega
    rw [if_pos bottom, isBottom]
    rfl
  rw [if_neg bottom, truncate_intCast]

/-! ### Writing an integer -/

/-- The decimal digits of a number, first digit first. -/
def decimalDigits (value : Nat) : List UInt8 :=
  if value = 0 then ['0'.toUInt8]
  else ((Nat.digits 10 value).map fun digit => UInt8.ofNat (48 + digit)).reverse

theorem digit_of_lt_ten {digit : Nat} (small : digit < 10) :
    isDigit (UInt8.ofNat (48 + digit)) = true ∧ digitValue (UInt8.ofNat (48 + digit)) = digit := by
  interval_cases digit <;> decide

theorem decimalDigits_isDigit (value : Nat) :
    ∀ byte ∈ decimalDigits value, isDigit byte = true := by
  intro byte member
  unfold decimalDigits at member
  split_ifs at member
  · rw [List.mem_singleton.mp member]
    decide
  · obtain ⟨digit, isDigit, rfl⟩ := List.mem_map.mp (List.mem_reverse.mp member)
    exact (digit_of_lt_ten (Nat.digits_lt_base (by decide) isDigit)).1

theorem decimalDigits_ne_nil (value : Nat) : decimalDigits value ≠ [] := by
  unfold decimalDigits
  split_ifs with zero
  · exact List.cons_ne_nil _ _
  · rw [ne_eq, List.reverse_eq_nil_iff, List.map_eq_nil_iff]
    exact Nat.digits_ne_nil_iff_ne_zero.mpr zero

/-- Reading a reversed run of digits is Mathlib's reading of the run. -/
theorem digitsValue_reverse (digits : List Nat) (small : ∀ digit ∈ digits, digit < 10) :
    digitsValue 0 (digits.map fun digit => UInt8.ofNat (48 + digit)).reverse =
      Nat.ofDigits 10 digits := by
  induction digits with
  | nil => rfl
  | cons digit digits inductionHypothesis =>
    have rest := inductionHypothesis fun other member => small other (List.mem_cons_of_mem _ member)
    rw [digitsValue] at rest
    rw [List.map_cons, List.reverse_cons, digitsValue, List.foldl_append, rest, List.foldl_cons,
      List.foldl_nil, (digit_of_lt_ten (small digit List.mem_cons_self)).2, Nat.ofDigits_cons,
      Nat.add_comm]

theorem digitsValue_decimalDigits (value : Nat) : digitsValue 0 (decimalDigits value) = value := by
  unfold decimalDigits
  split_ifs with zero
  · rw [zero]
    rfl
  · rw [digitsValue_reverse _ fun digit member => Nat.digits_lt_base (by decide) member,
      Nat.ofDigits_digits]

/-- A number below a power of ten is written with at most as many digits. -/
theorem decimalDigits_length_le (value places : Nat) (positive : 0 < places)
    (small : value < 10 ^ places) : (decimalDigits value).length ≤ places := by
  unfold decimalDigits
  split_ifs
  · exact positive
  · rw [List.length_reverse, List.length_map]
    exact (Nat.digits_length_le_iff (by decide) value).mpr small

namespace Numeral

/-- An integer as it is usually written. -/
def ofInt (value : ℤ) : Numeral where
  negative := decide (value < 0)
  whole := decimalDigits value.natAbs
  fraction := []
  exponent := none
  wholeDigits := decimalDigits_isDigit value.natAbs
  nonempty := decimalDigits_ne_nil value.natAbs
  fractionDigits := fun _ absent => absurd absent List.not_mem_nil

theorem value_ofInt (value : ℤ) : (ofInt value).value = value := by
  have magnitude : (ofInt value).magnitude = value.natAbs := by
    show (digitsValue 0 (decimalDigits value.natAbs ++ []) : ℚ) * 10 ^ ((0 : ℤ) - (0 : Nat)) = _
    rw [List.append_nil, digitsValue_decimalDigits, Nat.cast_zero, sub_zero, zpow_zero, mul_one]
  rw [Numeral.value, magnitude]
  by_cases negative : value < 0
  · have sign : (ofInt value).negative = true := decide_eq_true negative
    rw [if_pos sign, ← Int.cast_natCast, Int.ofNat_natAbs_of_nonpos (Int.le_of_lt negative)]
    push_cast
    ring
  · have sign : ¬ (ofInt value).negative = true := by simpa [ofInt] using negative
    rw [if_neg sign, ← Int.cast_natCast, Int.natAbs_of_nonneg (Int.not_lt.mp negative)]

theorem length_text_ofInt_le (value : ℤ) (places : Nat) (positive : 0 < places)
    (small : value.natAbs < 10 ^ places) : (ofInt value).text.length ≤ places + 1 := by
  have digits := decimalDigits_length_le value.natAbs places positive small
  have sign : (signText (if (ofInt value).negative then some true else none)).length ≤ 1 := by
    cases (ofInt value).negative <;> decide
  have unsigned : (ofInt value).unsignedText = decimalDigits value.natAbs := by
    show decimalDigits value.natAbs ++ [] ++ [] = _
    rw [List.append_nil, List.append_nil]
  rw [text, unsigned, List.length_append]
  omega

end Numeral

end DecimalNumber
