/-
This file is part of the library for decimal literals and machine numbers: how
`printf` writes a double with `%g`. It names nothing of the simulator.

The value is rounded to the significant digits asked for, the digits are placed
around a point, and zeros at the end of the fraction are dropped. The result is a
numeral, so reading it back is what the library says of numerals. With seventeen
digits a double is read back exactly.
-/

import DiffServSimulation.DoubleNumber
import Mathlib.Data.List.DropRight

namespace DecimalNumber

/-! ### Digits -/

/-- The lowest decimal digits of a number, first digit first. -/
def fixedDigits : Nat → Nat → List UInt8
  | 0, _ => []
  | places + 1, value => fixedDigits places (value / 10) ++ [UInt8.ofNat (48 + value % 10)]

theorem fixedDigits_length (places value : Nat) : (fixedDigits places value).length = places := by
  induction places generalizing value with
  | zero => rfl
  | succ places inductionHypothesis =>
    rw [fixedDigits, List.length_append, inductionHypothesis, List.length_singleton]

theorem fixedDigits_isDigit (places value : Nat) :
    ∀ byte ∈ fixedDigits places value, isDigit byte = true := by
  induction places generalizing value with
  | zero => exact fun _ absent => absurd absent List.not_mem_nil
  | succ places inductionHypothesis =>
    intro byte member
    rw [fixedDigits, List.mem_append, List.mem_singleton] at member
    rcases member with front | rfl
    · exact inductionHypothesis _ byte front
    · exact (digit_of_lt_ten (Nat.mod_lt value (by decide))).1

theorem digitsValue_append (read : Nat) (front rest : List UInt8) :
    digitsValue read (front ++ rest) = digitsValue (digitsValue read front) rest :=
  List.foldl_append

theorem digitsValue_fixedDigits (places value : Nat) :
    digitsValue 0 (fixedDigits places value) = value % 10 ^ places := by
  induction places generalizing value with
  | zero => rw [pow_zero, Nat.mod_one]; rfl
  | succ places inductionHypothesis =>
    rw [fixedDigits, digitsValue_append, inductionHypothesis]
    show 10 * (value / 10 % 10 ^ places) + digitValue (UInt8.ofNat (48 + value % 10)) = _
    rw [(digit_of_lt_ten (Nat.mod_lt value (by decide))).2, pow_succ, Nat.mul_comm (10 ^ places),
      Nat.mod_mul, Nat.add_comm]

/-- Zeros in front do not count. -/
theorem digitsValue_zeros_append (count : Nat) (digits : List UInt8) :
    digitsValue 0 (List.replicate count '0'.toUInt8 ++ digits) = digitsValue 0 digits := by
  induction count with
  | zero => rfl
  | succ count inductionHypothesis => exact inductionHypothesis

/-- Each zero at the end is a factor of ten. -/
theorem digitsValue_append_zeros (count read : Nat) (digits : List UInt8) :
    digitsValue read (digits ++ List.replicate count '0'.toUInt8) =
      digitsValue read digits * 10 ^ count := by
  induction count with
  | zero => rw [List.replicate_zero, List.append_nil, pow_zero, Nat.mul_one]
  | succ count inductionHypothesis =>
    rw [List.replicate_succ', ← List.append_assoc, digitsValue_append, inductionHypothesis]
    show 10 * (digitsValue read digits * 10 ^ count) + 0 = _
    rw [pow_succ]
    ring

/-- Digits without the zeros at their end. -/
def stripZeros (digits : List UInt8) : List UInt8 := digits.rdropWhile (· == '0'.toUInt8)

theorem stripZeros_append_zeros (digits : List UInt8) :
    ∃ count, digits = stripZeros digits ++ List.replicate count '0'.toUInt8 := by
  refine ⟨(digits.rtakeWhile (· == '0'.toUInt8)).length, ?_⟩
  have zeros : digits.rtakeWhile (· == '0'.toUInt8) =
      List.replicate (digits.rtakeWhile (· == '0'.toUInt8)).length '0'.toUInt8 :=
    List.eq_replicate_of_mem fun byte member => by simpa using List.mem_rtakeWhile_imp member
  rw [← zeros, stripZeros, List.rdropWhile_append_rtakeWhile]

theorem mem_of_mem_stripZeros {digits : List UInt8} {byte : UInt8}
    (member : byte ∈ stripZeros digits) : byte ∈ digits :=
  (List.rdropWhile_prefix _ digits).subset member

theorem stripZeros_length_le (digits : List UInt8) : (stripZeros digits).length ≤ digits.length :=
  (List.rdropWhile_prefix _ digits).length_le

/-! ### Placing the point -/

/-- Digits, of which there is one at least. -/
structure Digits where
  bytes : List UInt8
  areDigits : ∀ byte ∈ bytes, isDigit byte = true
  nonempty : bytes ≠ []

/-- The digits with a point behind the first few of them. -/
def Digits.placed (digits : Digits) (negative : Bool) (whole : Nat) (positive : 0 < whole)
    (exponent : Option Exponent) : Numeral where
  negative := negative
  whole := digits.bytes.take whole
  fraction := stripZeros (digits.bytes.drop whole)
  exponent := exponent
  wholeDigits := fun byte member => digits.areDigits byte (List.mem_of_mem_take member)
  nonempty := by
    rw [ne_eq, List.take_eq_nil_iff, not_or]
    exact ⟨Nat.ne_of_gt positive, digits.nonempty⟩
  fractionDigits := fun byte member =>
    digits.areDigits byte (List.mem_of_mem_drop (mem_of_mem_stripZeros member))

theorem Digits.magnitude_placed (digits : Digits) (negative : Bool) (whole : Nat)
    (positive : 0 < whole) (enough : whole ≤ digits.bytes.length) (exponent : Option Exponent) :
    (digits.placed negative whole positive exponent).magnitude =
      digitsValue 0 digits.bytes *
        10 ^ ((digits.placed negative whole positive exponent).exponentValue + whole -
          digits.bytes.length) := by
  obtain ⟨count, split⟩ := stripZeros_append_zeros (digits.bytes.drop whole)
  have lengths : digits.bytes.length =
      whole + (stripZeros (digits.bytes.drop whole)).length + count := by
    have total := congrArg List.length split
    rw [List.length_drop, List.length_append, List.length_replicate] at total
    omega
  have value : digitsValue 0 digits.bytes =
      digitsValue 0 (digits.bytes.take whole ++ stripZeros (digits.bytes.drop whole)) *
        10 ^ count := by
    rw [← digitsValue_append_zeros, List.append_assoc, ← split, List.take_append_drop]
  generalize isExponent : (digits.placed negative whole positive exponent).exponentValue = places
  rw [Numeral.magnitude, isExponent, value, lengths]
  show (digitsValue 0 (digits.bytes.take whole ++ stripZeros (digits.bytes.drop whole)) : ℚ) *
    10 ^ (places - (stripZeros (digits.bytes.drop whole)).length) = _
  push_cast
  rw [mul_assoc, ← zpow_natCast (10 : ℚ) count, ← zpow_add₀ (by norm_num)]
  congr 2
  ring

theorem Digits.length_placed_le (digits : Digits) (negative : Bool) (whole : Nat)
    (positive : 0 < whole) (enough : whole ≤ digits.bytes.length) (exponent : Option Exponent) :
    (digits.placed negative whole positive exponent).text.length ≤ digits.bytes.length + 2 +
      (digits.placed negative whole positive exponent).exponentText.length := by
  have stripped := stripZeros_length_le (digits.bytes.drop whole)
  rw [List.length_drop] at stripped
  have sign : (signText (if negative then some true else none)).length ≤ 1 := by
    cases negative <;> decide
  have fraction : (digits.placed negative whole positive exponent).fractionText.length ≤
      (stripZeros (digits.bytes.drop whole)).length + 1 := by
    unfold Numeral.fractionText
    split_ifs
    · exact Nat.zero_le _
    · exact Nat.le_refl _
  have front : (digits.placed negative whole positive exponent).whole.length = whole :=
    List.length_take_of_le enough
  rw [Numeral.text, Numeral.unsignedText, List.length_append, List.length_append,
    List.length_append, front]
  show (signText (if negative then some true else none)).length + _ ≤ _
  omega

/-! ### Significant digits -/

/-- The significand of a value rounded to some significant digits, and its decimal exponent. -/
def scientific (precision : Nat) (value : ℚ) : Nat × ℤ :=
  let exponent := Int.log 10 |value|
  let significand := (roundHalfEven (|value| / 10 ^ (exponent + 1 - precision))).toNat
  if significand = 10 ^ precision then (10 ^ (precision - 1), exponent + 1)
  else (significand, exponent)

/-- The size of a value rounded to some significant digits. -/
def roundDecimal (precision : Nat) (value : ℚ) : ℚ :=
  (scientific precision value).1 * 10 ^ ((scientific precision value).2 + 1 - precision)

theorem ten_zpow_pos (places : ℤ) : (0 : ℚ) < 10 ^ places := zpow_pos (by norm_num) places

/-- What is rounded to an integer of some digits is below the next power of ten. -/
theorem scaled_lt (precision : Nat) (value : ℚ) :
    |value| / 10 ^ (Int.log 10 |value| + 1 - precision) < (10 : ℚ) ^ precision := by
  have below := Int.lt_zpow_succ_log_self (b := 10) (by decide) |value|
  rw [div_lt_iff₀ (ten_zpow_pos _), ← zpow_natCast, ← zpow_add₀ (by norm_num)]
  have exponents : (precision : ℤ) + (Int.log 10 |value| + 1 - precision) =
      Int.log 10 |value| + 1 := by ring
  rw [exponents]
  exact_mod_cast below

/-- The significand has no more digits than asked for. -/
theorem scientific_lt (precision : Nat) (positive : 0 < precision) (value : ℚ) :
    (scientific precision value).1 < 10 ^ precision := by
  have scaled := scaled_lt precision value
  have nonneg : 0 ≤ |value| / 10 ^ (Int.log 10 |value| + 1 - precision) :=
    div_nonneg (abs_nonneg value) (ten_zpow_pos _).le
  have small := abs_roundHalfEven_le (|value| / 10 ^ (Int.log 10 |value| + 1 - precision))
    (10 ^ precision) (by rw [abs_of_nonneg nonneg]; push_cast; exact scaled.le)
  unfold scientific
  simp only
  split_ifs with full
  · exact Nat.pow_lt_pow_right (by decide) (by omega)
  · refine lt_of_le_of_ne ?_ full
    rw [Int.toNat_le]
    push_cast
    exact (abs_le.mp small).2

theorem roundDecimal_eq (precision : Nat) (positive : 0 < precision) (value : ℚ) :
    roundDecimal precision value =
      roundHalfEven (|value| / 10 ^ (Int.log 10 |value| + 1 - precision)) *
        10 ^ (Int.log 10 |value| + 1 - precision) := by
  have nonneg := roundHalfEven_nonneg (|value| / 10 ^ (Int.log 10 |value| + 1 - precision))
    (div_nonneg (abs_nonneg value) (ten_zpow_pos _).le)
  have cast : ((roundHalfEven (|value| / 10 ^ (Int.log 10 |value| + 1 - precision))).toNat : ℚ) =
      roundHalfEven (|value| / 10 ^ (Int.log 10 |value| + 1 - precision)) := by
    exact_mod_cast Int.toNat_of_nonneg nonneg
  unfold roundDecimal scientific
  simp only
  split_ifs with full
  · rw [← cast, full]
    push_cast
    rw [← zpow_natCast, ← zpow_natCast, ← zpow_add₀ (by norm_num), ← zpow_add₀ (by norm_num)]
    congr 1
    omega
  · simp only [cast]

/-- Rounding to some digits moves a value by half a unit in the last one at most. -/
theorem roundDecimal_close (precision : Nat) (positive : 0 < precision) (value : ℚ) :
    abs (roundDecimal precision value - |value|) * (2 * 10 ^ (precision - 1)) ≤ |value| := by
  rw [roundDecimal_eq precision positive]
  by_cases zero : value = 0
  · subst zero
    rw [abs_zero, zero_div, ← Int.cast_zero (R := ℚ), roundHalfEven_intCast]
    norm_num
  have unit := ten_zpow_pos (Int.log 10 |value| + 1 - precision)
  have least := Int.zpow_log_le_self (b := 10) (by decide) (abs_pos.mpr zero)
  have half := abs_roundHalfEven_sub_le (|value| / 10 ^ (Int.log 10 |value| + 1 - precision))
  have last : (10 : ℚ) ^ (Int.log 10 |value| + 1 - precision) * 10 ^ (precision - 1) =
      10 ^ Int.log 10 |value| := by
    rw [← zpow_natCast, ← zpow_add₀ (by norm_num)]
    congr 1
    omega
  generalize (10 : ℚ) ^ (Int.log 10 |value| + 1 - precision) = place at unit half last ⊢
  have moved : (roundHalfEven (|value| / place) : ℚ) * place - |value| =
      (roundHalfEven (|value| / place) - |value| / place) * place := by
    field_simp
  rw [moved, abs_mul, abs_of_pos unit]
  calc |(roundHalfEven (|value| / place) : ℚ) - |value| / place| * place *
        (2 * 10 ^ (precision - 1))
      ≤ 1 / 2 * place * (2 * 10 ^ (precision - 1)) := by gcongr
    _ = place * 10 ^ (precision - 1) := by ring
    _ = 10 ^ Int.log 10 |value| := last
    _ ≤ |value| := by exact_mod_cast least

/-! ### The conversion -/

/-- An exponent as `printf` writes it: with its sign, and with two digits at least. -/
def exponentOf (places : ℤ) : Exponent where
  capital := false
  sign := some (decide (places < 0))
  digits :=
    if places.natAbs < 10 then '0'.toUInt8 :: decimalDigits places.natAbs
    else decimalDigits places.natAbs
  areDigits := by
    have digits := decimalDigits_isDigit places.natAbs
    split_ifs
    · exact List.forall_mem_cons.mpr ⟨by decide, digits⟩
    · exact digits
  nonempty := by
    split_ifs
    · exact List.cons_ne_nil _ _
    · exact decimalDigits_ne_nil _

theorem value_exponentOf (places : ℤ) : (exponentOf places).value = places := by
  have digits : digitsValue 0 (exponentOf places).digits = places.natAbs := by
    show digitsValue 0 (if _ then _ else _) = _
    split_ifs
    · exact (digitsValue_zeros_append 1 _).trans (digitsValue_decimalDigits _)
    · exact digitsValue_decimalDigits _
  unfold Exponent.value
  rw [digits]
  show (if some (decide (places < 0)) = some true then _ else _) = _
  simp only [Option.some.injEq, decide_eq_true_eq]
  split_ifs <;> omega

theorem length_exponentOf_le (places : ℤ) (small : places.natAbs < 1000) :
    (exponentOf places).text.length ≤ 5 := by
  have digits := decimalDigits_length_le places.natAbs 3 (by decide) small
  have written : (exponentOf places).digits.length ≤ 3 := by
    show (if _ then _ else _ : List UInt8).length ≤ 3
    split_ifs with single
    · have one := decimalDigits_length_le places.natAbs 1 (by decide) single
      rw [List.length_cons]
      omega
    · exact digits
  rw [Exponent.text, List.length_cons, List.length_append]
  show (signText (some (decide (places < 0)))).length + _ + 1 ≤ 5
  have sign : (signText (some (decide (places < 0)))).length = 1 := by
    cases decide (places < 0) <;> rfl
  omega

/-- A significand written with all its digits, behind some zeros. -/
def paddedDigits (zeros precision : Nat) (positive : 0 < precision) (significand : Nat) :
    Digits where
  bytes := List.replicate zeros '0'.toUInt8 ++ fixedDigits precision significand
  areDigits byte member := by
    rcases List.mem_append.mp member with zero | digit
    · rw [List.eq_of_mem_replicate zero]
      decide
    · exact fixedDigits_isDigit _ _ byte digit
  nonempty := by
    rw [ne_eq, List.append_eq_nil_iff, ← List.length_eq_zero_iff (l := fixedDigits _ _),
      fixedDigits_length]
    omega

theorem paddedDigits_length (zeros precision : Nat) (positive : 0 < precision)
    (significand : Nat) :
    (paddedDigits zeros precision positive significand).bytes.length = zeros + precision := by
  rw [paddedDigits, List.length_append, List.length_replicate, fixedDigits_length]

theorem digitsValue_paddedDigits (zeros precision : Nat) (positive : 0 < precision)
    (significand : Nat) (small : significand < 10 ^ precision) :
    digitsValue 0 (paddedDigits zeros precision positive significand).bytes = significand := by
  rw [paddedDigits, digitsValue_zeros_append, digitsValue_fixedDigits, Nat.mod_eq_of_lt small]

/-- `%.{p}g` for a finite value and a precision `p`. -/
def formatG (precision : Nat) (positive : 0 < precision) (value : ℚ) : Numeral :=
  let exponent := (scientific precision value).2
  let digits := fun zeros => paddedDigits zeros precision positive (scientific precision value).1
  if exponent < -4 ∨ precision ≤ exponent then
    (digits 0).placed (decide (value < 0)) 1 (by decide) (some (exponentOf exponent))
  else if exponent < 0 then
    (digits (-exponent).toNat).placed (decide (value < 0)) 1 (by decide) none
  else (digits 0).placed (decide (value < 0)) (exponent.toNat + 1) (Nat.succ_pos _) none

section Format

variable (precision : Nat) (positive : 0 < precision) (value : ℚ)

theorem negative_formatG : (formatG precision positive value).negative = decide (value < 0) := by
  unfold formatG
  simp only
  split_ifs <;> rfl

theorem magnitude_formatG :
    (formatG precision positive value).magnitude = roundDecimal precision value := by
  have small := scientific_lt precision positive value
  have digits := fun zeros =>
    digitsValue_paddedDigits zeros precision positive (scientific precision value).1 small
  have lengths := fun zeros =>
    paddedDigits_length zeros precision positive (scientific precision value).1
  unfold formatG roundDecimal
  simp only
  split_ifs with isLarge isSmall
  · rw [Digits.magnitude_placed _ _ _ _ (by rw [lengths]; omega), digits, lengths]
    congr 2
    show (exponentOf (scientific precision value).2).value + ((1 : Nat) : ℤ) - _ = _
    rw [value_exponentOf]
    push_cast
    ring
  · rw [Digits.magnitude_placed _ _ _ _ (by rw [lengths]; omega), digits, lengths]
    congr 2
    show (0 : ℤ) + ((1 : Nat) : ℤ) - _ = _
    omega
  · rw [Digits.magnitude_placed _ _ _ _ (by rw [lengths]; omega), digits, lengths]
    congr 2
    show (0 : ℤ) + (((scientific precision value).2.toNat + 1 : Nat) : ℤ) - _ = _
    omega

/-- What is written denotes the value up to half a unit in the last significant digit. -/
theorem value_formatG_close :
    abs ((formatG precision positive value).value - value) * (2 * 10 ^ (precision - 1)) ≤
      |value| := by
  have close := roundDecimal_close precision positive value
  have same : abs ((formatG precision positive value).value - value) =
      abs (roundDecimal precision value - |value|) := by
    rw [Numeral.value, magnitude_formatG, negative_formatG]
    by_cases negative : value < 0
    · rw [if_pos (decide_eq_true negative), abs_of_neg negative, ← abs_neg]
      congr 1
      ring
    · rw [if_neg (by simpa using negative), abs_of_nonneg (not_lt.mp negative)]
  rw [same]
  exact close

/-- The length of what is written, when the exponent has three digits at most. -/
theorem length_formatG_le (four : 4 ≤ precision)
    (small : (scientific precision value).2.natAbs < 1000) :
    (formatG precision positive value).text.length ≤ precision + 7 := by
  have lengths := fun zeros =>
    paddedDigits_length zeros precision positive (scientific precision value).1
  unfold formatG
  simp only
  split_ifs with isLarge isSmall
  · refine (Digits.length_placed_le _ _ _ _ (by rw [lengths]; omega) _).trans ?_
    have exponent := length_exponentOf_le _ small
    rw [lengths]
    show _ + (exponentOf (scientific precision value).2).text.length ≤ _
    omega
  · refine (Digits.length_placed_le _ _ _ _ (by rw [lengths]; omega) _).trans ?_
    rw [lengths]
    show _ + 0 ≤ _
    omega
  · refine (Digits.length_placed_le _ _ _ _ (by rw [lengths]; omega) _).trans ?_
    rw [lengths]
    show _ + 0 ≤ _
    omega

end Format

/-! ### Doubles -/

/-- The decimal exponent of a double has three digits at most. -/
theorem natAbs_exponent_lt (precision : Nat) (value : ℚ) (isDouble : IsDouble value)
    (inRange : |value| < 2 ^ 1024) : (scientific precision value).2.natAbs < 1000 := by
  have log : -330 ≤ Int.log 10 |value| ∧ Int.log 10 |value| < 310 := by
    by_cases zero : value = 0
    · rw [zero, abs_zero, Int.log_zero_right]
      decide
    have positive := abs_pos.mpr zero
    have least := isDouble.two_zpow_le zero
    constructor
    · refine (Int.zpow_le_iff_le_log (by decide) positive).mp (le_trans ?_ least)
      have powers : 2 ^ 1074 ≤ 10 ^ 330 := by decide +kernel
      rw [zpow_neg, zpow_neg]
      exact inv_anti₀ (two_zpow_pos 1074) (by exact_mod_cast powers)
    · refine (Int.lt_zpow_iff_log_lt (by decide) positive).mp (inRange.trans ?_)
      have powers : 2 ^ 1024 < 10 ^ 310 := by decide +kernel
      exact_mod_cast powers
  unfold scientific
  simp only
  split_ifs <;> simp only <;> omega

/-- With seventeen digits a double is read back as itself. -/
theorem ofRat_formatG (value : ℚ) (isDouble : IsDouble value) (inRange : |value| < 2 ^ 1024) :
    Double.ofRat (formatG 17 (by decide) value).value = .finite value isDouble inRange :=
  Double.ofRat_of_close _ value isDouble inRange (value_formatG_close 17 (by decide) value)

/-! ### The end of the range -/

/-- The size of the least values that fifteen digits put out of range. -/
def overflowThreshold : ℚ := (179769313486231 + 1 / 2) * 10 ^ (294 : ℤ)

/-- Near the end of the range the last of fifteen digits is worth `10 ^ 294`. -/
theorem roundDecimal_cases (value : ℚ) (inRange : |value| < 2 ^ 1024) :
    roundDecimal 15 value ≤ 179769313486231 * 10 ^ (294 : ℤ) ∧ |value| < overflowThreshold ∨
      179769313486232 * 10 ^ (294 : ℤ) ≤ roundDecimal 15 value ∧ overflowThreshold ≤ |value| := by
  have log : Int.log 10 |value| < 309 := by
    by_cases zero : value = 0
    · rw [zero, abs_zero, Int.log_zero_right]
      decide
    refine (Int.lt_zpow_iff_log_lt (by decide) (abs_pos.mpr zero)).mp (inRange.trans ?_)
    have powers : 2 ^ 1024 < 10 ^ 309 := by decide +kernel
    exact_mod_cast powers
  have positive := ten_zpow_pos 294
  rw [roundDecimal_eq 15 (by decide), overflowThreshold]
  by_cases same : Int.log 10 |value| = 308
  · have place : (308 : ℤ) + 1 - ((15 : ℕ) : ℤ) = 294 := by norm_num
    have odd := roundHalfEven_le_odd_iff (|value| / 10 ^ (294 : ℤ)) 179769313486231 (by decide)
    rw [same, place]
    by_cases low : roundHalfEven (|value| / 10 ^ (294 : ℤ)) ≤ 179769313486231
    · refine Or.inl ⟨mul_le_mul_of_nonneg_right (by exact_mod_cast low) positive.le, ?_⟩
      rw [← div_lt_iff₀ positive]
      exact_mod_cast odd.mp low
    · have high : 179769313486232 ≤ roundHalfEven (|value| / 10 ^ (294 : ℤ)) := by omega
      refine Or.inr ⟨mul_le_mul_of_nonneg_right (by exact_mod_cast high) positive.le, ?_⟩
      rw [← le_div_iff₀ positive]
      exact_mod_cast not_lt.mp (mt odd.mpr low)
  · -- Below `10 ^ 308` both sides are far from the end.
    have unit := ten_zpow_pos (Int.log 10 |value| + 1 - ((15 : ℕ) : ℤ))
    have small := abs_roundHalfEven_le
      (|value| / 10 ^ (Int.log 10 |value| + 1 - ((15 : ℕ) : ℤ))) (10 ^ 15) (by
        rw [abs_of_nonneg (div_nonneg (abs_nonneg value) unit.le)]
        push_cast
        exact (scaled_lt 15 value).le)
    have small' : (roundHalfEven (|value| / 10 ^ (Int.log 10 |value| + 1 - ((15 : ℕ) : ℤ))) : ℚ) ≤
        10 ^ 15 := by exact_mod_cast (abs_le.mp small).2
    have below := (div_lt_iff₀ unit).mp (scaled_lt 15 value)
    have place : (10 : ℚ) ^ (Int.log 10 |value| + 1 - ((15 : ℕ) : ℤ)) ≤ 10 ^ (293 : ℤ) :=
      zpow_le_zpow_right₀ (by norm_num) (by push_cast; omega)
    have next : (10 : ℚ) ^ (294 : ℤ) = 10 * 10 ^ (293 : ℤ) := by
      rw [← zpow_one_add₀ (by norm_num)]
      rfl
    rw [next] at positive ⊢
    generalize (10 : ℚ) ^ (293 : ℤ) = limit at place positive ⊢
    generalize (10 : ℚ) ^ (Int.log 10 |value| + 1 - ((15 : ℕ) : ℤ)) = unit' at *
    have product := mul_le_mul_of_nonneg_right small' unit.le
    exact Or.inl ⟨by linarith, by linarith⟩

theorem abs_value_formatG (precision : Nat) (positive : 0 < precision) (value : ℚ) :
    |(formatG precision positive value).value| = roundDecimal precision value := by
  have nonneg : 0 ≤ roundDecimal precision value :=
    mul_nonneg (Nat.cast_nonneg _) (ten_zpow_pos _).le
  rw [Numeral.value, magnitude_formatG]
  split_ifs
  · rw [abs_neg, abs_of_nonneg nonneg]
  · exact abs_of_nonneg nonneg

/-- Fifteen digits put exactly the doubles from the threshold on out of range. -/
theorem ofRat_formatG_infinite_iff (value : ℚ) (inRange : |value| < 2 ^ 1024) :
    (∃ negative, Double.ofRat (formatG 15 (by decide) value).value = .infinity negative) ↔
      overflowThreshold ≤ |value| := by
  have read := abs_value_formatG 15 (by decide) value
  have ten : (10 : ℚ) ^ (294 : ℤ) = 10 ^ 294 := zpow_natCast 10 294
  have two : (2 : ℚ) ^ (971 : ℤ) = 2 ^ 971 := zpow_natCast 2 971
  unfold Double.ofRat
  rcases roundDecimal_cases value inRange with ⟨low, below⟩ | ⟨high, above⟩
  · have fits : |roundToDouble (formatG 15 (by decide) value).value| < 2 ^ 1024 := by
      have powers : 179769313486231 * 10 ^ 294 ≤ 9007199254740991 * 2 ^ 971 := by decide +kernel
      have least : ((179769313486231 * 10 ^ 294 : ℕ) : ℚ) ≤ (9007199254740991 * 2 ^ 971 : ℕ) :=
        Nat.cast_le.mpr powers
      have greatest : (2 ^ 53 - 1 : ℚ) = 9007199254740991 := by norm_num
      simp only [Nat.cast_mul, Nat.cast_pow, Nat.cast_ofNat] at least
      refine abs_roundToDouble_lt _ ?_
      rw [read, two, greatest]
      exact (low.trans_eq (by rw [ten])).trans least
    rw [dif_pos fits]
    exact iff_of_false (by simp) (not_le.mpr below)
  · have beyond : 2 ^ 1024 ≤ |roundToDouble (formatG 15 (by decide) value).value| := by
      have powers : 2 ^ 1024 ≤ 179769313486232 * 10 ^ 294 := by decide +kernel
      have least : ((2 ^ 1024 : ℕ) : ℚ) ≤ (179769313486232 * 10 ^ 294 : ℕ) :=
        Nat.cast_le.mpr powers
      simp only [Nat.cast_mul, Nat.cast_pow, Nat.cast_ofNat] at least
      refine le_abs_roundToDouble _ ?_
      rw [read]
      refine least.trans (le_of_eq_of_le ?_ high)
      rw [ten]
    rw [dif_neg (not_lt.mpr beyond)]
    exact iff_of_true ⟨_, rfl⟩ above

end DecimalNumber
