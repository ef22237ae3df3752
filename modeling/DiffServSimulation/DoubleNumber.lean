/-
This file is part of the library for decimal literals and machine numbers: the
doubles, and when rounding arrives at one. It names nothing of the simulator.

A double is a rational that rounding keeps. Rounding is idempotent, so it always
arrives at a double, and it arrives at a given one from every rational within a
part in `2 * 10 ^ 16` of it, which is why seventeen decimal digits are enough to
tell the doubles apart. `Double` adds the infinities and the value that is no
number, with the arithmetic a comparison up to an epsilon needs. The sign of a
zero is left out.
-/

import DiffServSimulation.DecimalNumeral

namespace DecimalNumber

/-! ### Rounding to an integer -/

theorem roundHalfEven_of_near (value : ℚ) (whole : ℤ) (near : |value - whole| < 1 / 2) :
    roundHalfEven value = whole := by
  obtain ⟨low, high⟩ := abs_lt.mp near
  unfold roundHalfEven
  by_cases above : (whole : ℚ) ≤ value
  · have floor : ⌊value⌋ = whole := Int.floor_eq_iff.mpr ⟨above, by linarith⟩
    simp only [floor]
    rw [if_pos (by linarith)]
  · have floor : ⌊value⌋ = whole - 1 :=
      Int.floor_eq_iff.mpr ⟨by push_cast; linarith, by push_cast; linarith⟩
    simp only [floor]
    push_cast
    rw [if_neg (by linarith), if_pos (by linarith), Int.sub_add_cancel]

theorem abs_roundHalfEven_sub_le (value : ℚ) : |(roundHalfEven value : ℚ) - value| ≤ 1 / 2 := by
  have low := Int.floor_le value
  have high := Int.lt_floor_add_one value
  unfold roundHalfEven
  rw [abs_le]
  simp only
  split_ifs with less more even
  · exact ⟨by linarith, by linarith⟩
  · push_cast
    exact ⟨by linarith, by linarith⟩
  · exact ⟨by linarith, by linarith⟩
  · push_cast
    exact ⟨by linarith, by linarith⟩

/-- Rounding does not cross an integer. -/
theorem abs_roundHalfEven_le (value : ℚ) (bound : ℤ) (within : |value| ≤ bound) :
    |roundHalfEven value| ≤ bound := by
  obtain ⟨low, high⟩ := abs_le.mp (abs_roundHalfEven_sub_le value)
  obtain ⟨least, most⟩ := abs_le.mp within
  have above : (roundHalfEven value : ℚ) < bound + 1 := by linarith
  have below : (-bound - 1 : ℚ) < roundHalfEven value := by linarith
  have above' : roundHalfEven value < bound + 1 := by exact_mod_cast above
  have below' : -bound - 1 < roundHalfEven value := by exact_mod_cast below
  exact abs_le.mpr ⟨by omega, by omega⟩

/-- Rounding does not cross an integer from above either. -/
theorem le_abs_roundHalfEven (value : ℚ) (bound : ℤ) (beyond : bound ≤ |value|) :
    bound ≤ |roundHalfEven value| := by
  have moved := abs_roundHalfEven_sub_le value
  have triangle := abs_sub_abs_le_abs_sub value (roundHalfEven value)
  rw [abs_sub_comm] at triangle
  have above : (bound : ℚ) < |(roundHalfEven value : ℚ)| + 1 := by linarith
  have above' : bound < |roundHalfEven value| + 1 := by exact_mod_cast above
  omega

/-- An odd integer is not what its tie with the next one is rounded to. -/
theorem roundHalfEven_le_odd_iff (value : ℚ) (bound : ℤ) (odd : bound % 2 = 1) :
    roundHalfEven value ≤ bound ↔ value < bound + 1 / 2 := by
  have low := Int.floor_le value
  have high := Int.lt_floor_add_one value
  rcases lt_trichotomy ⌊value⌋ bound with below | same | above
  · have next : (⌊value⌋ : ℚ) + 1 ≤ bound := by exact_mod_cast below
    refine iff_of_true ?_ (by linarith)
    unfold roundHalfEven
    simp only
    split_ifs <;> omega
  · rw [same] at low high
    unfold roundHalfEven
    simp only [same]
    split_ifs with less more even
    · exact iff_of_true le_rfl (by linarith)
    · exact iff_of_false (by omega) (by linarith)
    · omega
    · exact iff_of_false (by omega) (by linarith)
  · have next : (bound : ℚ) + 1 ≤ ⌊value⌋ := by exact_mod_cast above
    refine iff_of_false ?_ (by linarith)
    unfold roundHalfEven
    simp only
    split_ifs <;> omega

theorem roundHalfEven_nonneg (value : ℚ) (nonneg : 0 ≤ value) : 0 ≤ roundHalfEven value := by
  have floor := Int.floor_nonneg.mpr nonneg
  unfold roundHalfEven
  simp only
  split_ifs <;> omega

theorem roundHalfEven_neg (value : ℚ) : roundHalfEven (-value) = -roundHalfEven value := by
  have high := Int.lt_floor_add_one value
  rcases eq_or_lt_of_le (Int.floor_le value) with whole | low
  · rw [← whole, ← Int.cast_neg, roundHalfEven_intCast, roundHalfEven_intCast]
  · have floor : ⌊-value⌋ = -⌊value⌋ - 1 :=
      Int.floor_eq_iff.mpr ⟨by push_cast; linarith, by push_cast; linarith⟩
    unfold roundHalfEven
    simp only [floor]
    push_cast
    -- A half rounds to the even side both ways, and the other fractions to the nearer one.
    split_ifs <;> first | omega | (exfalso; linarith)

/-! ### Rounding to a double -/

theorem two_zpow_pos (places : ℤ) : (0 : ℚ) < 2 ^ places := zpow_pos (by norm_num) places

theorem lastBit_ge (value : ℚ) : -1074 ≤ lastBit value := le_max_right _ _

/-- A value has at most 53 bits from the last one that is kept. -/
theorem abs_lt_lastBit (value : ℚ) : |value| < 2 ^ (lastBit value + 53) := by
  have below := Int.lt_zpow_succ_log_self (b := 2) (by decide) |value|
  have enough : Int.log 2 |value| + 1 ≤ lastBit value + 53 := by
    have kept : Int.log 2 |value| - 52 ≤ lastBit value := le_max_left _ _
    omega
  exact below.trans_le (zpow_le_zpow_right₀ (by norm_num) enough)

/-- A value below a power of two has no bit to keep above the ones that leaves. -/
theorem lastBit_le (value : ℚ) (bit : ℤ) (nonzero : value ≠ 0) (least : -1074 ≤ bit)
    (below : |value| < 2 ^ (bit + 53)) : lastBit value ≤ bit := by
  have log : Int.log 2 |value| < bit + 53 :=
    (Int.lt_zpow_iff_log_lt (by decide) (abs_pos.mpr nonzero)).mp (by exact_mod_cast below)
  exact max_le (by omega) least

/-- Rounding arrives at a multiple of the last bit that is kept when no other is as near. -/
theorem roundToDouble_of_near (value double : ℚ) (whole : ℤ)
    (multiple : double = whole * 2 ^ lastBit value)
    (near : |value - double| < 2 ^ lastBit value / 2) : roundToDouble value = double := by
  have positive := two_zpow_pos (lastBit value)
  have scaled : |value / 2 ^ lastBit value - whole| < 1 / 2 := by
    have same : value / 2 ^ lastBit value - whole = (value - double) / 2 ^ lastBit value := by
      rw [multiple]
      field_simp
    rw [same, abs_div, abs_of_pos positive, div_lt_iff₀ positive]
    linarith
  rw [roundToDouble, roundHalfEven_of_near _ whole scaled, ← multiple]

theorem roundToDouble_of_multiple (value : ℚ) (whole : ℤ)
    (multiple : value = whole * 2 ^ lastBit value) : roundToDouble value = value := by
  refine roundToDouble_of_near value value whole multiple ?_
  rw [sub_self, abs_zero]
  exact half_pos (two_zpow_pos _)

/-- A multiple of a bit is a multiple of every lower bit. -/
theorem multiple_of_le (whole bit lower : ℤ) (le : lower ≤ bit) :
    ∃ more : ℤ, (whole : ℚ) * 2 ^ bit = more * 2 ^ lower := by
  obtain ⟨places, isPlaces⟩ := Int.eq_ofNat_of_zero_le (sub_nonneg.mpr le)
  refine ⟨whole * 2 ^ places, ?_⟩
  have split : bit = places + lower := by omega
  rw [split, zpow_add₀ (by norm_num), zpow_natCast]
  push_cast
  ring

/-- Rounding keeps what it arrives at. -/
theorem roundToDouble_idempotent (value : ℚ) :
    roundToDouble (roundToDouble value) = roundToDouble value := by
  have positive := two_zpow_pos (lastBit value)
  have least := lastBit_ge value
  have scaled : |value / 2 ^ lastBit value| ≤ ((2 ^ 53 : ℤ) : ℚ) := by
    rw [abs_div, abs_of_pos positive, div_le_iff₀ positive]
    have below := abs_lt_lastBit value
    rw [zpow_add₀ (by norm_num)] at below
    push_cast
    norm_num at below ⊢
    linarith
  have small := abs_roundHalfEven_le _ _ scaled
  have rounded : roundToDouble value =
      roundHalfEven (value / 2 ^ lastBit value) * 2 ^ lastBit value := rfl
  generalize roundHalfEven (value / 2 ^ lastBit value) = whole at small rounded
  generalize lastBit value = bit at least positive rounded
  generalize roundToDouble value = double at rounded
  have size : |double| = |whole| * 2 ^ bit := by
    rw [rounded, abs_mul, abs_of_pos positive, Int.cast_abs]
  by_cases zero : double = 0
  · rw [zero, ← Int.cast_zero, roundToDouble_intCast 0 (by norm_num)]
  by_cases full : |whole| = 2 ^ 53
  · -- The significand overflowed to a power of two, and the last bit moves up by one.
    have power : |double| = 2 ^ (bit + 53) := by
      rw [size, full, zpow_add₀ (by norm_num)]
      push_cast
      ring
    have log : Int.log 2 |double| = bit + 53 := by
      rw [power]
      exact_mod_cast Int.log_zpow (R := ℚ) (b := 2) (by decide) (bit + 53)
    have last : lastBit double = bit + 1 := by
      rw [lastBit, log]
      omega
    have half : ∃ other : ℤ, whole = other * 2 := by
      rcases abs_eq (by norm_num) |>.mp full with isWhole | isWhole
      · exact ⟨2 ^ 52, isWhole⟩
      · exact ⟨-2 ^ 52, by rw [isWhole]; norm_num⟩
    obtain ⟨other, rfl⟩ := half
    refine roundToDouble_of_multiple double other ?_
    rw [last, zpow_add₀ (by norm_num), rounded]
    push_cast
    ring
  · have fewer : |whole| < 2 ^ 53 := lt_of_le_of_ne small full
    have below : |double| < 2 ^ (bit + 53) := by
      rw [size, zpow_add₀ (by norm_num), mul_comm]
      refine mul_lt_mul_of_pos_left ?_ positive
      exact_mod_cast fewer
    obtain ⟨more, multiple⟩ := multiple_of_le whole bit (lastBit double)
      (lastBit_le double bit zero least below)
    exact roundToDouble_of_multiple double more (rounded.trans multiple)

/-- A rational that rounding keeps. -/
def IsDouble (value : ℚ) : Prop := roundToDouble value = value

theorem IsDouble.multiple {value : ℚ} (isDouble : IsDouble value) :
    ∃ whole : ℤ, value = whole * 2 ^ lastBit value :=
  ⟨_, isDouble.symm⟩

theorem abs_eq_of_multiple {value : ℚ} {whole bit : ℤ} (multiple : value = whole * 2 ^ bit) :
    |value| = |(whole : ℚ)| * 2 ^ bit := by
  rw [multiple, abs_mul, abs_of_pos (two_zpow_pos bit)]

theorem isDouble_intCast (value : ℤ) (small : |value| < 2 ^ 53) : IsDouble value :=
  roundToDouble_intCast value small

/-- No double lies between zero and the least bit. -/
theorem IsDouble.two_zpow_le {value : ℚ} (isDouble : IsDouble value) (nonzero : value ≠ 0) :
    2 ^ (-1074 : ℤ) ≤ |value| := by
  obtain ⟨whole, multiple⟩ := isDouble.multiple
  have present : whole ≠ 0 := by
    rintro rfl
    exact nonzero (by rw [multiple, Int.cast_zero, zero_mul])
  have atLeast : (1 : ℚ) ≤ |(whole : ℚ)| := by exact_mod_cast Int.one_le_abs present
  have positive := two_zpow_pos (lastBit value)
  calc (2 : ℚ) ^ (-1074 : ℤ) ≤ 2 ^ lastBit value :=
        zpow_le_zpow_right₀ (by norm_num) (lastBit_ge value)
    _ ≤ |(whole : ℚ)| * 2 ^ lastBit value := le_mul_of_one_le_left positive.le atLeast
    _ = |value| := (abs_eq_of_multiple multiple).symm

/-- Rounding arrives at a double from every rational within a part in `2 * 10 ^ 16` of it. -/
theorem roundToDouble_of_close (value double : ℚ) (isDouble : IsDouble double)
    (close : |value - double| * (2 * 10 ^ 16) ≤ |double|) : roundToDouble value = double := by
  obtain ⟨whole, multiple⟩ := isDouble.multiple
  have triangle : |double| - |value - double| ≤ |value| := by
    have sum := abs_sub_abs_le_abs_sub double value
    rw [abs_sub_comm double value] at sum
    linarith
  have gap : (0 : ℚ) ≤ |value - double| := abs_nonneg _
  by_cases le : lastBit value ≤ lastBit double
  · obtain ⟨more, isMore⟩ := multiple_of_le whole (lastBit double) (lastBit value) le
    refine roundToDouble_of_near value double more (multiple.trans isMore) ?_
    have below := abs_lt_lastBit value
    rw [zpow_add₀ (by norm_num)] at below
    have positive := two_zpow_pos (lastBit value)
    norm_num at below
    linarith
  · -- The rational lies in a higher binade, but the next double up is too far away.
    exfalso
    have nonzero : value ≠ 0 := by
      rintro rfl
      rw [zero_sub, abs_neg] at close
      have isZero : |double| = 0 := le_antisymm (by linarith [abs_nonneg double]) (abs_nonneg _)
      exact le (le_of_eq (by rw [abs_eq_zero.mp isZero]))
    have positive := two_zpow_pos (lastBit double)
    have below := abs_lt_lastBit double
    have least := lastBit_ge double
    have above : 2 ^ (lastBit double + 53) ≤ |value| := by
      by_contra smaller
      exact le (lastBit_le value (lastBit double) nonzero least (not_le.mp smaller))
    have size := abs_eq_of_multiple multiple
    rw [zpow_add₀ (by norm_num)] at below above
    norm_num at below above
    have count : |(whole : ℚ)| < 9007199254740992 := by
      rw [size] at below
      nlinarith
    have count' : |whole| < 9007199254740992 := by exact_mod_cast count
    have apart : |(whole : ℚ)| + 1 ≤ 9007199254740992 := by
      exact_mod_cast Int.lt_iff_add_one_le.mp count'
    have other : |value| ≤ |double| + |value - double| := by
      have sum := abs_sub_abs_le_abs_sub value double
      linarith
    have far : 2 ^ lastBit double ≤ |value - double| := by
      rw [size] at other
      nlinarith
    linarith

/-! ### The range -/

theorem two_pow_1024 : (2 : ℚ) ^ 1024 = 2 ^ 53 * 2 ^ (971 : ℤ) := by
  rw [← zpow_natCast, ← zpow_natCast, ← zpow_add₀ (by norm_num)]
  rfl

theorem abs_scaled (value : ℚ) : |value / 2 ^ lastBit value| = |value| / 2 ^ lastBit value := by
  rw [abs_div, abs_of_pos (two_zpow_pos _)]

/-- What is at most the greatest double stays in range. -/
theorem abs_roundToDouble_lt (value : ℚ) (within : |value| ≤ (2 ^ 53 - 1) * 2 ^ (971 : ℤ)) :
    |roundToDouble value| < 2 ^ 1024 := by
  have positive := two_zpow_pos (lastBit value)
  have unit := two_zpow_pos 971
  have size : |roundToDouble value| =
      |(roundHalfEven (value / 2 ^ lastBit value) : ℚ)| * 2 ^ lastBit value :=
    abs_eq_of_multiple rfl
  have below := abs_lt_lastBit value
  rw [zpow_add₀ (by norm_num)] at below
  rw [size, two_pow_1024]
  by_cases low : lastBit value < 971
  · have small := abs_roundHalfEven_le (value / 2 ^ lastBit value) (2 ^ 53) (by
      rw [abs_scaled, div_le_iff₀ positive]
      push_cast
      norm_num at below ⊢
      linarith)
    have small' : |(roundHalfEven (value / 2 ^ lastBit value) : ℚ)| ≤ 2 ^ 53 := by
      exact_mod_cast small
    have power : (2 : ℚ) ^ lastBit value < 2 ^ (971 : ℤ) := zpow_lt_zpow_right₀ (by norm_num) low
    calc |(roundHalfEven (value / 2 ^ lastBit value) : ℚ)| * 2 ^ lastBit value
        ≤ 2 ^ 53 * 2 ^ lastBit value := by gcongr
      _ < 2 ^ 53 * 2 ^ (971 : ℤ) := by gcongr
  · have least : lastBit value ≤ 971 := by
      by_cases zero : value = 0
      · rw [zero]
        norm_num [lastBit]
      · refine lastBit_le value 971 zero (by norm_num) (within.trans_lt ?_)
        rw [zpow_add₀ (by norm_num), mul_comm]
        refine mul_lt_mul_of_pos_left ?_ unit
        norm_num
    have last : lastBit value = 971 := by omega
    have small := abs_roundHalfEven_le (value / 2 ^ lastBit value) (2 ^ 53 - 1) (by
      have cast : ((2 ^ 53 - 1 : ℤ) : ℚ) = 2 ^ 53 - 1 := by norm_num
      rw [abs_scaled, div_le_iff₀ positive, last, cast]
      exact within)
    have small' : |(roundHalfEven (value / 2 ^ lastBit value) : ℚ)| ≤ 2 ^ 53 - 1 := by
      exact_mod_cast small
    rw [last] at small' ⊢
    generalize (2 : ℚ) ^ (971 : ℤ) = place at unit small' ⊢
    calc |(roundHalfEven (value / place) : ℚ)| * place ≤ (2 ^ 53 - 1) * place := by gcongr
      _ < 2 ^ 53 * place := by gcongr; norm_num

/-- What has reached the first power of two out of range stays out of it. -/
theorem le_abs_roundToDouble (value : ℚ) (beyond : 2 ^ 1024 ≤ |value|) :
    2 ^ 1024 ≤ |roundToDouble value| := by
  have large : (2 : ℚ) ^ (1024 : ℤ) ≤ |value| := by exact_mod_cast beyond
  have log : 1024 ≤ Int.log 2 |value| := by
    refine (Int.zpow_le_iff_le_log (by decide) ?_).mp (by exact_mod_cast large)
    exact (two_zpow_pos 1024).trans_le large
  have last : lastBit value = Int.log 2 |value| - 52 := max_eq_left (by omega)
  have least : (2 : ℚ) ^ Int.log 2 |value| ≤ |value| := by
    exact_mod_cast Int.zpow_log_le_self (b := 2) (by decide) ((two_zpow_pos 1024).trans_le large)
  have positive := two_zpow_pos (lastBit value)
  have split : (2 : ℚ) ^ Int.log 2 |value| = 2 ^ 52 * 2 ^ lastBit value := by
    rw [last, ← zpow_natCast, ← zpow_add₀ (by norm_num)]
    congr 1
    push_cast
    ring
  have atLeast := le_abs_roundHalfEven (value / 2 ^ lastBit value) (2 ^ 52) (by
    rw [abs_scaled, le_div_iff₀ positive]
    push_cast
    linarith)
  have atLeast' : (2 : ℚ) ^ 52 ≤ |(roundHalfEven (value / 2 ^ lastBit value) : ℚ)| := by
    exact_mod_cast atLeast
  have size : |roundToDouble value| =
      |(roundHalfEven (value / 2 ^ lastBit value) : ℚ)| * 2 ^ lastBit value :=
    abs_eq_of_multiple rfl
  rw [size]
  calc (2 : ℚ) ^ 1024 = 2 ^ ((1024 : ℕ) : ℤ) := (zpow_natCast 2 1024).symm
    _ ≤ 2 ^ Int.log 2 |value| := zpow_le_zpow_right₀ (by norm_num) log
    _ = 2 ^ 52 * 2 ^ lastBit value := split
    _ ≤ _ := by gcongr

theorem lastBit_neg (value : ℚ) : lastBit (-value) = lastBit value := by
  rw [lastBit, lastBit, abs_neg]

theorem IsDouble.neg {value : ℚ} (isDouble : IsDouble value) : IsDouble (-value) := by
  obtain ⟨whole, multiple⟩ := isDouble.multiple
  refine roundToDouble_of_multiple (-value) (-whole) ?_
  rw [lastBit_neg, Int.cast_neg, neg_mul, ← multiple]

theorem IsDouble.abs {value : ℚ} (isDouble : IsDouble value) : IsDouble |value| := by
  rcases abs_choice value with same | opposite
  · rwa [same]
  · rw [opposite]
    exact isDouble.neg

theorem roundToDouble_neg (value : ℚ) : roundToDouble (-value) = -roundToDouble value := by
  rw [roundToDouble, roundToDouble, lastBit_neg, neg_div, roundHalfEven_neg, Int.cast_neg, neg_mul]

theorem roundToDouble_nonneg (value : ℚ) (nonneg : 0 ≤ value) : 0 ≤ roundToDouble value :=
  mul_nonneg (by exact_mod_cast roundHalfEven_nonneg _ (div_nonneg nonneg (two_zpow_pos _).le))
    (two_zpow_pos _).le

/-! ### Doubles -/

/-- A double, but for the sign of a zero. -/
inductive Double where
  | nan
  | infinity (negative : Bool)
  | finite (value : ℚ) (isDouble : IsDouble value) (inRange : |value| < 2 ^ 1024)

instance (value : ℚ) : Decidable (IsDouble value) := inferInstanceAs (Decidable (_ = _))

deriving instance DecidableEq for Double

namespace Double

/-- The double nearest to a rational, or an infinity when that is out of range. -/
def ofRat (value : ℚ) : Double :=
  if inRange : |roundToDouble value| < 2 ^ 1024 then
    .finite (roundToDouble value) (roundToDouble_idempotent value) inRange
  else .infinity (decide (value < 0))

/-- The conversion of an `int`. -/
def ofInt (value : Int32) : Double := ofRat value.toInt

/-- `fabs`. -/
def fabs : Double → Double
  | .nan => .nan
  | .infinity _ => .infinity false
  | .finite value isDouble inRange =>
    .finite |value| isDouble.abs ((abs_abs value).symm ▸ inRange)

def sub : Double → Double → Double
  | .nan, _ => .nan
  | _, .nan => .nan
  | .infinity first, .infinity second => if first = second then .nan else .infinity first
  | .infinity first, .finite _ _ _ => .infinity first
  | .finite _ _ _, .infinity second => .infinity (!second)
  | .finite first _ _, .finite second _ _ => ofRat (first - second)

/-- The product with a positive rational. -/
def scale (factor : ℚ) : Double → Double
  | .nan => .nan
  | .infinity negative => .infinity negative
  | .finite value _ _ => ofRat (value * factor)

/-- `<=`. -/
def le : Double → Double → Bool
  | .nan, _ => false
  | _, .nan => false
  | .infinity first, .infinity second => first || !second
  | .infinity first, .finite _ _ _ => first
  | .finite _ _ _, .infinity second => !second
  | .finite first _ _, .finite second _ _ => decide (first ≤ second)

/-- `>`. -/
def gt : Double → Double → Bool
  | .nan, _ => false
  | _, .nan => false
  | .infinity first, .infinity second => !first && second
  | .infinity first, .finite _ _ _ => !first
  | .finite _ _ _, .infinity second => second
  | .finite first _ _, .finite second _ _ => decide (second < first)

/-- `==`. -/
def eq (first second : Double) : Bool := decide (first ≠ .nan ∧ first = second)

theorem ofRat_of_isDouble {value : ℚ} (isDouble : IsDouble value) (inRange : |value| < 2 ^ 1024) :
    ofRat value = .finite value isDouble inRange := by
  have rounds : roundToDouble value = value := isDouble
  unfold ofRat
  rw [dif_pos (rounds.symm ▸ inRange)]
  simp only [rounds]

/-- Rounding to a double first makes no difference. -/
theorem ofRat_roundToDouble (value : ℚ) : ofRat (roundToDouble value) = ofRat value := by
  by_cases inRange : |roundToDouble value| < 2 ^ 1024
  · rw [ofRat_of_isDouble (roundToDouble_idempotent value) inRange, ofRat, dif_pos inRange]
  · have sign : roundToDouble value < 0 ↔ value < 0 := by
      constructor
      · intro negative
        by_contra nonneg
        exact negative.not_ge (roundToDouble_nonneg value (not_lt.mp nonneg))
      · intro negative
        have opposite := roundToDouble_nonneg (-value) (neg_nonneg.mpr negative.le)
        rw [roundToDouble_neg] at opposite
        refine lt_of_le_of_ne (neg_nonneg.mp opposite) fun zero => inRange ?_
        rw [zero, abs_zero]
        positivity
    have stays : ¬ |roundToDouble (roundToDouble value)| < 2 ^ 1024 := by
      rwa [roundToDouble_idempotent]
    rw [ofRat, ofRat, dif_neg stays, dif_neg inRange, decide_eq_decide.mpr sign]

theorem abs_toInt_lt (value : Int32) : |value.toInt| < 2 ^ 53 := by
  have low := value.le_toInt
  have high := value.toInt_lt
  exact abs_lt.mpr ⟨by omega, by omega⟩

theorem toInt_inRange (value : Int32) : |(value.toInt : ℚ)| < 2 ^ 1024 := by
  have small : |(value.toInt : ℚ)| < 2 ^ 53 := by exact_mod_cast abs_toInt_lt value
  exact small.trans (pow_lt_pow_right₀ (by norm_num) (by norm_num))

/-- Every `int` is a double. -/
theorem ofInt_eq (value : Int32) :
    ofInt value = .finite value.toInt (isDouble_intCast _ (abs_toInt_lt value))
      (toInt_inRange value) :=
  ofRat_of_isDouble _ _

theorem eq_true_iff (first second : Double) :
    first.eq second = true ↔ first ≠ .nan ∧ first = second := decide_eq_true_iff

/-- What rounds to a double in range is read as it. -/
theorem ofRat_of_close (value double : ℚ) (isDouble : IsDouble double)
    (inRange : |double| < 2 ^ 1024) (close : |value - double| * (2 * 10 ^ 16) ≤ |double|) :
    ofRat value = .finite double isDouble inRange := by
  have rounds := roundToDouble_of_close value double isDouble close
  unfold ofRat
  rw [dif_pos (rounds.symm ▸ inRange)]
  simp only [rounds]

end Double

end DecimalNumber
