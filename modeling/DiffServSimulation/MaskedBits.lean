/-
This file is a small library about comparing words under a mask. It names nothing
of the simulator.

Two words agree under a mask when they carry the same bit wherever the mask is
set; this is an equivalence, and its classes are what a subnet is. A word can
also be compared with a masked pattern without being masked itself. The file
says exactly how far that one-sided comparison is from agreement: it misses the
words that agree with the pattern and have a bit set where the mask is clear.
-/

import Mathlib.Tactic.Common

namespace MaskedBits

variable {width : Nat}

/-- Two words agree under a mask. -/
def Agree (mask first second : BitVec width) : Prop := first &&& mask = second &&& mask

instance (mask first second : BitVec width) : Decidable (Agree mask first second) :=
  inferInstanceAs (Decidable (_ = _))

/-- Agreement is equality at every bit the mask selects. -/
theorem agree_iff_bits (mask first second : BitVec width) :
    Agree mask first second ↔
      ∀ index (_ : index < width), mask[index] = true → first[index] = second[index] := by
  constructor
  · intro agree index inside selected
    have bit : (first &&& mask)[index] = (second &&& mask)[index] := by rw [agree]
    simpa only [BitVec.getElem_and, selected, Bool.and_true] using bit
  · intro bits
    refine BitVec.eq_of_getElem_eq fun index inside => ?_
    rw [BitVec.getElem_and, BitVec.getElem_and]
    cases selected : mask[index] with
    | false => rw [Bool.and_false, Bool.and_false]
    | true => rw [bits index inside selected]

theorem agree_refl (mask word : BitVec width) : Agree mask word word := rfl

theorem Agree.symm {mask first second : BitVec width} (agree : Agree mask first second) :
    Agree mask second first := Eq.symm agree

theorem Agree.trans {mask first second third : BitVec width} (left : Agree mask first second)
    (right : Agree mask second third) : Agree mask first third := Eq.trans left right

/-- Masking a word leaves it in agreement with itself. -/
theorem agree_masked (mask word : BitVec width) : Agree mask (word &&& mask) word := by
  rw [Agree, BitVec.and_assoc, BitVec.and_self]

/-- A masked word has no bit set where the mask is clear. -/
theorem masked_and_not (mask word : BitVec width) :
    word &&& mask &&& ~~~mask = BitVec.ofNat width 0 := by
  rw [BitVec.and_assoc, BitVec.and_not_self]
  exact BitVec.and_zero

/-- A word with no bit set where the mask is clear is its own masked word. -/
theorem and_mask_of_clear (mask word : BitVec width)
    (clear : word &&& ~~~mask = BitVec.ofNat width 0) : word &&& mask = word := by
  refine BitVec.eq_of_getElem_eq fun index inside => ?_
  have bit : (word &&& ~~~mask)[index] = (BitVec.ofNat width 0)[index] := by rw [clear]
  rw [BitVec.getElem_and, BitVec.getElem_not, BitVec.getElem_zero] at bit
  rw [BitVec.getElem_and]
  cases selected : mask[index] with
  | true => rw [Bool.and_true]
  | false =>
    rw [selected, Bool.not_false, Bool.and_true] at bit
    rw [bit, Bool.and_false]

/-- The one-sided comparison with a masked pattern is agreement together with the absence of bits
outside the mask. -/
theorem eq_masked_iff (mask pattern word : BitVec width) :
    word = pattern &&& mask ↔
      Agree mask word pattern ∧ word &&& ~~~mask = BitVec.ofNat width 0 := by
  constructor
  · intro equal
    rw [equal]
    exact ⟨agree_masked mask pattern, masked_and_not mask pattern⟩
  · rintro ⟨agree, clear⟩
    rw [← and_mask_of_clear mask word clear]
    exact agree

/-- Where the one-sided comparison tells agreement correctly. -/
theorem eq_masked_iff_agree_iff (mask pattern word : BitVec width) :
    (word = pattern &&& mask ↔ Agree mask word pattern) ↔
      word &&& ~~~mask = BitVec.ofNat width 0 ∨ ¬ Agree mask word pattern := by
  rw [eq_masked_iff]
  by_cases agree : Agree mask word pattern
  · simp [agree]
  · simp [agree]

/-- Unless the mask selects every bit, a word agrees with another word. -/
theorem exists_agree_ne (mask word : BitVec width) (partialMask : mask ≠ BitVec.allOnes width) :
    ∃ other, Agree mask other word ∧ other ≠ word := by
  refine ⟨word ^^^ ~~~mask, ?_, ?_⟩
  · rw [agree_iff_bits]
    intro index inside selected
    rw [BitVec.getElem_xor, BitVec.getElem_not, selected, Bool.not_true, Bool.xor_false]
  · intro same
    refine partialMask (BitVec.eq_of_getElem_eq fun index inside => ?_)
    have bit : (word ^^^ ~~~mask)[index] = word[index] := by rw [same]
    rw [BitVec.getElem_allOnes]
    cases selected : mask[index] with
    | true => rfl
    | false => simp [selected] at bit

/-- Where the one-sided comparison is constant on the words that agree with a given one. -/
theorem eq_masked_const_iff (mask pattern word : BitVec width) :
    (∀ other, Agree mask other word → (other = pattern &&& mask ↔ word = pattern &&& mask)) ↔
      mask = BitVec.allOnes width ∨ ¬ Agree mask word pattern := by
  constructor
  · intro constant
    by_contra neither
    rw [not_or, not_not] at neither
    obtain ⟨other, agree, different⟩ := exists_agree_ne mask (pattern &&& mask) neither.1
    have network : Agree mask (pattern &&& mask) word :=
      (agree_masked mask pattern).trans neither.2.symm
    exact different ((constant other (agree.trans network)).mpr
      ((constant (pattern &&& mask) network).mp rfl))
  · rintro (full | disagree) other agree
    · subst full
      have equal : other = word := by simpa [Agree] using agree
      rw [equal]
    · have apart : ∀ candidate, Agree mask candidate word → candidate ≠ pattern &&& mask := by
        intro candidate near equal
        rw [equal] at near
        exact disagree (near.symm.trans (agree_masked mask pattern))
      exact iff_of_false (apart other agree) (apart word (agree_refl mask word))

end MaskedBits
