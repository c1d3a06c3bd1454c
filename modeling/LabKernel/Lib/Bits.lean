/-
Windows of bits in numbers.

Masking with a window is division and remainder, and bits below a power of two that divides a
number are added by an or. Nothing here names a program.
-/

import Mathlib.Data.Nat.Bitwise

set_option autoImplicit false

namespace LabKernel.Bits

theorem and_shifted_mask (value width shift : Nat) :
    value &&& ((2 ^ width - 1) <<< shift) = value / 2 ^ shift % 2 ^ width * 2 ^ shift := by
  rw [← Nat.shiftLeft_eq, ← Nat.shiftRight_eq_div_pow]
  apply Nat.eq_of_testBit_eq
  intro place
  rw [Nat.testBit_and, Nat.testBit_shiftLeft, Nat.testBit_shiftLeft, Nat.testBit_two_pow_sub_one,
    Nat.testBit_mod_two_pow, Nat.testBit_shiftRight]
  by_cases within : shift ≤ place
  · rw [Nat.add_sub_cancel' within]
    cases value.testBit place with
    | false => simp
    | true => simp
  · simp [within]

theorem or_low {value low shift : Nat} (aligned : value % 2 ^ shift = 0) (small : low < 2 ^ shift) :
    value ||| low = value + low := by
  have whole : 2 ^ shift * (value / 2 ^ shift) = value := by
    have parts := Nat.div_add_mod value (2 ^ shift)
    omega
  rw [← whole]
  exact (Nat.two_pow_add_eq_or_of_lt small (value / 2 ^ shift)).symm

theorem and_shiftRight {value mask place width : Nat} (window : mask = (2 ^ width - 1) * 2 ^ place) :
    (value &&& mask) >>> place = value / 2 ^ place % 2 ^ width := by
  rw [window, Nat.shiftRight_and_distrib, Nat.shiftRight_eq_div_pow, Nat.shiftRight_eq_div_pow,
    Nat.mul_div_cancel _ (Nat.two_pow_pos place), Nat.and_two_pow_sub_one_eq_mod]

end LabKernel.Bits
