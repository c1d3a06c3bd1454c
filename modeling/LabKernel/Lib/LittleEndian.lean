/-
Little-endian numbers: the byte at a place, and the number read back from a
fixed count of bytes. Nothing here names a program.
-/

import Mathlib.Data.Nat.ModEq

set_option autoImplicit false

namespace LabKernel.LittleEndian

/-- The byte of weight `256 ^ place`. -/
def byteAt (value place : Nat) : Nat := value / 256 ^ place % 256

/-- The number whose byte of weight `256 ^ place` is `bytes place`, over `width` places. -/
def readBytes (bytes : Nat → Nat) : Nat → Nat
  | 0 => 0
  | width + 1 => bytes 0 + 256 * readBytes (fun place => bytes (place + 1)) width

theorem byteAt_lt (value place : Nat) : byteAt value place < 256 :=
  Nat.mod_lt _ (by decide)

theorem byteAt_succ (value place : Nat) :
    byteAt value (place + 1) = byteAt (value / 256) place := by
  unfold byteAt
  rw [Nat.pow_succ, Nat.mul_comm, Nat.div_div_eq_div_mul]

theorem readBytes_congr {left right : Nat → Nat} (width : Nat)
    (same : ∀ place, place < width → left place = right place) :
    readBytes left width = readBytes right width := by
  induction width generalizing left right with
  | zero => rfl
  | succ width ih =>
      have first : left 0 = right 0 := same 0 (by omega)
      have rest := @ih (fun place => left (place + 1))
        (fun place => right (place + 1))
        (fun place within => same (place + 1) (by omega))
      simp only [readBytes, first, rest]

theorem readBytes_byteAt (value width : Nat) :
    readBytes (byteAt value) width = value % 256 ^ width := by
  induction width generalizing value with
  | zero => simp only [readBytes, Nat.pow_zero, Nat.mod_one]
  | succ width ih =>
      have shifted : readBytes (fun place => byteAt value (place + 1)) width =
          value / 256 % 256 ^ width := by
        rw [← ih]
        exact readBytes_congr width (fun place _ => byteAt_succ value place)
      have lowest : byteAt value 0 = value % 256 := by
        simp only [byteAt, Nat.pow_zero, Nat.div_one]
      simp only [readBytes, shifted, lowest]
      rw [Nat.pow_succ, Nat.mul_comm (256 ^ width), Nat.mod_mul]

end LabKernel.LittleEndian
