/-
Memory as bytes, with the 64-bit words in it.

A word is read from eight bytes, the lowest first. Writing a word or filling a range leaves
every other byte alone, so a word is read back if nothing was written into its range. Nothing
here names a program.
-/

import LabKernel.Lib.LittleEndian

set_option autoImplicit false

namespace LabKernel.ByteMemory

open LittleEndian

abbrev Memory := Nat → UInt8

def readWord (mem : Memory) (addr : Nat) : Nat :=
  readBytes (fun place => (mem (addr + place)).toNat) 8

def writeWord (mem : Memory) (addr value : Nat) : Memory :=
  fun place =>
    if addr ≤ place ∧ place < addr + 8 then UInt8.ofNat (byteAt value (place - addr))
    else mem place

def fill (mem : Memory) (addr : Nat) (byte : UInt8) (size : Nat) : Memory :=
  fun place => if addr ≤ place ∧ place < addr + size then byte else mem place

def SameOutside (mem after : Memory) (addr size : Nat) : Prop :=
  ∀ place, place < addr ∨ addr + size ≤ place → after place = mem place

variable {mem after : Memory} {addr other value size : Nat}

theorem readWord_congr (same : ∀ place, place < 8 → after (addr + place) = mem (addr + place)) :
    readWord after addr = readWord mem addr := by
  apply readBytes_congr
  intro place within
  rw [same place within]

theorem readWord_writeWord (fits : value < 2 ^ 64) :
    readWord (writeWord mem addr value) addr = value := by
  have bytes : ∀ place, place < 8 →
      (writeWord mem addr value (addr + place)).toNat = byteAt value place := by
    intro place within
    unfold writeWord
    rw [if_pos (by omega), Nat.add_sub_cancel_left, UInt8.toNat_ofNat']
    exact Nat.mod_eq_of_lt (byteAt_lt value place)
  unfold readWord
  rw [readBytes_congr 8 bytes, readBytes_byteAt]
  exact Nat.mod_eq_of_lt fits

theorem writeWord_outside (mem : Memory) (addr value : Nat) :
    SameOutside mem (writeWord mem addr value) addr 8 := by
  intro place outside
  unfold writeWord
  rw [if_neg (by omega)]

theorem fill_outside (mem : Memory) (addr : Nat) (byte : UInt8) (size : Nat) :
    SameOutside mem (fill mem addr byte size) addr size := by
  intro place outside
  unfold fill
  rw [if_neg (by omega)]

theorem fill_inside (mem : Memory) (byte : UInt8) {place : Nat} (within : place < size) :
    fill mem addr byte size (addr + place) = byte := by
  unfold fill
  rw [if_pos (by omega)]

theorem SameOutside.refl (mem : Memory) (addr size : Nat) : SameOutside mem mem addr size :=
  fun _ _ => rfl

theorem SameOutside.widen (same : SameOutside mem after addr size) {lower upper : Nat}
    (below : lower ≤ addr) (above : addr + size ≤ lower + upper) :
    SameOutside mem after lower upper := by
  intro place outside
  apply same
  omega

theorem SameOutside.trans {last : Memory} (first : SameOutside mem after addr size)
    (second : SameOutside after last addr size) : SameOutside mem last addr size := by
  intro place outside
  rw [second place outside, first place outside]

theorem SameOutside.readWord (same : SameOutside mem after addr size)
    (apart : other + 8 ≤ addr ∨ addr + size ≤ other) :
    ByteMemory.readWord after other = ByteMemory.readWord mem other := by
  apply readWord_congr
  intro place within
  apply same
  omega

end LabKernel.ByteMemory
