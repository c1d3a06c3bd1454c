/-
What is written into a block of the image is read back from it.
-/

import LabKernel.User.Mkfs

set_option autoImplicit false

namespace LabKernel.User.Mkfs

open Fs LittleEndian

/-! ### Words -/

theorem u32At_bytes {data : BlockData} {index value : Nat} (within : index < 128)
    (bytes : ∀ place, (small : place < 4) →
      data ⟨4 * index + place, by unfold blockSize; omega⟩ = UInt8.ofNat (byteAt value place)) :
    u32At data index = value % 2 ^ 32 := by
  have read : u32At data index = readBytes (byteAt value) 4 := by
    apply readBytes_congr
    intro place small
    have inside : 4 * index + place < blockSize := by
      unfold blockSize
      omega
    rw [dif_pos inside, bytes place small, UInt8.toNat_ofNat']
    exact Nat.mod_eq_of_lt (byteAt_lt _ _)
  have size : 256 ^ 4 = 2 ^ 32 := by decide
  rw [read, readBytes_byteAt, size]

theorem u32At_congr {data data' : BlockData} {index : Nat}
    (same : ∀ place : Fin blockSize, place.val / 4 = index → data' place = data place) :
    u32At data' index = u32At data index := by
  apply readBytes_congr
  intro place small
  by_cases inside : 4 * index + place < blockSize
  · rw [dif_pos inside, dif_pos inside, same ⟨4 * index + place, inside⟩]
    change (4 * index + place) / 4 = index
    omega
  · rw [dif_neg inside, dif_neg inside]

theorem u32At_ofWords (word : Nat → Nat) {index : Nat} (within : index < 128) :
    u32At (ofWords word) index = word index % 2 ^ 32 := by
  apply u32At_bytes within
  intro place small
  have slot : (4 * index + place) / 4 = index := by omega
  have offset : (4 * index + place) % 4 = place := by omega
  unfold ofWords
  simp only [slot, offset]

theorem u32At_clear {index : Nat} (within : index < 128) : u32At (fun _ => 0) index = 0 := by
  have word : u32At (fun _ => 0) index = 0 % 2 ^ 32 := u32At_bytes within (fun _ _ => by
    unfold byteAt
    rw [Nat.zero_div]
    rfl)
  rw [word, Nat.zero_mod]

theorem indirectOf_clear (index : Fin nIndirect) : indirectOf (fun _ => 0) index = 0 := by
  unfold indirectOf
  rw [u32At_clear index.isLt]
  rfl

/-- A written array of block numbers is read back. -/
theorem indirectOf_indirectBlock (addrs : Fin nIndirect → UInt32) :
    indirectOf (indirectBlock addrs) = addrs := by
  funext index
  unfold indirectOf indirectBlock
  rw [u32At_ofWords _ index.isLt, dif_pos index.isLt]
  apply UInt32.toNat.inj
  rw [UInt32.toNat_ofNat', Nat.mod_mod]
  exact Nat.mod_eq_of_lt (addrs index).toNat_lt

/-! ### Inodes -/

namespace InodeEntry

variable {inode : InodeEntry} {data : BlockData} {slot other : Nat}

theorem u32At_put (within : slot < 8) {index : Nat} (small : index < 16) :
    u32At (inode.put data slot) (16 * slot + index) = inode.word index % 2 ^ 32 := by
  apply u32At_bytes (by omega)
  intro place tiny
  have here : (4 * (16 * slot + index) + place) / inodeSize = slot := by
    unfold inodeSize
    omega
  have word : (4 * (16 * slot + index) + place) % inodeSize / 4 = index := by
    unfold inodeSize
    omega
  have offset : (4 * (16 * slot + index) + place) % 4 = place := by omega
  unfold put
  simp only [here, if_true, word, offset]

theorem u32At_put_other (different : other ≠ slot) (index : Nat) (small : index < 16) :
    u32At (inode.put data slot) (16 * other + index) = u32At data (16 * other + index) := by
  apply u32At_congr
  intro place here
  apply if_neg
  unfold inodeSize
  omega

theorem word_lt (inode : InodeEntry) (index : Nat) : inode.word index < 2 ^ 32 := by
  have type := inode.type.toNat_lt
  have major := inode.major.toNat_lt
  have minor := inode.minor.toNat_lt
  have numLinks := inode.numLinks.toNat_lt
  unfold word
  split
  · omega
  · omega
  · exact inode.numBytes.toNat_lt
  · split
    · exact (inode.addrs _).toNat_lt
    · exact inode.indirect.toNat_lt

theorem ofBlock_put (within : slot < 8) : ofBlock (inode.put data slot) slot = inode := by
  have read : ∀ index, index < 16 →
      u32At (inode.put data slot) (16 * slot + index) = inode.word index := by
    intro index small
    rw [u32At_put within small]
    exact Nat.mod_eq_of_lt (inode.word_lt index)
  have first : u32At (inode.put data slot) (16 * slot) = inode.word 0 := read 0 (by decide)
  have type := inode.type.toNat_lt
  have minor := inode.minor.toNat_lt
  unfold ofBlock
  rw [first, read 1 (by decide), read 2 (by decide), read 15 (by decide)]
  have addrs : (fun index : Fin nDirect => UInt32.ofNat
      (u32At (inode.put data slot) (16 * slot + 3 + index.val))) = inode.addrs := by
    funext index
    have small : 3 + index.val < 16 := by
      have bound := index.isLt
      unfold nDirect at bound
      omega
    rw [Nat.add_assoc, read _ small, Nat.add_comm 3]
    change UInt32.ofNat (if within : index.val < nDirect then
      (inode.addrs ⟨index.val, within⟩).toNat else inode.indirect.toNat) = _
    rw [dif_pos index.isLt, UInt32.ofNat_toNat]
  rw [addrs]
  unfold word
  have low : (inode.type.toNat + 2 ^ 16 * inode.major.toNat) / 2 ^ 16 = inode.major.toNat := by
    omega
  have lowLinks : (inode.minor.toNat + 2 ^ 16 * inode.numLinks.toNat) / 2 ^ 16 =
      inode.numLinks.toNat := by omega
  have high : UInt16.ofNat (inode.type.toNat + 2 ^ 16 * inode.major.toNat) = inode.type := by
    apply UInt16.toNat.inj
    rw [UInt16.toNat_ofNat']
    omega
  have highMinor : UInt16.ofNat (inode.minor.toNat + 2 ^ 16 * inode.numLinks.toNat) =
      inode.minor := by
    apply UInt16.toNat.inj
    rw [UInt16.toNat_ofNat']
    omega
  have last : ¬12 < nDirect := by decide
  simp only [low, lowLinks, high, highMinor, UInt16.ofNat_toNat, UInt32.ofNat_toNat, dif_neg last]

theorem ofBlock_put_other (different : other ≠ slot) :
    ofBlock (inode.put data slot) other = ofBlock data other := by
  have first : u32At (inode.put data slot) (16 * other) = u32At data (16 * other) :=
    u32At_put_other different 0 (by decide)
  have addrs : ∀ index : Fin nDirect, u32At (inode.put data slot) (16 * other + 3 + index.val) =
      u32At data (16 * other + 3 + index.val) := by
    intro index
    have bound := index.isLt
    unfold nDirect at bound
    rw [Nat.add_assoc]
    exact u32At_put_other different _ (by omega)
  unfold ofBlock
  simp only [first, u32At_put_other different 1 (by decide), u32At_put_other different 2 (by decide),
    u32At_put_other different 15 (by decide), addrs]

end InodeEntry

theorem InodeEntry.ofBlock_clear {slot : Nat} (within : slot < 8) :
    (∀ index, (InodeEntry.ofBlock (fun _ => 0) slot).addrs index = 0) ∧
      (InodeEntry.ofBlock (fun _ => 0) slot).indirect = 0 ∧
      (InodeEntry.ofBlock (fun _ => 0) slot).numBytes = 0 := by
  unfold ofBlock
  refine ⟨?_, ?_, ?_⟩
  · intro index
    have bound := index.isLt
    unfold nDirect at bound
    change UInt32.ofNat _ = 0
    rw [u32At_clear (by omega)]
    rfl
  · change UInt32.ofNat _ = 0
    rw [u32At_clear (by omega)]
    rfl
  · change UInt32.ofNat _ = 0
    rw [u32At_clear (by omega)]
    rfl

/-! ### Bytes -/

theorem overwrite_inside {buf : BlockData} {start : Nat} {bytes : List UInt8} {index : Fin blockSize}
    (low : start ≤ index.val) (high : index.val - start < bytes.length) :
    overwrite buf start bytes index = bytes[index.val - start] := by
  unfold overwrite
  rw [if_pos low, List.getD_eq_getElem _ _ high]

theorem overwrite_before {buf : BlockData} {start : Nat} {bytes : List UInt8} {index : Fin blockSize}
    (low : index.val < start) : overwrite buf start bytes index = buf index :=
  if_neg (Nat.not_le.mpr low)

theorem place_before {offset length : Nat} (same : offset / blockSize = length / blockSize)
    (old : offset < length) : offset % blockSize < length - length / blockSize * blockSize := by
  unfold blockSize at *
  omega

theorem place_after {offset length : Nat} (same : offset / blockSize = length / blockSize)
    (new : length ≤ offset) : length - length / blockSize * blockSize ≤ offset % blockSize ∧
      offset % blockSize - (length - length / blockSize * blockSize) = offset - length := by
  unfold blockSize at *
  omega

end LabKernel.User.Mkfs
