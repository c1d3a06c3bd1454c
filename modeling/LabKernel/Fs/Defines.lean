/-
On-disk representations used by the block cache: the superblock fields it reads,
the log header, and how the header is laid out in one block.

A block is `BLOCK_SIZE` bytes. The log header is a block of 64-bit words, the
count first, then one block number per log slot.
-/

import LabKernel.Lib.LittleEndian
import Mathlib.Logic.Function.Basic

set_option autoImplicit false

namespace LabKernel.Fs

open LittleEndian

def blockSize : Nat := 512

/-- `LOG_MAX_SIZE`: block numbers that fit in the header behind its count. -/
def logMaxSize : Nat := (blockSize - 8) / 8

abbrev BlockNo := UInt64

abbrev BlockData := Fin blockSize → UInt8

abbrev Disk := BlockNo → BlockData

/-- The superblock fields that `cache.c` reads. The last two fields are the
documented layout: the log area counts its header block, and it is a range of
32-bit block numbers. -/
structure SuperBlock where
  numBlocks : UInt32
  numLogBlocks : UInt32
  logStart : UInt32
  bitmapStart : UInt32
  headerCounted : 1 ≤ numLogBlocks.toNat
  logFits : logStart.toNat + numLogBlocks.toNat ≤ 2 ^ 32

/-- The superblock that `mkfs` writes. -/
def mkfsSuperBlock : SuperBlock :=
  { numBlocks := 1000
    numLogBlocks := 63
    logStart := 2
    bitmapStart := 91
    headerCounted := by decide
    logFits := by decide }

/-- `log_start`, as the device sees it. -/
def SuperBlock.headerBlock (sblock : SuperBlock) : BlockNo := sblock.logStart.toUInt64

/-- `log_start + tail + 1`, computed in 32 bits. -/
def SuperBlock.logBlock (sblock : SuperBlock) (tail : Nat) : BlockNo :=
  (sblock.logStart + UInt32.ofNat tail + 1).toUInt64

/-- The log area `[log_start, log_start + num_log_blocks)`. -/
def SuperBlock.InLog (sblock : SuperBlock) (blockNo : BlockNo) : Prop :=
  sblock.logStart.toNat ≤ blockNo.toNat ∧
    blockNo.toNat < sblock.logStart.toNat + sblock.numLogBlocks.toNat

instance (sblock : SuperBlock) (blockNo : BlockNo) : Decidable (sblock.InLog blockNo) :=
  inferInstanceAs (Decidable (_ ∧ _))

/-- `MIN(sblock->num_log_blocks - 1, LOG_MAX_SIZE)`, the subtraction in 32 bits. -/
def SuperBlock.logMx (sblock : SuperBlock) : Nat :=
  min (sblock.numLogBlocks - 1).toNat logMaxSize

theorem SuperBlock.logMx_le (sblock : SuperBlock) :
    sblock.logMx ≤ min (sblock.numLogBlocks.toNat - 1) logMaxSize := by
  have counted := sblock.headerCounted
  have one : (1 : UInt32) ≤ sblock.numLogBlocks := UInt32.le_iff_toNat_le.mpr counted
  have exactly : (sblock.numLogBlocks - 1).toNat = sblock.numLogBlocks.toNat - 1 :=
    UInt32.toNat_sub_of_le _ _ one
  unfold logMx
  rw [exactly]

theorem SuperBlock.logBlock_toNat (sblock : SuperBlock) {tail : Nat}
    (within : tail + 1 < sblock.numLogBlocks.toNat) :
    (sblock.logBlock tail).toNat = sblock.logStart.toNat + tail + 1 := by
  have fits := sblock.logFits
  simp only [logBlock, UInt32.toNat_toUInt64, UInt32.toNat_add, UInt32.toNat_ofNat',
    UInt32.toNat_one]
  omega

theorem SuperBlock.headerBlock_toNat (sblock : SuperBlock) :
    sblock.headerBlock.toNat = sblock.logStart.toNat := by
  simp only [headerBlock, UInt32.toNat_toUInt64]

theorem SuperBlock.tail_within {sblock : SuperBlock} {tail : Nat} (bound : tail < sblock.logMx) :
    tail + 1 < sblock.numLogBlocks.toNat ∧ tail < logMaxSize := by
  have limit := sblock.logMx_le
  omega

theorem SuperBlock.logBlock_inLog {sblock : SuperBlock} {tail : Nat}
    (bound : tail < sblock.logMx) : sblock.InLog (sblock.logBlock tail) := by
  have within := (tail_within bound).1
  unfold InLog
  rw [sblock.logBlock_toNat within]
  omega

theorem SuperBlock.headerBlock_inLog (sblock : SuperBlock) :
    sblock.InLog sblock.headerBlock := by
  have counted := sblock.headerCounted
  unfold InLog
  rw [headerBlock_toNat]
  omega

theorem SuperBlock.logBlock_ne_headerBlock {sblock : SuperBlock} {tail : Nat}
    (bound : tail < sblock.logMx) : sblock.logBlock tail ≠ sblock.headerBlock := by
  intro same
  have numbers := congrArg UInt64.toNat same
  rw [sblock.logBlock_toNat (tail_within bound).1, headerBlock_toNat] at numbers
  omega

theorem SuperBlock.logBlock_injective {sblock : SuperBlock} {left right : Nat}
    (leftBound : left < sblock.logMx) (rightBound : right < sblock.logMx)
    (same : sblock.logBlock left = sblock.logBlock right) : left = right := by
  have numbers := congrArg UInt64.toNat same
  rw [sblock.logBlock_toNat (tail_within leftBound).1,
    sblock.logBlock_toNat (tail_within rightBound).1] at numbers
  omega

/-- `LogHeader`. The count is a natural number; its place on disk is one 64-bit word. -/
structure LogHeader where
  numBlocks : Nat
  blockNo : Fin logMaxSize → BlockNo

def LogHeader.word (header : LogHeader) : Nat → Nat
  | 0 => header.numBlocks
  | index + 1 =>
      if within : index < logMaxSize then (header.blockNo ⟨index, within⟩).toNat else 0

/-- `(u8*)&header`. -/
def LogHeader.toBlock (header : LogHeader) : BlockData := fun index =>
  UInt8.ofNat (byteAt (header.word (index.val / 8)) (index.val % 8))

def wordAt (data : BlockData) (index : Nat) : Nat :=
  readBytes (fun place =>
    if within : 8 * index + place < blockSize then (data ⟨8 * index + place, within⟩).toNat
    else 0) 8

def LogHeader.ofBlock (data : BlockData) : LogHeader :=
  { numBlocks := wordAt data 0
    blockNo := fun index => UInt64.ofNat (wordAt data (index.val + 1)) }

theorem LogHeader.wordAt_toBlock (header : LogHeader) (index : Nat) (within : index < 64) :
    wordAt header.toBlock index = header.word index % 2 ^ 64 := by
  have bytes : wordAt header.toBlock index = readBytes (byteAt (header.word index)) 8 := by
    apply readBytes_congr
    intro place small
    have inside : 8 * index + place < blockSize := by
      unfold blockSize
      omega
    have slot : (8 * index + place) / 8 = index := by omega
    have offset : (8 * index + place) % 8 = place := by omega
    rw [dif_pos inside]
    simp only [toBlock, slot, offset, UInt8.toNat_ofNat']
    exact Nat.mod_eq_of_lt (byteAt_lt _ _)
  have size : 256 ^ 8 = 2 ^ 64 := by decide
  rw [bytes, readBytes_byteAt, size]

/-- A written header is read back, its count modulo the word size. -/
theorem LogHeader.ofBlock_toBlock (header : LogHeader) (small : header.numBlocks < 2 ^ 64) :
    LogHeader.ofBlock header.toBlock = header := by
  have count : wordAt header.toBlock 0 = header.numBlocks := by
    rw [header.wordAt_toBlock 0 (by decide)]
    exact Nat.mod_eq_of_lt small
  have numbers : (fun index : Fin logMaxSize =>
      UInt64.ofNat (wordAt header.toBlock (index.val + 1))) = header.blockNo := by
    funext index
    have within : index.val + 1 < 64 := Nat.succ_lt_succ index.isLt
    rw [header.wordAt_toBlock _ within]
    simp only [word, dif_pos index.isLt]
    apply UInt64.toNat.inj
    rw [UInt64.toNat_ofNat', Nat.mod_mod]
    exact Nat.mod_eq_of_lt (header.blockNo index).toNat_lt
  unfold ofBlock
  rw [count, numbers]

/-- `header.block_no[0 .. header.num_blocks)`. -/
def LogHeader.Lists (header : LogHeader) (blockNo : BlockNo) : Prop :=
  ∃ index : Fin logMaxSize, index.val < header.numBlocks ∧ header.blockNo index = blockNo

instance (header : LogHeader) (blockNo : BlockNo) : Decidable (header.Lists blockNo) :=
  inferInstanceAs (Decidable (∃ index : Fin logMaxSize,
    index.val < header.numBlocks ∧ header.blockNo index = blockNo))

def LogHeader.Distinct (header : LogHeader) : Prop :=
  ∀ left right : Fin logMaxSize, left.val < header.numBlocks → right.val < header.numBlocks →
    header.blockNo left = header.blockNo right → left = right

/-- `header.block_no[tail]`. -/
def LogHeader.entry (header : LogHeader) (tail : Nat) : BlockNo :=
  if within : tail < logMaxSize then header.blockNo ⟨tail, within⟩ else 0

theorem LogHeader.blockNo_eq_entry (header : LogHeader) {tail : Nat} (within : tail < logMaxSize) :
    header.blockNo ⟨tail, within⟩ = header.entry tail := by
  unfold entry
  rw [dif_pos within]

theorem LogHeader.lists_entry {header : LogHeader} {index : Nat}
    (within : index < header.numBlocks) (slot : index < logMaxSize) :
    header.Lists (header.entry index) :=
  ⟨⟨index, slot⟩, within, header.blockNo_eq_entry slot⟩

/-- Why a call does not return: it sleeps or spins, a `PANIC` or `ASSERT` stops the
machine, or it leaves the memory it may use. -/
inductive Stop where
  | blocks
  | panicLogFull
  | panicOutstanding
  | panicBudget
  | panicCommitting
  | panicNoFreeBlock
  | panicDoubleFree
  | assertion
  | useAfterFree
  | outOfBounds
  deriving DecidableEq, Repr

end LabKernel.Fs
