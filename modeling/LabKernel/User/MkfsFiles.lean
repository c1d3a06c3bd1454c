/-
The blocks of the files of an image: every inode has blocks of its own, taken in turn from
`freeblock`, and they hold the bytes that the file has.
-/

import LabKernel.Lib.Numbering
import LabKernel.User.MkfsBlocks

set_option autoImplicit false

namespace LabKernel.User.Mkfs

open Fs LittleEndian LabKernel.Numbering

/-- What an inode uses a block for. -/
inductive Usage where
  | data (fbn : Nat)
  | indirect
  deriving DecidableEq

def fileBlock (sector : Nat → BlockData) (inode : InodeEntry) (fbn : Nat) : Nat :=
  if direct : fbn < nDirect then (inode.addrs ⟨fbn, direct⟩).toNat
  else if within : fbn - nDirect < nIndirect then
    if inode.indirect = 0 then 0
    else (indirectOf (sector inode.indirect.toNat) ⟨fbn - nDirect, within⟩).toNat
  else 0

def usedBlock (sector : Nat → BlockData) (inode : InodeEntry) : Usage → Nat
  | .data fbn => fileBlock sector inode fbn
  | .indirect => inode.indirect.toNat

def fileByte (sector : Nat → BlockData) (inode : InodeEntry) (offset : Nat) : UInt8 :=
  sector (fileBlock sector inode (offset / blockSize))
    ⟨offset % blockSize, Nat.mod_lt _ (by decide)⟩

/-- The block numbers of the inodes of a table, over all uses. -/
abbrev blockOf (sector : Nat → BlockData) (table : Nat → InodeEntry) (key : Nat × Usage) : Nat :=
  usedBlock sector (table key.1) key.2

/-- The inodes of a table have blocks of their own, which hold the contents of their files, and
the blocks from `freeblock` on are clear. -/
structure Filled (sector : Nat → BlockData) (table : Nat → InodeEntry) (freeblock : Nat)
    (contents : Nat → List UInt8) : Prop where
  low : nmeta ≤ freeblock
  numbered : Numbered nmeta freeblock (blockOf sector table)
  fits : ∀ inum, (contents inum).length ≤ inodeMaxBlocks * blockSize
  present : ∀ inum offset, offset < (contents inum).length →
    fileBlock sector (table inum) (offset / blockSize) ≠ 0
  holds : ∀ inum offset, (within : offset < (contents inum).length) →
    fileByte sector (table inum) offset = (contents inum)[offset]
  clear : ∀ sec, freeblock ≤ sec → sector sec = fun _ => 0

/-! ### File blocks -/

section FileBlocks

variable {sector sector' : Nat → BlockData} {inode inode' : InodeEntry}

theorem fileBlock_direct {fbn : Nat} (direct : fbn < nDirect) :
    fileBlock sector inode fbn = (inode.addrs ⟨fbn, direct⟩).toNat := by
  unfold fileBlock
  exact dif_pos direct

theorem fileBlock_indirect {fbn : Nat} (behind : ¬fbn < nDirect)
    (within : fbn - nDirect < nIndirect) : fileBlock sector inode fbn =
      if inode.indirect = 0 then 0
      else (indirectOf (sector inode.indirect.toNat) ⟨fbn - nDirect, within⟩).toNat := by
  unfold fileBlock
  rw [dif_neg behind, dif_pos within]

theorem fileBlock_written (addrs : Fin nIndirect → UInt32) (some : inode.indirect ≠ 0) {fbn : Nat}
    (behind : ¬fbn < nDirect) (within : fbn - nDirect < nIndirect) :
    fileBlock (Function.update sector inode.indirect.toNat (indirectBlock addrs)) inode fbn =
      (addrs ⟨fbn - nDirect, within⟩).toNat := by
  rw [fileBlock_indirect behind within, if_neg some, Function.update_self,
    indirectOf_indirectBlock]

theorem fileBlock_congr (addrs : inode'.addrs = inode.addrs)
    (indirect : inode'.indirect = inode.indirect)
    (same : inode.indirect ≠ 0 → sector' inode.indirect.toNat = sector inode.indirect.toNat)
    (fbn : Nat) : fileBlock sector' inode' fbn = fileBlock sector inode fbn := by
  unfold fileBlock
  rw [addrs, indirect]
  by_cases none : inode.indirect = 0
  · simp only [if_pos none]
  · simp only [if_neg none, same none]

theorem usedBlock_congr (addrs : inode'.addrs = inode.addrs)
    (indirect : inode'.indirect = inode.indirect)
    (same : inode.indirect ≠ 0 → sector' inode.indirect.toNat = sector inode.indirect.toNat)
    (usage : Usage) : usedBlock sector' inode' usage = usedBlock sector inode usage := by
  cases usage with
  | data fbn => exact fileBlock_congr addrs indirect same fbn
  | indirect => exact congrArg UInt32.toNat indirect

theorem usedBlock_written (some : inode.indirect ≠ 0) {fbn : Nat} (behind : ¬fbn < nDirect)
    (within : fbn - nDirect < nIndirect) (word : UInt32) {usage : Usage}
    (different : usage ≠ .data fbn) :
    usedBlock (Function.update sector inode.indirect.toNat (indirectBlock (Function.update
      (indirectOf (sector inode.indirect.toNat)) ⟨fbn - nDirect, within⟩ word))) inode usage =
      usedBlock sector inode usage := by
  cases usage with
  | indirect => rfl
  | data other =>
      change fileBlock _ _ other = fileBlock _ _ other
      by_cases direct : other < nDirect
      · rw [fileBlock_direct direct, fileBlock_direct direct]
      · by_cases entry : other - nDirect < nIndirect
        · have apart : (⟨other - nDirect, entry⟩ : Fin nIndirect) ≠ ⟨fbn - nDirect, within⟩ := by
            intro same
            have equal : other - nDirect = fbn - nDirect := congrArg Fin.val same
            have fbns : other = fbn := by omega
            exact different (congrArg Usage.data fbns)
          rw [fileBlock_written _ some direct entry, fileBlock_indirect direct entry, if_neg some,
            Function.update_of_ne apart]
        · unfold fileBlock
          rw [dif_neg direct, dif_neg direct, dif_neg entry, dif_neg entry]

theorem toNat_ne_zero {word : UInt32} : word.toNat ≠ 0 ↔ word ≠ 0 := by
  rw [not_iff_not]
  exact ⟨fun zero => UInt32.toNat.inj zero, fun zero => by rw [zero]; rfl⟩

theorem usedBlock_none (addrs : ∀ index, inode.addrs index = 0) (indirect : inode.indirect = 0)
    (usage : Usage) : usedBlock sector inode usage = 0 := by
  cases usage with
  | data fbn =>
      change fileBlock sector inode fbn = 0
      unfold fileBlock
      split
      · rw [addrs]
        rfl
      · split <;> rfl
  | indirect =>
      change inode.indirect.toNat = 0
      rw [indirect]
      rfl

end FileBlocks

/-! ### Keeping and changing blocks -/

namespace Filled

variable {sector sector' : Nat → BlockData} {table table' : Nat → InodeEntry}
  {freeblock : Nat} {contents contents' : Nat → List UInt8}

theorem fileBlock_range (filled : Filled sector table freeblock contents) {inum fbn : Nat}
    (nonzero : fileBlock sector (table inum) fbn ≠ 0) :
    nmeta ≤ fileBlock sector (table inum) fbn ∧ fileBlock sector (table inum) fbn < freeblock :=
  filled.numbered.inRange (inum, .data fbn) nonzero

theorem apart (filled : Filled sector table freeblock contents) {inum : Nat} (other : Nat)
    (usage usage' : Usage) (nonzero : usedBlock sector (table inum) usage ≠ 0)
    (different : inum ≠ other ∨ usage ≠ usage') :
    usedBlock sector (table other) usage' ≠ usedBlock sector (table inum) usage := by
  intro same
  have equal := filled.numbered.apart (inum, usage) (other, usage') nonzero same.symm
  rcases different with inums | usages
  · exact inums (congrArg Prod.fst equal)
  · exact usages (congrArg Prod.snd equal)

theorem indirect_range (filled : Filled sector table freeblock contents) (inum : Nat)
    (nonzero : (table inum).indirect ≠ 0) :
    nmeta ≤ (table inum).indirect.toNat ∧ (table inum).indirect.toNat < freeblock :=
  filled.numbered.inRange (inum, .indirect) (toNat_ne_zero.mpr nonzero)

/-- Inodes may change outside their addresses, and sectors outside the data area. -/
theorem frame (filled : Filled sector table freeblock contents)
    (addrs : ∀ inum, (table' inum).addrs = (table inum).addrs)
    (indirect : ∀ inum, (table' inum).indirect = (table inum).indirect)
    (same : ∀ sec, nmeta ≤ sec → sector' sec = sector sec) :
    Filled sector' table' freeblock contents := by
  have blocks : ∀ inum usage,
      usedBlock sector' (table' inum) usage = usedBlock sector (table inum) usage := by
    intro inum usage
    apply usedBlock_congr (addrs inum) (indirect inum)
    intro nonzero
    exact same _ (filled.indirect_range inum nonzero).1
  constructor
  · exact filled.low
  · exact filled.numbered.drop (fun key _ => blocks key.1 key.2)
  · exact filled.fits
  · intro inum offset within
    have block := blocks inum (.data (offset / blockSize))
    change fileBlock _ _ _ = fileBlock _ _ _ at block
    rw [block]
    exact filled.present inum offset within
  · intro inum offset within
    have block := blocks inum (.data (offset / blockSize))
    change fileBlock _ _ _ = fileBlock _ _ _ at block
    have range := filled.fileBlock_range (filled.present inum offset within)
    rw [← filled.holds inum offset within]
    unfold fileByte
    rw [block, same _ range.1]
  · intro sec free
    rw [same sec (le_trans filled.low free)]
    exact filled.clear sec free

/-- An inode takes the next block for a use for which it had none. -/
theorem take (filled : Filled sector table freeblock contents) (inum : Nat) (usage : Usage)
    (none : usedBlock sector (table inum) usage = 0)
    (taken : usedBlock sector' (table' inum) usage = freeblock)
    (kept : ∀ other usage', (other, usage') ≠ (inum, usage) →
      usedBlock sector' (table' other) usage' = usedBlock sector (table other) usage')
    (same : ∀ other fbn, fileBlock sector (table other) fbn ≠ 0 →
      sector' (fileBlock sector (table other) fbn) = sector (fileBlock sector (table other) fbn))
    (clear : ∀ sec, freeblock < sec → sector' sec = sector sec) :
    Filled sector' table' (freeblock + 1) contents := by
  have blocks : ∀ other fbn, fileBlock sector (table other) fbn ≠ 0 →
      fileBlock sector' (table' other) fbn = fileBlock sector (table other) fbn := by
    intro other fbn nonzero
    apply kept other (.data fbn)
    intro equal
    have inums : other = inum := congrArg Prod.fst equal
    have usages : Usage.data fbn = usage := congrArg Prod.snd equal
    apply nonzero
    rw [inums]
    rw [← usages] at none
    exact none
  constructor
  · exact Nat.le_succ_of_le filled.low
  · exact filled.numbered.take filled.low (inum, usage) taken
      (fun other different => kept other.1 other.2 different)
  · exact filled.fits
  · intro other offset within
    have nonzero := filled.present other offset within
    rw [blocks other _ nonzero]
    exact nonzero
  · intro other offset within
    have nonzero := filled.present other offset within
    rw [← filled.holds other offset within]
    unfold fileByte
    rw [blocks other _ nonzero, same other _ nonzero]
  · intro sec free
    rw [clear sec free]
    exact filled.clear sec (Nat.le_of_succ_le free)

theorem write (filled : Filled sector table freeblock contents) {inum fbn : Nat}
    (nonzero : fileBlock sector (table inum) fbn ≠ 0) (buf : BlockData) (bytes : List UInt8)
    (fits : bytes.length ≤ inodeMaxBlocks * blockSize)
    (inside : ∀ offset, (within : offset < bytes.length) → offset / blockSize = fbn →
      buf ⟨offset % blockSize, Nat.mod_lt _ (by decide)⟩ = bytes[offset])
    (outside : ∀ offset, (within : offset < bytes.length) → offset / blockSize ≠ fbn →
      ∃ old : offset < (contents inum).length, bytes[offset] = (contents inum)[offset]) :
    Filled (Function.update sector (fileBlock sector (table inum) fbn) buf) table freeblock
      (Function.update contents inum bytes) := by
  have range := filled.fileBlock_range nonzero
  have distinct : ∀ other usage, (other ≠ inum ∨ usage ≠ .data fbn) →
      usedBlock sector (table other) usage ≠ fileBlock sector (table inum) fbn :=
    fun other usage different =>
      filled.apart other (.data fbn) usage nonzero (different.imp Ne.symm Ne.symm)
  generalize target : fileBlock sector (table inum) fbn = written at nonzero range distinct
  have blocks : ∀ other usage, usedBlock (Function.update sector written buf) (table other) usage =
      usedBlock sector (table other) usage := by
    intro other usage
    apply usedBlock_congr rfl rfl
    intro _
    apply Function.update_of_ne
    exact distinct other .indirect (Or.inr (by intro impossible; cases impossible))
  have fileBlocks : ∀ other offset, fileBlock (Function.update sector written buf) (table other)
      (offset / blockSize) = fileBlock sector (table other) (offset / blockSize) :=
    fun other offset => blocks other (.data (offset / blockSize))
  have kept : ∀ other offset, (other ≠ inum ∨ offset / blockSize ≠ fbn) →
      fileByte (Function.update sector written buf) (table other) offset =
        fileByte sector (table other) offset := by
    intro other offset different
    unfold fileByte
    rw [fileBlocks other offset, Function.update_of_ne]
    exact distinct other (.data (offset / blockSize)) (different.imp id
      (fun fbns equal => fbns (Usage.data.inj equal)))
  constructor
  · exact filled.low
  · exact filled.numbered.drop (fun key _ => blocks key.1 key.2)
  · intro other
    by_cases own : other = inum
    · rw [own, Function.update_self]
      exact fits
    · rw [Function.update_of_ne own]
      exact filled.fits other
  · intro other offset within
    rw [fileBlocks other offset]
    by_cases own : other = inum
    · subst own
      rw [Function.update_self] at within
      by_cases here : offset / blockSize = fbn
      · rw [here, target]
        exact nonzero
      · obtain ⟨old, _⟩ := outside offset within here
        exact filled.present other offset old
    · rw [Function.update_of_ne own] at within
      exact filled.present other offset within
  · intro other offset within
    by_cases own : other = inum
    · subst own
      simp only [Function.update_self] at within ⊢
      by_cases here : offset / blockSize = fbn
      · rw [← inside offset within here]
        unfold fileByte
        rw [fileBlocks other offset, here, target, Function.update_self]
      · obtain ⟨old, equal⟩ := outside offset within here
        rw [equal, kept other offset (Or.inr here)]
        exact filled.holds other offset old
    · simp only [Function.update_of_ne own] at within ⊢
      rw [kept other offset (Or.inl own)]
      exact filled.holds other offset within
  · intro sec free
    rw [Function.update_of_ne (by omega)]
    exact filled.clear sec free

theorem drop (filled : Filled sector table freeblock contents) {inum : Nat} {inode : InodeEntry}
    (empty : contents inum = []) (addrs : ∀ index, inode.addrs index = 0)
    (indirect : inode.indirect = 0) :
    Filled sector (Function.update table inum inode) freeblock contents := by
  have other : ∀ offset number, offset < (contents number).length → number ≠ inum := by
    intro offset number within same
    rw [same, empty] at within
    exact Nat.not_lt_zero _ within
  constructor
  · exact filled.low
  · apply filled.numbered.drop
    intro key nonzero
    by_cases own : key.1 = inum
    · apply absurd _ nonzero
      change usedBlock _ (Function.update table inum inode key.1) _ = 0
      rw [own, Function.update_self]
      exact usedBlock_none addrs indirect key.2
    · change usedBlock _ (Function.update table inum inode key.1) _ = _
      rw [Function.update_of_ne own]
  · exact filled.fits
  · intro number offset within
    rw [Function.update_of_ne (other offset number within)]
    exact filled.present number offset within
  · intro number offset within
    rw [Function.update_of_ne (other offset number within)]
    exact filled.holds number offset within
  · exact filled.clear

end Filled

end LabKernel.User.Mkfs
