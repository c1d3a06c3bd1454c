/-
A finished image holds the input files: they can be read back from it.
-/

import LabKernel.User.MkfsRuns

set_option autoImplicit false

namespace LabKernel.User.Mkfs

open Fs LittleEndian LabKernel.Numbering Outcomes

/-! ### Reading the image -/

/-- The inode with a number, at the place that `IBLOCK` gives it. -/
def Image.inode (image : Image) (inum : Nat) : InodeEntry :=
  .ofBlock (image.sector (iblock inum)) (inum % ipb)

/-- Bytes of a file, read over the addresses of its inode. -/
def Image.read (image : Image) (inum start count : Nat) : List UInt8 :=
  (List.range count).map fun place => fileByte image.sector (image.inode inum) (start + place)

/-- All bytes of a file, as many as its inode says. -/
def Image.file (image : Image) (inum : Nat) : List UInt8 :=
  image.read inum 0 (image.inode inum).numBytes.toNat

def Image.rootEntry (image : Image) (index : Nat) : List UInt8 :=
  image.read rootInodeNo (16 * index) 16

/-- The field `inode_no` of a directory entry. -/
def entryInode (entry : List UInt8) : Nat :=
  (entry.getD 0 0).toNat + 256 * (entry.getD 1 0).toNat

theorem entryInode_dirent {inum : Nat} (small : inum < 2 ^ 16) (name : List UInt8) :
    entryInode (dirent inum name) = inum := by
  change (UInt8.ofNat (byteAt inum 0)).toNat + 256 * (UInt8.ofNat (byteAt inum 1)).toNat = inum
  rw [UInt8.toNat_ofNat', UInt8.toNat_ofNat']
  unfold byteAt
  omega

section Finished

variable {files : List InputFile} {image : Image}

theorem table_eq {inum : Nat} (within : inum < inodeArea) : image.table inum = image.inode inum :=
  if_pos within

theorem Finished.read_eq (finished : Finished files image) {inum start count : Nat}
    (within : inum < inodeArea) (inside : start + count ≤ (contentsOf files inum).length) :
    image.read inum start count = ((contentsOf files inum).drop start).take count := by
  apply List.ext_getElem
  · unfold Image.read
    rw [List.length_map, List.length_range, List.length_take, List.length_drop]
    omega
  · intro place left right
    unfold Image.read at left ⊢
    rw [List.length_map, List.length_range] at left
    rw [List.getElem_map, List.getElem_range, List.getElem_take, List.getElem_drop,
      ← table_eq within]
    exact finished.filled.holds inum (start + place) (by omega)

theorem Finished.file_eq (finished : Finished files image) {index : Nat}
    (within : index < files.length) (small : index + 2 < inodeArea) :
    (image.inode (index + 2)).numBytes.toNat = files[index].bytes.length ∧
      image.file (index + 2) = files[index].bytes := by
  have contents : contentsOf files (index + 2) = files[index].bytes := by
    change (files[index]?.map InputFile.bytes).getD [] = _
    rw [List.getElem?_eq_getElem within]
    rfl
  have apart : index + 2 ≠ rootInodeNo := by
    unfold rootInodeNo
    omega
  have length := finished.length (index + 2) apart
  rw [table_eq small, contents] at length
  refine ⟨length, ?_⟩
  unfold Image.file
  rw [length, finished.read_eq small (by rw [contents, Nat.zero_add]), contents, List.drop_zero,
    List.take_length]

theorem Finished.rootEntry_eq (finished : Finished files image) {index : Nat}
    (within : index < files.length) :
    image.rootEntry (index + 2) = dirent (index + 2) files[index].name := by
  have rootLength := contentsOf_root_length files
  unfold Image.rootEntry
  rw [finished.read_eq (by decide) (by rw [rootLength]; omega)]
  have first : (dirent rootInodeNo [46] ++ dirent rootInodeNo [46, 46]).length = 32 := by
    rw [List.length_append, dirent_length, dirent_length]
  have behind : 16 * (index + 2) =
      (dirent rootInodeNo [46] ++ dirent rootInodeNo [46, 46]).length + 16 * index := by
    rw [first]
    omega
  change (List.drop _ (dirent rootInodeNo [46] ++ dirent rootInodeNo [46, 46] ++
    dirents 2 files)).take 16 = _
  rw [behind, List.drop_length_add_append, dirents_entry 2 within, Nat.add_comm 2]

end Finished

/-! ### The round trip -/

theorem nInodes_le : nInodes ≤ inodeArea := by decide

/-- The files can be read back from a finished image, in which no block is used twice. -/
theorem mkfs_round_trip {files : List InputFile} (few : files.length ≤ 198) {image : Image}
    (finished : mkfs files = .ok image) :
    (∀ index, (within : index < files.length) →
      entryInode (image.rootEntry (index + 2)) = index + 2 ∧
      (image.inode (index + 2)).numBytes.toNat = files[index].bytes.length ∧
      (∀ fbn, fbn * blockSize < files[index].bytes.length →
        fileBlock image.sector (image.inode (index + 2)) fbn ≠ 0) ∧
      image.file (index + 2) = files[index].bytes) ∧
    (∀ inum, inum < nInodes → ∀ usage, usedBlock image.sector (image.inode inum) usage ≠ 0 →
      nmeta ≤ usedBlock image.sector (image.inode inum) usage ∧
      usedBlock image.sector (image.inode inum) usage < image.freeblock) ∧
    (∀ inum other, inum < nInodes → other < nInodes → ∀ usage usage',
      usedBlock image.sector (image.inode inum) usage ≠ 0 →
      usedBlock image.sector (image.inode inum) usage =
        usedBlock image.sector (image.inode other) usage' →
      inum = other ∧ usage = usage') ∧
    image.freeblock ≤ fsSize ∧
    ∀ bi : Fin bitPerBlock,
      bitAt (image.sector bitmapStart) bi = decide (bi.val < image.freeblock) := by
  have area : inodeArea = 208 := rfl
  have built := (mkfs_outcome files (by omega)).returned image finished
  have inode : ∀ inum, inum < nInodes → image.inode inum = image.table inum := fun inum small =>
    (table_eq (lt_of_lt_of_le small nInodes_le)).symm
  refine ⟨?_, ?_, ?_, built.enough, ?_⟩
  · intro index within
    have small : index + 2 < inodeArea := by omega
    obtain ⟨length, bytes⟩ := built.file_eq within small
    refine ⟨?_, length, ?_, bytes⟩
    · rw [built.rootEntry_eq within]
      exact entryInode_dirent (by omega) _
    · intro fbn below
      have contents : contentsOf files (index + 2) = files[index].bytes := by
        change (files[index]?.map InputFile.bytes).getD [] = _
        rw [List.getElem?_eq_getElem within]
        rfl
      have present := built.filled.present (index + 2) (fbn * blockSize) (by
        rw [contents]
        exact below)
      rw [table_eq small, Nat.mul_div_cancel _ (by decide)] at present
      exact present
  · intro inum small usage nonzero
    rw [inode inum small] at nonzero ⊢
    exact built.filled.numbered.inRange (inum, usage) nonzero
  · intro inum other small small' usage usage' nonzero same
    rw [inode inum small] at nonzero same
    rw [inode other small'] at same
    have equal := built.filled.numbered.apart (inum, usage) (other, usage') nonzero same
    exact ⟨congrArg Prod.fst equal, congrArg Prod.snd equal⟩
  · intro bi
    rw [built.bitmap]
    have bounds : fsSize < bitPerBlock := by decide
    exact bitAt_ballocLoop _ (lt_of_le_of_lt built.enough bounds) bi

def smallFile : InputFile :=
  { path := [120, 47, 95, 97]
    terminated := by decide
    chunks := some [⟨[104, 105], by decide⟩] }

def emptyFile : InputFile :=
  { path := [97]
    terminated := by decide
    chunks := some [] }

theorem fullChunk_fits (byte : UInt8) : List.replicate blockSize byte ≠ [] ∧
    (List.replicate blockSize byte).length ≤ blockSize := by
  have whole : (List.replicate blockSize byte).length = blockSize := List.length_replicate
  refine ⟨List.ne_nil_of_length_pos ?_, Nat.le_of_eq whole⟩
  rw [whole]
  decide

def fullChunk (byte : UInt8) : Chunk := ⟨List.replicate blockSize byte, fullChunk_fits byte⟩

/-- A file that goes on in the indirect block. -/
def largeFile : InputFile :=
  { path := [98]
    terminated := by decide
    chunks := some (List.replicate 14 (fullChunk 65)) }

theorem largeFile_length : largeFile.bytes.length = 7168 := by
  have chunk : ∀ count, ((List.replicate count (fullChunk 65)).flatMap
      (fun chunk => chunk.val)).length = count * blockSize := by
    intro count
    induction count with
    | zero => rw [Nat.zero_mul]; rfl
    | succ count ih =>
        have here : (fullChunk 65).val.length = blockSize := List.length_replicate
        rw [List.replicate_succ, List.flatMap_cons, List.length_append, ih, here, Nat.succ_mul,
          Nat.add_comm]
  exact chunk 14

def threeFiles : List InputFile := [smallFile, emptyFile, largeFile]

theorem mkfs_threeFiles : ∃ image, mkfs threeFiles = .ok image := by
  have room : nmeta + 8 + 4 * (threeFiles.map InputFile.cost).sum ≤ fsSize := by decide
  obtain ⟨image, finished, -⟩ := (mkfs_outcome threeFiles (by decide)).returns (fun full => full ⟨by
    intro file member
    have named : file = smallFile ∨ file = emptyFile ∨ file = largeFile := by
      simpa [threeFiles] using member
    rcases named with rfl | rfl | rfl
    · exact ⟨Option.some_ne_none _, by decide⟩
    · exact ⟨Option.some_ne_none _, by decide⟩
    · refine ⟨Option.some_ne_none _, ?_⟩
      rw [largeFile_length]
      decide, room⟩)
  exact ⟨image, finished⟩

theorem mkfs_round_trip_three : ∃ image, mkfs threeFiles = .ok image ∧
    entryInode (image.rootEntry 4) = 4 ∧ image.file 2 = [104, 105] ∧ image.file 3 = [] ∧
    image.file 4 = largeFile.bytes ∧ (image.inode 4).numBytes.toNat = 7168 ∧
    fileBlock image.sector (image.inode 4) 13 ≠ 0 := by
  obtain ⟨image, finished⟩ := mkfs_threeFiles
  obtain ⟨files, -⟩ := mkfs_round_trip (by decide) finished
  obtain ⟨-, -, -, small⟩ := files 0 (by decide)
  obtain ⟨-, -, -, empty⟩ := files 1 (by decide)
  obtain ⟨entry, length, blocks, large⟩ := files 2 (by decide)
  refine ⟨image, finished, entry, small, empty, large, length.trans largeFile_length, ?_⟩
  apply blocks
  change 13 * blockSize < largeFile.bytes.length
  rw [largeFile_length]
  decide

end LabKernel.User.Mkfs
