/-
The sizes of the files of a finished image, and the blocks they have.

An append takes a block for every piece and none behind it, so no direct block lies behind the
end of a file. At the end of a run the size of the root directory is rounded up, to the next
multiple of the block size even when it is one already.
-/

import LabKernel.User.MkfsInodes

set_option autoImplicit false

namespace LabKernel.User.Mkfs

open Fs Outcomes

/-- The inode has no direct block behind an offset. -/
def InodeEntry.EndsAt (inode : InodeEntry) (off : Nat) : Prop :=
  ∀ index : Fin nDirect, off ≤ index.val * blockSize → inode.addrs index = 0

/-- No inode has a direct block behind its size. -/
def Image.Trimmed (image : Image) : Prop :=
  ∀ inum, (image.table inum).EndsAt (image.table inum).numBytes.toNat

/-! ### Appending -/

section Appending

variable {state next final : Append}

theorem blockFor_frame {fbn : Fin inodeMaxBlocks} {x : Nat}
    (returned : state.blockFor fbn = .ok (x, next)) : next.off = state.off ∧
      ∀ index : Fin nDirect, index.val ≠ fbn.val →
        next.din.addrs index = state.din.addrs index := by
  unfold Append.blockFor at returned
  split at returned
  case isTrue within =>
    cases returned
    split
    · refine ⟨rfl, ?_⟩
      intro index different
      apply Function.update_of_ne
      intro same
      exact different (congrArg Fin.val same)
    · exact ⟨rfl, fun _ _ => rfl⟩
  case isFalse =>
    have kept : state.withIndirect.off = state.off ∧
        state.withIndirect.din.addrs = state.din.addrs := by
      unfold Append.withIndirect
      split <;> exact ⟨rfl, rfl⟩
    unfold Append.entry at returned
    obtain ⟨buf, -, returned⟩ := bind_eq_ok returned
    simp only at returned
    split at returned
    · cases returned
      exact ⟨kept.1, fun index _ => congrFun kept.2 index⟩
    · cases returned
      exact ⟨kept.1, fun index _ => congrFun kept.2 index⟩

theorem piece_endsAt {p : List UInt8} {n1 : Nat} (ends : state.din.EndsAt state.off)
    (some : p ≠ []) (returned : state.piece p = .ok (n1, next)) : next.din.EndsAt next.off := by
  unfold Append.piece at returned
  split at returned
  case isTrue within =>
    obtain ⟨⟨x, found⟩, located, returned⟩ := bind_eq_ok returned
    obtain ⟨off, addrs⟩ := blockFor_frame located
    obtain ⟨buf, -, returned⟩ := bind_eq_ok returned
    cases returned
    have positive : 0 < p.length := List.length_pos_iff.mpr some
    intro index behind
    change found.off + min p.length ((state.off / blockSize + 1) * blockSize - found.off) ≤
      index.val * blockSize at behind
    change found.din.addrs index = 0
    rw [off] at behind
    unfold blockSize at behind addrs
    rw [addrs index]
    · apply ends index
      unfold blockSize
      omega
    · change index.val ≠ state.off / 512
      omega
  case isFalse => cases returned

theorem loop_endsAt {rounds : Nat} {p : List UInt8} (ends : state.din.EndsAt state.off)
    (returned : Append.loop rounds state p = .ok final) : final.din.EndsAt final.off := by
  induction rounds generalizing state p with
  | zero =>
      cases p with
      | nil =>
          cases returned
          exact ends
      | cons first rest => cases returned
  | succ rounds ih =>
      cases p with
      | nil =>
          cases returned
          exact ends
      | cons first rest =>
          unfold Append.loop at returned
          obtain ⟨⟨n1, next⟩, taken, returned⟩ := bind_eq_ok returned
          exact ih (piece_endsAt ends (List.cons_ne_nil first rest) taken) returned

end Appending

/-! ### The steps of a run -/

section Steps

variable {image after : Image} {contents : Nat → List UInt8} {inum : Nat} {p : List UInt8}

/-- An inode is written that has no direct block behind its size. -/
theorem Image.Trimmed.update (trimmed : image.Trimmed) {ip : InodeEntry}
    (table : after.table = Function.update image.table inum ip)
    (ends : ip.EndsAt ip.numBytes.toNat) : after.Trimmed := by
  intro other
  rw [table]
  by_cases own : other = inum
  · rw [own, Function.update_self]
    exact ends
  · rw [Function.update_of_ne own]
    exact trimmed other

theorem Building.iappend_trimmed (building : Building image contents)
    (allocated : inum < image.freeinode) (trimmed : image.Trimmed)
    (returned : image.iappend inum p = .ok after) : after.Trimmed := by
  have within : inum < inodeArea := lt_of_lt_of_le allocated building.area
  unfold Image.iappend at returned
  rw [rinode_eq building.size within, ok_bind] at returned
  obtain ⟨final, looped, returned⟩ := bind_eq_ok returned
  obtain ⟨appended, -⟩ := ((building.appending inum).loop building.size building.enough
    (Nat.le_refl _)).returned final looped
  have kept := appended.kept
  rw [winode_eq final.image (kept.size.trans building.size) within] at returned
  cases returned
  have table : final.image.table = image.table :=
    table_congr (fun sec small => kept.low sec (small.trans bitmapStart_lt))
  have fits := appended.filled.fits inum
  rw [Function.update_self, ← appended.off] at fits
  apply trimmed.update
  · rw [written_table within, table]
  · change InodeEntry.EndsAt _ (UInt32.ofNat final.off).toNat
    rw [toNat_ofNat_small (lt_of_le_of_lt fits (by decide))]
    exact loop_endsAt (trimmed inum) looped

theorem Building.ialloc_trimmed (building : Building image contents)
    (room : image.freeinode < inodeArea) (trimmed : image.Trimmed) {type : UInt16}
    (returned : image.ialloc type = .ok (inum, after)) : after.Trimmed := by
  unfold Image.ialloc at returned
  have written := winode_eq { image with freeinode := image.freeinode + 1 } building.size room
    (Image.newInode type)
  simp only [written] at returned
  cases returned
  apply trimmed.update (written_table room (Image.newInode type))
  intro index _
  rfl

theorem Building.appendChunks_trimmed (building : Building image contents)
    (allocated : inum < image.freeinode) (trimmed : image.Trimmed) {chunks : List Chunk}
    (returned : Image.appendChunks inum image chunks = .ok after) : after.Trimmed := by
  induction chunks generalizing image contents with
  | nil =>
      cases returned
      exact trimmed
  | cons chunk rest ih =>
      unfold Image.appendChunks at returned
      obtain ⟨next, appended, returned⟩ := bind_eq_ok returned
      obtain ⟨built, freeinode, -⟩ := (building.iappend allocated chunk.val).returned next appended
      exact ih built (by rw [freeinode]; exact allocated)
        (building.iappend_trimmed allocated trimmed appended) returned

theorem Building.addFile_trimmed {done : List InputFile}
    (building : Building image (contentsOf done)) (count : image.freeinode = done.length + 2)
    (room : done.length + 2 < inodeArea) (trimmed : image.Trimmed) {file : InputFile}
    (returned : image.addFile file = .ok after) : after.Trimmed := by
  unfold Image.addFile at returned
  simp only [if_neg (slash_notMem_baseName file.path)] at returned
  cases opened : file.chunks with
  | none =>
      rw [opened] at returned
      cases returned
  | some chunks =>
      rw [opened] at returned
      simp only at returned
      have empty : contentsOf done image.freeinode = [] := by
        rw [count]
        exact contentsOf_next done
      obtain ⟨allocated, handed, built, next, -⟩ :=
        building.ialloc (by rw [count]; exact room) empty inodeRegular
      have start := building.ialloc_trimmed (by rw [count]; exact room) trimmed handed
      simp only [handed, ok_bind] at returned
      obtain ⟨listed, appended, returned⟩ := bind_eq_ok returned
      have rootAllocated : rootInodeNo < allocated.freeinode := by
        rw [next, count]
        unfold rootInodeNo
        omega
      obtain ⟨built', freeinode, -⟩ := (built.iappend rootAllocated _).returned listed appended
      exact built'.appendChunks_trimmed (by rw [freeinode, next]; exact Nat.lt_succ_self _)
        (built.iappend_trimmed rootAllocated start appended) returned

theorem Building.addFiles_trimmed {done : List InputFile}
    (building : Building image (contentsOf done)) (count : image.freeinode = done.length + 2)
    (trimmed : image.Trimmed) {files : List InputFile}
    (room : done.length + files.length + 2 ≤ inodeArea)
    (returned : image.addFiles files = .ok after) : after.Trimmed := by
  induction files generalizing image done with
  | nil =>
      cases returned
      exact trimmed
  | cons file rest ih =>
      rw [List.length_cons] at room
      unfold Image.addFiles at returned
      obtain ⟨next, added, returned⟩ := bind_eq_ok returned
      obtain ⟨built, freeinode, -⟩ := (building.addFile count (by omega) file).returned next added
      have length : (done ++ [file]).length = done.length + 1 := List.length_append
      apply ih built (by rw [freeinode, length]) _ (by rw [length]; omega) returned
      exact building.addFile_trimmed count (by omega) trimmed added

end Steps

/-! ### Whole runs -/

theorem blank_trimmed : blank.Trimmed := by
  intro inum index _
  exact (blank_table inum).1 index

theorem makeRoot_trimmed {image : Image} (returned : makeRoot blank = .ok image) :
    image.Trimmed := by
  obtain ⟨_, freeinode, _, _⟩ := blank_counters
  have room : blank.freeinode < inodeArea := by
    rw [freeinode]
    decide
  unfold makeRoot at returned
  obtain ⟨start, handed, built, next, -⟩ := building_blank.ialloc room rfl inodeDirectory
  have trimmed := building_blank.ialloc_trimmed room blank_trimmed handed
  rw [freeinode] at handed next
  have first : 1 = rootInodeNo := rfl
  rw [handed, ok_bind] at returned
  simp only [if_pos first] at returned
  obtain ⟨listed, appended, returned⟩ := bind_eq_ok returned
  have allocated : 1 < start.freeinode := by
    rw [next]
    decide
  obtain ⟨built', freeinode', -⟩ := (built.iappend allocated _).returned listed appended
  exact built'.iappend_trimmed (by rw [freeinode']; exact allocated)
    (built.iappend_trimmed allocated trimmed appended) returned

theorem Building.fixRoot_addrs {image after : Image} {contents : Nat → List UInt8}
    (building : Building image contents) (returned : image.fixRoot = .ok after) :
    (after.table rootInodeNo).addrs = (image.table rootInodeNo).addrs := by
  have within : rootInodeNo < inodeArea := by decide
  unfold Image.fixRoot at returned
  rw [rinode_eq building.size within, ok_bind] at returned
  simp only at returned
  rw [winode_eq image building.size within] at returned
  cases returned
  rw [written_table within, Function.update_self]

section Finished

variable {files : List InputFile} {image : Image}

/-- No direct block of the root directory lies behind its entries. -/
theorem mkfs_root_addrs (few : files.length ≤ 198) (finished : mkfs files = .ok image)
    {index : Fin nDirect} (behind : 16 * (files.length + 2) ≤ index.val * blockSize) :
    (image.table rootInodeNo).addrs index = 0 := by
  have area : inodeArea = 208 := rfl
  unfold mkfs at finished
  obtain ⟨start, made, finished⟩ := bind_eq_ok finished
  obtain ⟨root, same, building, next, -⟩ := makeRoot_eq
  rw [made] at same
  cases same
  obtain ⟨built, added, finished⟩ := bind_eq_ok finished
  have room : ([] : List InputFile).length + files.length + 2 ≤ inodeArea := by
    rw [List.length_nil]
    omega
  have trimmed := building.addFiles_trimmed next (makeRoot_trimmed made) room added
  obtain ⟨complete, -⟩ := (building.addFiles next files room).returned built added
  obtain ⟨fixed, rounded, finished⟩ := bind_eq_ok finished
  have addrs := complete.fixRoot_addrs rounded
  unfold Image.writeBitmap at finished
  split at finished
  · cases finished
  · rename_i buf _
    cases finished
    have table : (fixed.wsect bitmapStart buf).table = fixed.table :=
      table_congr (fun sec low => Function.update_of_ne (Nat.ne_of_lt low) _ _)
    rw [table, addrs]
    apply trimmed rootInodeNo index
    rw [complete.length rootInodeNo, contentsOf_root_length]
    exact behind

/-- When the entries of the root directory fill their last block, the size takes in one more. -/
theorem mkfs_root_gap (few : files.length ≤ 198) (finished : mkfs files = .ok image)
    (full : 16 * (files.length + 2) % blockSize = 0) :
    16 * (files.length + 2) < (image.inode rootInodeNo).numBytes.toNat ∧
      fileBlock image.sector (image.inode rootInodeNo)
        (16 * (files.length + 2) / blockSize) = 0 := by
  have area : inodeArea = 208 := rfl
  have built := (mkfs_outcome files (by omega)).returned image finished
  have within : rootInodeNo < inodeArea := by decide
  have direct : 16 * (files.length + 2) / blockSize < nDirect := by
    unfold blockSize nDirect
    omega
  rw [← table_eq within]
  constructor
  · rw [built.root]
    unfold rootSize blockSize
    omega
  · rw [fileBlock_direct direct, mkfs_root_addrs few finished]
    · rfl
    · change _ ≤ 16 * (files.length + 2) / blockSize * blockSize
      unfold blockSize at full ⊢
      omega

/-- Every file and directory has all the blocks that its size takes in, unless the entries of the
root directory fill whole blocks. -/
theorem mkfs_sizes_iff (few : files.length ≤ 198) (finished : mkfs files = .ok image) :
    (∀ inum, inum < nInodes →
      (∀ fbn, fbn < ((image.inode inum).numBytes.toNat + blockSize - 1) / blockSize →
        fileBlock image.sector (image.inode inum) fbn ≠ 0) ∧
      ∀ offset, offset < (image.inode inum).numBytes.toNat →
        fileBlock image.sector (image.inode inum) (offset / blockSize) ≠ 0) ↔
      16 * (files.length + 2) % blockSize ≠ 0 := by
  have area : inodeArea = 208 := rfl
  have built := (mkfs_outcome files (by omega)).returned image finished
  constructor
  · intro allocated full
    obtain ⟨inside, gap⟩ := mkfs_root_gap few finished full
    exact (allocated rootInodeNo (by decide)).2 _ inside gap
  · intro partly inum small
    rw [← table_eq (lt_of_lt_of_le small nInodes_le)]
    -- The offset that begins a block lies inside the contents.
    have present : ∀ fbn, fbn * blockSize < (image.table inum).numBytes.toNat →
        fileBlock image.sector (image.table inum) fbn ≠ 0 := by
      intro fbn below
      have inside : fbn * blockSize < (contentsOf files inum).length := by
        by_cases root : inum = rootInodeNo
        · rw [root, built.root] at below
          rw [root, contentsOf_root_length]
          unfold rootSize blockSize at below
          unfold blockSize at partly ⊢
          omega
        · rw [← built.length inum root]
          exact below
      have block := built.filled.present inum _ inside
      rw [Nat.mul_div_cancel _ (by decide)] at block
      exact block
    constructor
    · intro fbn below
      apply present
      unfold blockSize at below ⊢
      omega
    · intro offset below
      apply present
      exact lt_of_le_of_lt (Nat.div_mul_le_self offset blockSize) below

end Finished

/-- With 30 files the root directory has 512 bytes of entries, and the size 1024. -/
theorem mkfs_sizes_thirty : ∃ image, mkfs (List.replicate 30 emptyFile) = .ok image ∧
    ¬∀ offset, offset < (image.inode rootInodeNo).numBytes.toNat →
      fileBlock image.sector (image.inode rootInodeNo) (offset / blockSize) ≠ 0 := by
  obtain ⟨image, finished⟩ := mkfs_emptyFiles (show 30 ≤ 199 by decide)
  refine ⟨image, finished, ?_⟩
  intro allocated
  have count : (List.replicate 30 emptyFile).length = 30 := List.length_replicate
  obtain ⟨inside, gap⟩ := mkfs_root_gap (by rw [count]; decide) finished (by rw [count]; decide)
  exact allocated _ inside gap

theorem mkfs_sizes_iff_three : ∃ image, mkfs threeFiles = .ok image ∧
    ∀ inum, inum < nInodes → ∀ offset, offset < (image.inode inum).numBytes.toNat →
      fileBlock image.sector (image.inode inum) (offset / blockSize) ≠ 0 := by
  obtain ⟨image, finished⟩ := mkfs_threeFiles
  have sizes := (mkfs_sizes_iff (by decide) finished).mpr (by decide)
  exact ⟨image, finished, fun inum small => (sizes inum small).2⟩

end LabKernel.User.Mkfs
