/-
The inode area of an image, and what `ialloc` and `iappend` do to the files of the image.
-/

import LabKernel.User.MkfsAppend

set_option autoImplicit false

namespace LabKernel.User.Mkfs

open Fs LittleEndian LabKernel.Numbering Outcomes

def inodeArea : Nat := ninodeblocks * ipb

/-- The inodes of the inode area. There are none behind it. -/
def Image.table (image : Image) (inum : Nat) : InodeEntry :=
  if inum < inodeArea then .ofBlock (image.sector (iblock inum)) (inum % ipb)
  else Image.newInode 0

def lastWritten (writes : List InodeWrite) (inum : Nat) : Option InodeEntry :=
  ((writes.filter (fun write => write.inum = inum)).getLast?).map (·.inode)

theorem lastWritten_snoc (writes : List InodeWrite) (write : InodeWrite) (inum : Nat) :
    lastWritten (writes ++ [write]) inum =
      if write.inum = inum then some write.inode else lastWritten writes inum := by
  unfold lastWritten
  rw [List.filter_append]
  by_cases own : write.inum = inum
  · rw [if_pos own, List.filter_cons_of_pos (by simp [own]), List.filter_nil,
      List.getLast?_concat]
    rfl
  · rw [if_neg own, List.filter_cons_of_neg (by simp [own]), List.filter_nil, List.append_nil]

theorem iblock_lt {inum : Nat} (within : inum < inodeArea) : iblock inum < bitmapStart := by
  unfold iblock inodeStart bitmapStart
  have slot : inum / ipb < ninodeblocks := Nat.div_lt_of_lt_mul (by
    unfold inodeArea at within
    rw [Nat.mul_comm]
    exact within)
  omega

theorem bitmapStart_lt : bitmapStart < nmeta := by decide

theorem nmeta_lt : nmeta < fsSize := by decide

/-! ### Writing an inode -/

def Image.written (image : Image) (inum : Nat) (ip : InodeEntry) : Image :=
  { image.wsect (iblock inum) (ip.put (image.sector (iblock inum)) (inum % ipb)) with
    writes := image.writes ++ [{ block := iblock inum, inum := inum, inode := ip }] }

section Written

variable {image : Image} {inum : Nat}

theorem iblock_inside (size : image.size = fsSize) (within : inum < inodeArea) :
    iblock inum < image.size := by
  rw [size]
  exact (iblock_lt within).trans (bitmapStart_lt.trans nmeta_lt)

theorem winode_eq (image : Image) (size : image.size = fsSize) (within : inum < inodeArea)
    (ip : InodeEntry) :
    image.winode inum ip = .ok (image.written inum ip) := by
  unfold Image.winode
  rw [rsect_eq (iblock_inside size within)]
  rfl

theorem rinode_eq (size : image.size = fsSize) (within : inum < inodeArea) :
    image.rinode inum = .ok (image.table inum) := by
  unfold Image.rinode Image.table
  rw [rsect_eq (iblock_inside size within), if_pos within]
  rfl

theorem written_size (size : image.size = fsSize) (within : inum < inodeArea) (ip : InodeEntry) :
    (image.written inum ip).size = fsSize :=
  (Nat.max_eq_left (iblock_inside size within)).trans size

theorem written_sector (within : inum < inodeArea) (ip : InodeEntry) {sec : Nat}
    (high : nmeta ≤ sec) : (image.written inum ip).sector sec = image.sector sec := by
  have low := (iblock_lt within).trans bitmapStart_lt
  exact Function.update_of_ne (by omega) _ _

theorem written_table (within : inum < inodeArea) (ip : InodeEntry) :
    (image.written inum ip).table = Function.update image.table inum ip := by
  funext other
  unfold Image.table Image.written Image.wsect
  by_cases own : other = inum
  · subst own
    rw [if_pos within, Function.update_self]
    simp only [Function.update_self]
    exact InodeEntry.ofBlock_put (Nat.mod_lt _ (by decide))
  · rw [Function.update_of_ne own]
    by_cases inside : other < inodeArea
    · rw [if_pos inside, if_pos inside]
      simp only
      by_cases same : iblock other = iblock inum
      · rw [same, Function.update_self]
        apply InodeEntry.ofBlock_put_other
        unfold iblock ipb blockSize inodeSize at *
        omega
      · rw [Function.update_of_ne same]
    · rw [if_neg inside, if_neg inside]

/-- Images that agree below the data area have the same inodes. -/
theorem table_congr {after : Image} (same : ∀ sec, sec < bitmapStart →
    after.sector sec = image.sector sec) : after.table = image.table := by
  funext other
  unfold Image.table
  by_cases inside : other < inodeArea
  · rw [if_pos inside, if_pos inside, same _ (iblock_lt inside)]
  · rw [if_neg inside, if_neg inside]

end Written

/-! ### Images of files -/

/-- The inodes have blocks of their own, which hold the contents of the files, and the inodes that
have been handed out are as they were last written. -/
structure Sound (image : Image) (contents : Nat → List UInt8) : Prop where
  filled : Filled image.sector image.table image.freeblock contents
  enough : image.freeblock ≤ fsSize
  size : image.size = fsSize
  area : image.freeinode ≤ inodeArea
  recorded : ∀ inum, 1 ≤ inum → inum < image.freeinode →
    lastWritten image.writes inum = some (image.table inum)
  placed : ∀ write ∈ image.writes, write.block = iblock write.inum ∧ write.inum < image.freeinode

/-- While the image is built, every inode has the size of its contents. -/
structure Building (image : Image) (contents : Nat → List UInt8) : Prop extends
    Sound image contents where
  length : ∀ inum, (image.table inum).numBytes.toNat = (contents inum).length

variable {image after : Image} {contents contents' : Nat → List UInt8} {inum : Nat}

theorem Sound.written (sound : Sound image contents) (after : Image) {din : InodeEntry}
    (ip : InodeEntry) (size : after.size = fsSize)
    (low : ∀ sec, sec < nmeta → after.sector sec = image.sector sec)
    (writes : after.writes = image.writes)
    (filled : Filled after.sector (Function.update image.table inum din) after.freeblock contents')
    (enough : after.freeblock ≤ fsSize) (area : after.freeinode ≤ inodeArea)
    (older : image.freeinode ≤ after.freeinode) (allocated : inum < after.freeinode)
    (others : ∀ other, other < after.freeinode → other = inum ∨ other < image.freeinode)
    (addrs : ip.addrs = din.addrs) (indirect : ip.indirect = din.indirect) :
    Sound (after.written inum ip) contents' ∧
      (after.written inum ip).table = Function.update image.table inum ip := by
  have within : inum < inodeArea := lt_of_lt_of_le allocated area
  have table : (after.written inum ip).table = Function.update image.table inum ip := by
    rw [written_table within]
    congr 1
    exact table_congr (fun sec small => low sec (small.trans bitmapStart_lt))
  refine ⟨?_, table⟩
  constructor
  · apply filled.frame
    · intro other
      rw [table]
      by_cases own : other = inum
      · rw [own, Function.update_self, Function.update_self]
        exact addrs
      · rw [Function.update_of_ne own, Function.update_of_ne own]
    · intro other
      rw [table]
      by_cases own : other = inum
      · rw [own, Function.update_self, Function.update_self]
        exact indirect
      · rw [Function.update_of_ne own, Function.update_of_ne own]
    · exact fun sec high => written_sector within ip high
  · exact enough
  · exact written_size size within ip
  · exact area
  · intro other first below
    change lastWritten (after.writes ++ [_]) other = _
    rw [lastWritten_snoc, writes, table]
    by_cases own : inum = other
    · rw [if_pos own, own, Function.update_self]
    · rw [if_neg own, Function.update_of_ne (Ne.symm own)]
      rcases others other below with same | old
      · exact absurd same.symm own
      · exact sound.recorded other first old
  · intro write member
    change write ∈ after.writes ++ [_] at member
    change _ ∧ write.inum < after.freeinode
    rw [writes] at member
    rcases List.mem_append.mp member with old | last
    · obtain ⟨block, below⟩ := sound.placed write old
      exact ⟨block, lt_of_lt_of_le below older⟩
    · rw [List.mem_singleton.mp last]
      exact ⟨rfl, allocated⟩

theorem Building.of_sound (building : Building image contents) {ip : InodeEntry}
    (sound : Sound after contents') (table : after.table = Function.update image.table inum ip)
    (own : ip.numBytes.toNat = (contents' inum).length)
    (others : ∀ other, other ≠ inum → contents' other = contents other) :
    Building after contents' := by
  refine ⟨sound, ?_⟩
  intro other
  rw [table]
  by_cases same : other = inum
  · rw [same, Function.update_self]
    exact own
  · rw [Function.update_of_ne same, others other same]
    exact building.length other

/-- The loop of `iappend` starts with the inode as it is. -/
theorem Building.appending (building : Building image contents) (inum : Nat) :
    Appending image image.table contents inum
      { image := image
        din := image.table inum
        off := (image.table inum).numBytes.toNat } (contents inum) := by
  constructor
  · rw [Function.update_eq_self, Function.update_eq_self]
    exact building.filled
  · exact ⟨rfl, fun _ _ => rfl, rfl, rfl, rfl⟩
  · exact building.length inum

theorem Building.iappend (building : Building image contents) (allocated : inum < image.freeinode)
    (p : List UInt8) :
    Outcome (image.iappend inum p)
      (fsSize < image.freeblock + 2 * pieces (contents inum).length p.length ∨
        inodeMaxBlocks * blockSize < (contents inum).length + p.length)
      (fun after =>
        Building after (Function.update contents inum (contents inum ++ p)) ∧
        after.freeinode = image.freeinode ∧
        after.freeblock ≤ image.freeblock + 2 * pieces (contents inum).length p.length) := by
  have within : inum < inodeArea := lt_of_lt_of_le allocated building.area
  unfold Image.iappend
  rw [rinode_eq building.size within, ok_bind]
  apply Outcome.bind ((building.appending inum).loop building.size building.enough (Nat.le_refl _))
  rintro final ⟨appended, enough, few⟩
  have kept := appended.kept
  have finalSize : final.image.size = fsSize := kept.size.trans building.size
  rw [winode_eq final.image finalSize within]
  obtain ⟨sound, table⟩ := building.toSound.written
    final.image { final.din with numBytes := UInt32.ofNat final.off } finalSize kept.low kept.writes
    appended.filled enough (by rw [kept.freeinode]; exact building.area)
    (Nat.le_of_eq kept.freeinode.symm) (by rw [kept.freeinode]; exact allocated)
    (by rw [kept.freeinode]; exact fun _ => Or.inr) rfl rfl
  refine .ok ⟨building.of_sound sound table ?_ ?_, kept.freeinode, few⟩
  · have fits := sound.filled.fits inum
    rw [Function.update_self] at fits ⊢
    change (UInt32.ofNat final.off).toNat = _
    rw [appended.off]
    exact toNat_ofNat_small (lt_of_le_of_lt fits (by decide))
  · exact fun other different => Function.update_of_ne different _ _

theorem Building.ialloc (building : Building image contents) (room : image.freeinode < inodeArea)
    (empty : contents image.freeinode = []) (type : UInt16) :
    ∃ after, image.ialloc type = .ok (image.freeinode, after) ∧ Building after contents ∧
      after.freeinode = image.freeinode + 1 ∧ after.freeblock = image.freeblock := by
  obtain ⟨sound, table⟩ := building.toSound.written
    { image with
      freeinode := image.freeinode + 1
      handed := image.handed ++ [image.freeinode] }
    (Image.newInode type) building.size
    (fun _ _ => rfl) rfl (building.filled.drop empty (fun _ => rfl) rfl) building.enough room
    (Nat.le_succ _) (Nat.lt_succ_self _) (fun other below => by
      change other < image.freeinode + 1 at below
      omega) rfl rfl
  refine ⟨_, ?_, building.of_sound sound table ?_ (fun _ _ => rfl), rfl, rfl⟩
  · unfold Image.ialloc
    have written := winode_eq { image with freeinode := image.freeinode + 1 } building.size room
      (Image.newInode type)
    simp only [written]
    rfl
  · rw [empty]
    rfl

end LabKernel.User.Mkfs
