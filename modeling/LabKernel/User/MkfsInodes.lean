/-
The inode numbers of a run: `ialloc` counts on, whatever the number of inodes is.
-/

import LabKernel.User.MkfsRoundTrip

set_option autoImplicit false

namespace LabKernel.User.Mkfs

open Fs Outcomes

/-! ### Counting -/

/-- The first `count` inode numbers have been handed out. -/
def Counted (image : Image) (count : Nat) : Prop :=
  image.freeinode = count + 1 ∧ image.handed = List.range' 1 count

section Counting

variable {image : Image} {state : Append} {count : Nat}

theorem winode_outcome (image : Image) (inum : Nat) (ip : InodeEntry) :
    Outcome (image.winode inum ip) True
      (fun after => after.freeinode = image.freeinode ∧ after.handed = image.handed) := by
  unfold Image.winode
  apply Outcome.bind ((rsect_outcome image (iblock inum)).mono (fun _ => trivial) (fun _ => id))
  exact fun _ _ => .ok ⟨rfl, rfl⟩

theorem Counted.winode (counted : Counted image count) (inum : Nat) (ip : InodeEntry) :
    Outcome (image.winode inum ip) True (Counted · count) := by
  apply (winode_outcome image inum ip).mono id
  rintro after ⟨freeinode, handed⟩
  exact ⟨freeinode.trans counted.1, handed.trans counted.2⟩

theorem Counted.blockFor (counted : Counted state.image count) (fbn : Fin inodeMaxBlocks) :
    Outcome (state.blockFor fbn) True (fun found => Counted found.2.image count) := by
  unfold Append.blockFor
  split
  case isTrue =>
    apply Outcome.ok
    unfold Append.direct
    split <;> exact counted
  case isFalse =>
    have same : Counted state.withIndirect.image count := by
      unfold Append.withIndirect
      split <;> exact counted
    unfold Append.entry
    apply Outcome.bind ((rsect_outcome _ _).mono (fun _ => trivial) (fun _ => id))
    intro buf _
    simp only
    split <;> exact .ok same

theorem Counted.piece (counted : Counted state.image count) (p : List UInt8) :
    Outcome (state.piece p) True (fun taken => Counted taken.2.image count) := by
  unfold Append.piece
  split
  case isTrue within =>
    apply Outcome.bind (counted.blockFor _)
    intro found same
    apply Outcome.bind ((rsect_outcome _ _).mono (fun _ => trivial) (fun _ => id))
    exact fun _ _ => .ok same
  case isFalse => exact .error trivial

theorem Counted.loop (counted : Counted state.image count) (rounds : Nat) (p : List UInt8) :
    Outcome (Append.loop rounds state p) True (fun final => Counted final.image count) := by
  induction rounds generalizing state p with
  | zero =>
      cases p with
      | nil => exact .ok counted
      | cons => exact .error trivial
  | succ rounds ih =>
      cases p with
      | nil => exact .ok counted
      | cons first rest =>
          unfold Append.loop
          apply Outcome.bind (counted.piece _)
          exact fun _ same => ih same _

/-- Reading an inode gives one, or ends the program. -/
theorem rinode_outcome (image : Image) (inum : Nat) :
    Outcome (image.rinode inum) True (fun _ => True) := by
  unfold Image.rinode
  apply Outcome.bind ((rsect_outcome _ _).mono (fun _ => trivial) (fun _ => id))
  exact fun _ _ => .ok trivial

theorem Counted.iappend (counted : Counted image count) (inum : Nat) (p : List UInt8) :
    Outcome (image.iappend inum p) True (Counted · count) := by
  unfold Image.iappend
  apply Outcome.bind (rinode_outcome image inum)
  intro din _
  apply Outcome.bind (Counted.loop counted p.length p)
  exact fun _ same => same.winode _ _

/-- `ialloc` hands out the next number, without a look at how many inodes there are. -/
theorem Counted.ialloc (counted : Counted image count) (type : UInt16) :
    Outcome (image.ialloc type) True (fun allocated => Counted allocated.2 (count + 1)) := by
  unfold Image.ialloc
  apply Outcome.bind (winode_outcome _ _ _)
  rintro written ⟨freeinode, handed⟩
  apply Outcome.ok
  refine ⟨freeinode.trans (congrArg (· + 1) counted.1), ?_⟩
  change written.handed ++ [image.freeinode] = _
  rw [handed, counted.1, counted.2, List.range'_concat, Nat.one_mul, Nat.add_comm 1]

theorem Counted.appendChunks (counted : Counted image count) (inum : Nat) (chunks : List Chunk) :
    Outcome (Image.appendChunks inum image chunks) True (Counted · count) := by
  induction chunks generalizing image with
  | nil => exact .ok counted
  | cons chunk rest ih =>
      unfold Image.appendChunks
      apply Outcome.bind (counted.iappend inum _)
      exact fun _ same => ih same

theorem Counted.addFile (counted : Counted image count) (file : InputFile) :
    Outcome (image.addFile file) True (Counted · (count + 1)) := by
  unfold Image.addFile
  simp only
  split
  case isTrue => exact .error trivial
  case isFalse =>
    cases file.chunks with
    | none => exact .error trivial
    | some chunks =>
        apply Outcome.bind (counted.ialloc _)
        rintro ⟨inum, allocated⟩ next
        apply Outcome.bind (Counted.iappend next _ _)
        exact fun _ same => same.appendChunks _ _

theorem Counted.addFiles (counted : Counted image count) (files : List InputFile) :
    Outcome (image.addFiles files) True (Counted · (count + files.length)) := by
  induction files generalizing image count with
  | nil => exact .ok counted
  | cons file rest ih =>
      unfold Image.addFiles
      apply Outcome.bind (counted.addFile file)
      intro after next
      rw [List.length_cons, Nat.add_comm rest.length, ← Nat.add_assoc]
      exact ih next

theorem Counted.fixRoot (counted : Counted image count) :
    Outcome image.fixRoot True (Counted · count) := by
  unfold Image.fixRoot
  apply Outcome.bind (rinode_outcome image rootInodeNo)
  exact fun _ _ => counted.winode _ _

theorem Counted.writeBitmap (counted : Counted image count) :
    Outcome image.writeBitmap True (Counted · count) := by
  unfold Image.writeBitmap
  split
  · exact .error trivial
  · exact .ok counted

end Counting

theorem counted_makeRoot : Outcome (makeRoot blank) True (Counted · 1) := by
  have start : Counted blank 0 := by
    rw [blank_eq]
    exact ⟨rfl, rfl⟩
  unfold makeRoot
  apply Outcome.bind (start.ialloc _)
  rintro ⟨rootino, image⟩ one
  simp only
  split
  case isTrue =>
    apply Outcome.bind (Counted.iappend one _ _)
    exact fun _ same => same.iappend _ _
  case isFalse => exact .error trivial

/-- A run that reaches its end has handed out an inode number for the root directory and for each
file. -/
theorem mkfs_handed {files : List InputFile} {image : Image} (finished : mkfs files = .ok image) :
    image.handed = List.range' 1 (files.length + 1) := by
  have run : Outcome (mkfs files) True (Counted · (1 + files.length)) := by
    unfold mkfs
    apply Outcome.bind counted_makeRoot
    intro start one
    apply Outcome.bind (one.addFiles files)
    intro built counted
    apply Outcome.bind counted.fixRoot
    exact fun _ same => same.writeBitmap
  rw [Nat.add_comm files.length]
  exact (run.returned image finished).2

/-! ### The inode area -/

/-- The inode numbers are in the range of the superblock, and the inodes stay where they belong and
as they were written, as long as there are inodes for all files. `ialloc` does not check this. -/
theorem mkfs_inodes_iff {files : List InputFile} {image : Image}
    (finished : mkfs files = .ok image) :
    ((∀ inum ∈ image.handed, inum < nInodes) ∧
      (∀ write ∈ image.writes, inodeStart ≤ write.block ∧ write.block < bitmapStart) ∧
      ∀ inum ∈ image.handed, lastWritten image.writes inum = some (image.inode inum)) ↔
      files.length ≤ 198 := by
  have handed := mkfs_handed finished
  constructor
  · rintro ⟨below, _⟩
    have last := below (files.length + 1) (by
      rw [handed, List.mem_range'_1]
      omega)
    unfold nInodes at last
    omega
  · intro few
    have area : inodeArea = 208 := rfl
    have built := (mkfs_outcome files (by omega)).returned image finished
    have next := built.next
    have bounds : ∀ inum ∈ image.handed, 1 ≤ inum ∧ inum < files.length + 2 := by
      intro inum member
      rw [handed, List.mem_range'_1] at member
      omega
    refine ⟨?_, ?_, ?_⟩
    · intro inum member
      have range := bounds inum member
      unfold nInodes
      omega
    · intro write member
      obtain ⟨block, below⟩ := built.placed write member
      rw [block]
      exact ⟨Nat.le_add_left _ _, iblock_lt (by omega)⟩
    · intro inum member
      have range := bounds inum member
      rw [← table_eq (by omega)]
      exact built.recorded inum range.1 (by omega)

theorem mkfs_emptyFiles {count : Nat} (few : count ≤ 199) :
    ∃ image, mkfs (List.replicate count emptyFile) = .ok image := by
  have costs : ((List.replicate count emptyFile).map InputFile.cost).sum = count := by
    rw [List.map_replicate, List.sum_replicate]
    exact Nat.mul_one count
  have area : inodeArea = 208 := rfl
  have data : nmeta + 8 + 4 * 199 ≤ fsSize := by decide
  have room : (List.replicate count emptyFile).length + 2 ≤ inodeArea := by
    rw [List.length_replicate]
    omega
  obtain ⟨image, finished, _⟩ := (mkfs_outcome _ room).returns (fun full => full ⟨by
    intro file member
    rw [List.eq_of_mem_replicate member]
    exact ⟨Option.some_ne_none _, Nat.zero_le _⟩, by rw [costs]; omega⟩)
  exact ⟨image, finished⟩

/-- With 199 files the last one gets the number 200. -/
theorem mkfs_inode_overflow : ∃ image, mkfs (List.replicate 199 emptyFile) = .ok image ∧
    ¬∀ inum ∈ image.handed, inum < nInodes := by
  obtain ⟨image, finished⟩ := mkfs_emptyFiles (Nat.le_refl 199)
  refine ⟨image, finished, ?_⟩
  intro below
  have member : 200 ∈ image.handed := by
    rw [mkfs_handed finished, List.length_replicate, List.mem_range'_1]
    omega
  exact Nat.lt_irrefl _ (below 200 member)

theorem mkfs_inodes_iff_three : ∃ image, mkfs threeFiles = .ok image ∧
    (∀ inum ∈ image.handed, inum < nInodes) ∧
    (∀ write ∈ image.writes, inodeStart ≤ write.block ∧ write.block < bitmapStart) ∧
    ∀ inum ∈ image.handed, lastWritten image.writes inum = some (image.inode inum) := by
  obtain ⟨image, finished⟩ := mkfs_threeFiles
  exact ⟨image, finished, (mkfs_inodes_iff finished).mpr (by decide)⟩

end LabKernel.User.Mkfs
