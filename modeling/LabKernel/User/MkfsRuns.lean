/-
Whole runs of `mkfs`: what the files of the image are to be, and that a run that reaches its end
has built them.
-/

import LabKernel.User.MkfsImage

set_option autoImplicit false

namespace LabKernel.User.Mkfs

open Fs LittleEndian LabKernel.Numbering Outcomes

/-! ### What the files are -/

def InputFile.bytes (file : InputFile) : List UInt8 :=
  (file.chunks.getD []).flatMap fun chunk => chunk.val

def InputFile.name (file : InputFile) : List UInt8 :=
  skipUnderscore (baseName file.path)

/-- The directory entries of files, whose inodes are numbered from `inum` on. -/
def dirents : Nat → List InputFile → List UInt8
  | _, [] => []
  | inum, file :: rest => dirent inum file.name ++ dirents (inum + 1) rest

/-- The contents of the inodes: the root directory, and from inode 2 on the files. -/
def contentsOf (files : List InputFile) : Nat → List UInt8
  | 0 => []
  | 1 => dirent rootInodeNo [46] ++ dirent rootInodeNo [46, 46] ++ dirents 2 files
  | index + 2 => (files[index]?.map InputFile.bytes).getD []

theorem dirent_length (inum : Nat) (name : List UInt8) : (dirent inum name).length = 16 := by
  unfold dirent dirSiz
  rw [List.length_append, List.length_append, List.length_take, List.length_replicate]
  change 2 + _ = 16
  omega

theorem dirents_snoc (inum : Nat) (done : List InputFile) (file : InputFile) :
    dirents inum (done ++ [file]) = dirents inum done ++ dirent (inum + done.length) file.name := by
  induction done generalizing inum with
  | nil => exact List.append_nil _
  | cons first rest ih =>
      change dirent inum first.name ++ dirents (inum + 1) (rest ++ [file]) = _
      rw [ih, ← List.append_assoc]
      congr 2
      rw [List.length_cons]
      omega

theorem dirents_length (inum : Nat) (files : List InputFile) :
    (dirents inum files).length = 16 * files.length := by
  induction files generalizing inum with
  | nil => rfl
  | cons file rest ih =>
      change (dirent inum file.name ++ dirents (inum + 1) rest).length = _
      rw [List.length_append, dirent_length, ih, List.length_cons]
      omega

theorem dirents_entry (inum : Nat) {files : List InputFile} {index : Nat}
    (within : index < files.length) :
    ((dirents inum files).drop (16 * index)).take 16 = dirent (inum + index) files[index].name := by
  induction files generalizing inum index with
  | nil => exact absurd within (Nat.not_lt_zero _)
  | cons file rest ih =>
      have length := dirent_length inum file.name
      unfold dirents
      cases index with
      | zero =>
          rw [Nat.mul_zero, List.drop_zero, ← length, List.take_left]
          rfl
      | succ index =>
          have behind : 16 * (index + 1) = (dirent inum file.name).length + 16 * index := by
            rw [length]
            omega
          rw [behind, List.drop_length_add_append, ih (inum + 1) (Nat.lt_of_succ_lt_succ within),
            List.getElem_cons_succ, Nat.add_assoc, Nat.add_comm 1]

theorem contentsOf_root_length (files : List InputFile) :
    (contentsOf files rootInodeNo).length = 16 * (files.length + 2) := by
  change (_ ++ _ ++ _ : List UInt8).length = _
  rw [List.length_append, List.length_append, dirent_length, dirent_length, dirents_length]
  omega

/-- There is nothing behind the files. -/
theorem contentsOf_next (done : List InputFile) : contentsOf done (done.length + 2) = [] := by
  change (done[done.length]?.map InputFile.bytes).getD [] = []
  rw [List.getElem?_eq_none (Nat.le_refl _)]
  rfl

/-- A further file adds an entry to the root directory and an inode. -/
theorem contentsOf_snoc (done : List InputFile) (file : InputFile) :
    Function.update
      (Function.update (contentsOf done) rootInodeNo
        (contentsOf done rootInodeNo ++ dirent (done.length + 2) file.name))
      (done.length + 2) file.bytes = contentsOf (done ++ [file]) := by
  funext inum
  match inum with
  | 0 => rfl
  | 1 =>
      rw [Function.update_of_ne (by omega)]
      change Function.update _ rootInodeNo _ rootInodeNo = _
      rw [Function.update_self]
      change _ ++ _ ++ dirents 2 done ++ _ = _ ++ _ ++ dirents 2 (done ++ [file])
      rw [dirents_snoc, List.append_assoc, List.append_assoc, List.append_assoc,
        Nat.add_comm done.length 2]
  | index + 2 =>
      by_cases last : index = done.length
      · subst last
        rw [Function.update_self]
        change _ = ((done ++ [file])[done.length]?.map InputFile.bytes).getD []
        rw [List.getElem?_concat_length]
        rfl
      · have apart : index + 2 ≠ rootInodeNo := by
          unfold rootInodeNo
          omega
        rw [Function.update_of_ne (by omega), Function.update_of_ne apart]
        change (done[index]?.map InputFile.bytes).getD [] =
          ((done ++ [file])[index]?.map InputFile.bytes).getD []
        rcases Nat.lt_or_gt_of_ne last with before | behind
        · rw [List.getElem?_append_left before]
        · rw [List.getElem?_eq_none (by omega), List.getElem?_eq_none (by
            rw [List.length_append, List.length_singleton]
            omega)]

/-! ### Names -/

theorem nameLoop_plain {path : List UInt8} (plain : slash ∉ path) (j : Int) :
    nameLoop j path = j + path.length := by
  induction path generalizing j with
  | nil => exact (add_zero j).symm
  | cons c rest ih =>
      obtain ⟨first, others⟩ := not_or.mp (fun member => plain (List.mem_cons.mpr member))
      unfold nameLoop
      rw [if_neg (Ne.symm first), ih others, List.length_cons]
      omega

theorem nameLoop_slash {path : List UInt8} (some : slash ∈ path) (j : Int) :
    ∃ before name, path = before ++ slash :: name ∧ slash ∉ name ∧
      nameLoop j path = name.length := by
  induction path generalizing j with
  | nil => exact absurd some List.not_mem_nil
  | cons c rest ih =>
      unfold nameLoop
      by_cases later : slash ∈ rest
      · obtain ⟨before, name, split, plain, count⟩ := ih later ((if c = slash then -1 else j) + 1)
        exact ⟨c :: before, name, by rw [split]; rfl, plain, count⟩
      · have here : c = slash := by
          rcases List.mem_cons.mp some with same | member
          · exact same.symm
          · exact absurd member later
        refine ⟨[], rest, by rw [here]; rfl, later, ?_⟩
        rw [if_pos here, nameLoop_plain later]
        omega

theorem slash_notMem_baseName (path : List UInt8) : slash ∉ baseName path := by
  unfold baseName
  by_cases some : slash ∈ path
  · obtain ⟨before, name, split, plain, count⟩ := nameLoop_slash some 0
    rw [count, Int.toNat_natCast, split, List.length_append, List.length_cons]
    have behind : before.length + (name.length + 1) - name.length = (before ++ [slash]).length := by
      rw [List.length_append, List.length_singleton]
      omega
    rw [behind, List.append_cons before slash name, List.drop_left]
    exact plain
  · intro member
    exact some (List.mem_of_mem_drop member)

/-! ### The files of a run -/

variable {image : Image} {contents : Nat → List UInt8}

theorem Building.append (building : Building image contents) (inum : Nat)
    (allocated : inum < image.freeinode) {p : List UInt8} (small : p.length ≤ blockSize) :
    Outcome (image.iappend inum p)
      (fsSize < image.freeblock + 4 ∨
        inodeMaxBlocks * blockSize < (contents inum).length + p.length)
      (fun after =>
        Building after (Function.update contents inum (contents inum ++ p)) ∧
        after.freeinode = image.freeinode ∧ after.freeblock ≤ image.freeblock + 4) := by
  have rounds := pieces_chunk (contents inum).length small
  apply (building.iappend allocated p).mono
  · intro reason
    exact reason.imp (fun full => by omega) id
  · rintro after ⟨built, freeinode, few⟩
    exact ⟨built, freeinode, by omega⟩

theorem Building.appendChunks (building : Building image contents) (inum : Nat)
    (allocated : inum < image.freeinode) (chunks : List Chunk) :
    Outcome (Image.appendChunks inum image chunks)
      (fsSize < image.freeblock + 4 * chunks.length ∨ inodeMaxBlocks * blockSize <
        (contents inum).length + (chunks.flatMap fun chunk => chunk.val).length)
      (fun after =>
        Building after (Function.update contents inum
          (contents inum ++ chunks.flatMap fun chunk => chunk.val)) ∧
        after.freeinode = image.freeinode ∧
        after.freeblock ≤ image.freeblock + 4 * chunks.length) := by
  induction chunks generalizing image contents with
  | nil =>
      refine .ok ⟨?_, rfl, Nat.le_refl _⟩
      rw [List.flatMap_nil, List.append_nil, Function.update_eq_self]
      exact building
  | cons chunk rest ih =>
      rw [List.flatMap_cons, List.length_append, List.length_cons]
      unfold Image.appendChunks
      apply Outcome.bind ((building.append inum allocated chunk.property.2).mono _ (fun _ => id))
      · rintro after ⟨built, freeinode, few⟩
        have others := ih built (by rw [freeinode]; exact allocated)
        rw [Function.update_self, Function.update_idem, List.append_assoc, List.length_append]
          at others
        apply others.mono
        · intro reason
          exact reason.imp (fun full => by omega) (fun large => by omega)
        · rintro final ⟨complete, same, few'⟩
          exact ⟨complete, same.trans freeinode, by omega⟩
      · intro reason
        exact reason.imp (fun full => by omega) (fun large => by omega)

def InputFile.cost (file : InputFile) : Nat :=
  1 + (file.chunks.getD []).length

/-- The file can be opened, and is not too large. -/
def InputFile.Readable (file : InputFile) : Prop :=
  file.chunks ≠ none ∧ file.bytes.length ≤ inodeMaxBlocks * blockSize

/-- A file gets the next inode, with an entry in the root directory. -/
theorem Building.addFile {done : List InputFile} (building : Building image (contentsOf done))
    (count : image.freeinode = done.length + 2) (room : done.length + 2 < inodeArea)
    (file : InputFile) :
    Outcome (image.addFile file)
      (¬(file.Readable ∧ image.freeblock + 4 * file.cost ≤ fsSize))
      (fun after =>
        Building after (contentsOf (done ++ [file])) ∧ after.freeinode = done.length + 3 ∧
        after.freeblock ≤ image.freeblock + 4 * file.cost) := by
  unfold Image.addFile InputFile.Readable InputFile.cost
  simp only [if_neg (slash_notMem_baseName file.path)]
  cases opened : file.chunks with
  | none => exact .error (fun possible => possible.1.1 rfl)
  | some chunks =>
      have bytes : file.bytes = chunks.flatMap fun chunk => chunk.val := by
        unfold InputFile.bytes
        rw [opened]
        rfl
      have empty : contentsOf done image.freeinode = [] := by
        rw [count]
        exact contentsOf_next done
      obtain ⟨allocated, handed, built, next, same⟩ :=
        building.ialloc (by rw [count]; exact room) empty inodeRegular
      simp only [handed, ok_bind, Option.getD_some]
      rw [count] at handed next ⊢
      have entry : (dirent (done.length + 2) (skipUnderscore (baseName file.path))).length = 16 :=
        dirent_length _ _
      have rootLength := contentsOf_root_length done
      have rootAllocated : rootInodeNo < allocated.freeinode := by
        rw [next]
        unfold rootInodeNo
        omega
      apply Outcome.bind ((built.append rootInodeNo rootAllocated (by rw [entry]; decide)).mono _
        (fun _ => id))
      · rintro listed ⟨built, freeinode, few⟩
        rw [next] at freeinode
        have others := built.appendChunks (done.length + 2) (by rw [freeinode]; omega) chunks
        have apart : done.length + 2 ≠ rootInodeNo := by
          unfold rootInodeNo
          omega
        rw [count] at empty
        rw [Function.update_of_ne apart, empty, List.nil_append, List.length_nil, Nat.zero_add,
          ← bytes] at others
        apply others.mono
        · intro reason possible
          omega
        · rintro final ⟨complete, same', few'⟩
          rw [← contentsOf_snoc]
          exact ⟨complete, same'.trans freeinode, by omega⟩
      · intro reason possible
        rw [rootLength, entry] at reason
        unfold inodeArea ninodeblocks nInodes ipb inodeSize blockSize at room
        unfold inodeMaxBlocks nDirect nIndirect blockSize at reason
        omega

theorem Building.addFiles {done : List InputFile} (building : Building image (contentsOf done))
    (count : image.freeinode = done.length + 2) (files : List InputFile)
    (room : done.length + files.length + 2 ≤ inodeArea) :
    Outcome (image.addFiles files)
      (¬((∀ file ∈ files, file.Readable) ∧
        image.freeblock + 4 * (files.map InputFile.cost).sum ≤ fsSize))
      (fun after =>
        Building after (contentsOf (done ++ files)) ∧
        after.freeinode = done.length + files.length + 2) := by
  induction files generalizing image done with
  | nil =>
      rw [List.append_nil]
      exact .ok ⟨building, count⟩
  | cons file rest ih =>
      rw [List.length_cons] at room
      unfold Image.addFiles
      rw [List.map_cons, List.sum_cons]
      apply Outcome.bind ((building.addFile count (by omega) file).mono _ (fun _ => id))
      · rintro after ⟨built, next, few⟩
        have length : (done ++ [file]).length = done.length + 1 := List.length_append
        have others := ih built (by rw [next, length]) (by rw [length]; omega)
        rw [length, List.append_assoc, List.singleton_append] at others
        apply others.mono
        · rintro reason ⟨readable, enough⟩
          exact reason ⟨fun other member => readable other (List.mem_cons_of_mem _ member),
            by omega⟩
        · rintro final ⟨complete, last⟩
          refine ⟨complete, ?_⟩
          rw [last, List.length_cons]
          omega
      · rintro reason ⟨readable, enough⟩
        exact reason ⟨readable file List.mem_cons_self, by omega⟩

/-! ### The start of a run -/

theorem zeroLoop_eq (image : Image) (clear : image.sector = fun _ _ => 0) (count : Nat) :
    zeroLoop count image = { image with size := max image.size count } := by
  induction count with
  | zero =>
      rw [Nat.max_zero]
      rfl
  | succ i ih =>
      unfold zeroLoop
      rw [ih]
      unfold Image.wsect
      have same : Function.update image.sector i (fun _ => 0) = image.sector := by
        rw [clear]
        exact Function.update_eq_self i (fun _ _ => 0)
      simp only [same]
      congr 1
      omega

theorem blank_eq : blank = Image.wsect
    { sector := fun _ _ => 0
      size := fsSize
      freeinode := 1
      freeblock := nmeta
      handed := []
      writes := [] } 1 (ofWords superblockWord) := by
  unfold blank
  rw [zeroLoop_eq _ rfl]
  rfl

theorem blank_sector {sec : Nat} (apart : sec ≠ 1) : blank.sector sec = fun _ => 0 := by
  rw [blank_eq]
  exact Function.update_of_ne apart _ _

/-- The inodes of a cleared image have nothing. -/
theorem blank_table (inum : Nat) : (∀ index, (blank.table inum).addrs index = 0) ∧
    (blank.table inum).indirect = 0 ∧ (blank.table inum).numBytes = 0 := by
  unfold Image.table
  split
  case isTrue within =>
    have apart : iblock inum ≠ 1 := by
      unfold iblock inodeStart ipb blockSize inodeSize
      omega
    rw [blank_sector apart]
    exact InodeEntry.ofBlock_clear (Nat.mod_lt _ (by decide))
  case isFalse => exact ⟨fun _ => rfl, rfl, rfl⟩

theorem filled_blank : Filled blank.sector blank.table nmeta (fun _ => []) := by
  have none : ∀ key, blockOf blank.sector blank.table key = 0 := fun key =>
    usedBlock_none (blank_table key.1).1 (blank_table key.1).2.1 key.2
  constructor
  · exact Nat.le_refl _
  · exact ⟨fun key some => absurd (none key) some, fun key _ some _ => absurd (none key) some⟩
  · exact fun _ => Nat.zero_le _
  · exact fun _ _ impossible => absurd impossible (Nat.not_lt_zero _)
  · exact fun _ _ impossible => absurd impossible (Nat.not_lt_zero _)
  · intro sec free
    have low : 1 < nmeta := by decide
    exact blank_sector (by omega)

theorem blank_counters : blank.size = fsSize ∧ blank.freeinode = 1 ∧ blank.freeblock = nmeta ∧
    blank.writes = [] := by
  rw [blank_eq]
  exact ⟨rfl, rfl, rfl, rfl⟩

theorem building_blank : Building blank (fun _ => []) := by
  obtain ⟨size, freeinode, freeblock, writes⟩ := blank_counters
  refine ⟨⟨?_, ?_, size, ?_, ?_, ?_⟩, ?_⟩
  · rw [freeblock]
    exact filled_blank
  · rw [freeblock]
    exact Nat.le_of_lt nmeta_lt
  · rw [freeinode]
    decide
  · rw [freeinode]
    intro inum first below
    omega
  · rw [writes]
    exact fun _ impossible => absurd impossible List.not_mem_nil
  · intro inum
    rw [(blank_table inum).2.2]
    rfl

theorem makeRoot_eq : ∃ image, makeRoot blank = .ok image ∧ Building image (contentsOf []) ∧
    image.freeinode = 2 ∧ image.freeblock ≤ nmeta + 8 := by
  obtain ⟨_, freeinode, freeblock, _⟩ := blank_counters
  obtain ⟨image, handed, built, next, same⟩ := building_blank.ialloc (by rw [freeinode]; decide) rfl
    inodeDirectory
  rw [freeinode] at handed next
  rw [freeblock] at same
  have small : ∀ name, (dirent 1 name).length ≤ blockSize := by
    intro name
    rw [dirent_length]
    decide
  have first := built.append 1 (by rw [next]; decide) (small [46])
  obtain ⟨image', one, built', next', few⟩ := first.returns (by
    rw [same]
    decide)
  rw [next] at next'
  rw [same] at few
  have second := built'.append 1 (by rw [next']; decide) (small [46, 46])
  obtain ⟨image'', two, built'', next'', few'⟩ := second.returns (by
    rw [Function.update_self, dirent_length, List.nil_append, dirent_length]
    have room : nmeta + 8 ≤ fsSize ∧ 16 + 16 ≤ inodeMaxBlocks * blockSize := by decide
    omega)
  refine ⟨image'', ?_, ?_, next''.trans next', by omega⟩
  · unfold makeRoot
    have first : 1 = rootInodeNo := rfl
    rw [handed, ok_bind]
    simp only [if_pos first, one, ok_bind]
    exact two
  · have contents : Function.update (Function.update (fun _ => []) 1 ([] ++ dirent 1 [46])) 1
        (Function.update (fun _ => []) 1 ([] ++ dirent 1 [46]) 1 ++ dirent 1 [46, 46]) =
        contentsOf [] := by
      funext inum
      match inum with
      | 0 => rfl
      | 1 => rfl
      | index + 2 => rfl
    rw [contents] at built''
    exact built''

/-! ### The end of a run -/

/-- The size that the root directory gets at the end. -/
def rootSize (files : List InputFile) : Nat :=
  (16 * (files.length + 2) / blockSize + 1) * blockSize

/-- A finished image holds the files, with the blocks below `freeblock` in its bitmap. -/
structure Finished (files : List InputFile) (image : Image) : Prop extends
    Sound image (contentsOf files) where
  next : image.freeinode = files.length + 2
  root : (image.table rootInodeNo).numBytes.toNat = rootSize files
  length : ∀ inum, inum ≠ rootInodeNo →
    (image.table inum).numBytes.toNat = (contentsOf files inum).length
  bitmap : image.sector bitmapStart = ballocLoop image.freeblock

theorem Building.fixRoot {files : List InputFile} (building : Building image (contentsOf files))
    (next : image.freeinode = files.length + 2) :
    ∃ after, image.fixRoot = .ok after ∧ Sound after (contentsOf files) ∧
      after.freeinode = files.length + 2 ∧
      (after.table rootInodeNo).numBytes.toNat = rootSize files ∧
      ∀ inum, inum ≠ rootInodeNo →
        (after.table inum).numBytes.toNat = (contentsOf files inum).length := by
  have allocated : rootInodeNo < image.freeinode := by
    rw [next]
    unfold rootInodeNo
    omega
  have within : rootInodeNo < inodeArea := by decide
  have length := building.length rootInodeNo
  have fits := building.filled.fits rootInodeNo
  rw [contentsOf_root_length] at length fits
  have rounded : (UInt32.ofNat (rootSize files)).toNat = rootSize files := by
    apply toNat_ofNat_small
    unfold inodeMaxBlocks nDirect nIndirect blockSize at fits
    unfold rootSize blockSize
    omega
  have filled := building.filled
  rw [← Function.update_eq_self rootInodeNo image.table] at filled
  obtain ⟨sound, table⟩ := building.toSound.written image
    { image.table rootInodeNo with numBytes := UInt32.ofNat (rootSize files) } building.size
    (fun _ _ => rfl) rfl filled building.enough building.area (Nat.le_refl _) allocated
    (fun _ => Or.inr) rfl rfl
  refine ⟨_, ?_, sound, next, ?_, ?_⟩
  · unfold Image.fixRoot
    rw [rinode_eq building.size within, ok_bind]
    simp only [length]
    exact winode_eq image building.size within _
  · rw [table, Function.update_self]
    exact rounded
  · intro inum different
    rw [table, Function.update_of_ne different]
    exact building.length inum

theorem Sound.writeBitmap {files : List InputFile} (sound : Sound image (contentsOf files))
    (next : image.freeinode = files.length + 2)
    (root : (image.table rootInodeNo).numBytes.toNat = rootSize files)
    (length : ∀ inum, inum ≠ rootInodeNo →
      (image.table inum).numBytes.toNat = (contentsOf files inum).length) :
    ∃ after, image.writeBitmap = .ok after ∧ Finished files after := by
  have small : image.freeblock < blockSize * 8 := lt_of_le_of_lt sound.enough (by decide)
  have written : balloc image.freeblock = some (ballocLoop image.freeblock) := if_pos small
  have table : (image.wsect bitmapStart (ballocLoop image.freeblock)).table = image.table :=
    table_congr (fun sec low => Function.update_of_ne (Nat.ne_of_lt low) _ _)
  refine ⟨image.wsect bitmapStart (ballocLoop image.freeblock), ?_, ⟨⟨?_, ?_, ?_, ?_, ?_, ?_⟩, ?_,
    ?_, ?_, ?_⟩⟩
  · unfold Image.writeBitmap
    rw [written]
  · rw [table]
    apply sound.filled.frame (fun _ => rfl) (fun _ => rfl)
    intro sec high
    have apart : sec ≠ bitmapStart := Nat.ne_of_gt (lt_of_lt_of_le bitmapStart_lt high)
    change Function.update image.sector bitmapStart _ sec = image.sector sec
    exact Function.update_of_ne apart _ _
  · exact sound.enough
  · change max image.size _ = fsSize
    rw [sound.size]
    exact Nat.max_eq_left (bitmapStart_lt.trans nmeta_lt)
  · exact sound.area
  · rw [table]
    exact sound.recorded
  · exact sound.placed
  · exact next
  · rw [table]
    exact root
  · rw [table]
    exact length
  · change Function.update image.sector bitmapStart _ bitmapStart = _
    exact Function.update_self _ _ _

theorem mkfs_outcome (files : List InputFile) (room : files.length + 2 ≤ inodeArea) :
    Outcome (mkfs files)
      (¬((∀ file ∈ files, file.Readable) ∧
        nmeta + 8 + 4 * (files.map InputFile.cost).sum ≤ fsSize))
      (Finished files) := by
  unfold mkfs
  apply Outcome.bind (Outcome.of_returns makeRoot_eq)
  rintro start ⟨building, next, few⟩
  have loop := building.addFiles next files (by rw [List.length_nil]; omega)
  rw [List.nil_append, List.length_nil, Nat.zero_add] at loop
  apply Outcome.bind (loop.mono _ (fun _ => id))
  · rintro image ⟨built, next⟩
    obtain ⟨fixed, stepped, sound, next', root, length⟩ := built.fixRoot next
    obtain ⟨final, written, finished⟩ := sound.writeBitmap next' root length
    rw [stepped, ok_bind, written]
    exact .ok finished
  · rintro reason ⟨readable, enough⟩
    exact reason ⟨readable, by omega⟩

end LabKernel.User.Mkfs
