/-
The block cache on a volume that `mkfs` made.

The superblock in block 1 is the one the cache needs, the log is empty, and the bitmap has the
blocks that the files take. So whatever callers allocate, free and write behind them, the files
stay as they were put in.
-/

import LabKernel.Fs.Bitmap
import LabKernel.Fs.Replay
import LabKernel.User.MkfsRoundTrip

set_option autoImplicit false

namespace LabKernel.User.Mkfs

open Fs Common Transition LittleEndian LabKernel.Numbering Outcomes

/-! ### What every step of `mkfs` keeps -/

/-- What holds of an image and stays through appends to its files and new inodes. -/
structure Kept (holds : Image → Prop) : Prop where
  iappend : ∀ {image after : Image} {contents : Nat → List UInt8} {inum : Nat} {p : List UInt8},
    Building image contents → inum < image.freeinode → holds image →
      image.iappend inum p = .ok after → holds after
  ialloc : ∀ {image after : Image} {contents : Nat → List UInt8} {inum : Nat} {type : UInt16},
    Building image contents → image.freeinode < inodeArea → holds image →
      image.ialloc type = .ok (inum, after) → holds after

namespace Kept

variable {holds : Image → Prop} {image after : Image} {contents : Nat → List UInt8} {inum : Nat}

theorem appendChunks (kept : Kept holds) (building : Building image contents)
    (allocated : inum < image.freeinode) (before : holds image) {chunks : List Chunk}
    (returned : Image.appendChunks inum image chunks = .ok after) : holds after := by
  induction chunks generalizing image contents with
  | nil =>
      cases returned
      exact before
  | cons chunk rest ih =>
      unfold Image.appendChunks at returned
      obtain ⟨next, appended, returned⟩ := bind_eq_ok returned
      obtain ⟨built, freeinode, -⟩ := (building.iappend allocated chunk.val).returned next appended
      exact ih built (by rw [freeinode]; exact allocated)
        (kept.iappend building allocated before appended) returned

theorem addFile (kept : Kept holds) {done : List InputFile}
    (building : Building image (contentsOf done)) (count : image.freeinode = done.length + 2)
    (room : done.length + 2 < inodeArea) (before : holds image) {file : InputFile}
    (returned : image.addFile file = .ok after) : holds after := by
  unfold Image.addFile at returned
  simp only [if_neg (slash_notMem_baseName file.path)] at returned
  cases opened : file.chunks with
  | none =>
      rw [opened] at returned
      cases returned
  | some chunks =>
      rw [opened] at returned
      simp only at returned
      have empty : contentsOf done image.freeinode = [] := by
        rw [count]
        exact contentsOf_next done
      have space : image.freeinode < inodeArea := by
        rw [count]
        exact room
      obtain ⟨allocated, handed, built, next, -⟩ := building.ialloc space empty inodeRegular
      have start := kept.ialloc building space before handed
      simp only [handed, ok_bind] at returned
      obtain ⟨listed, appended, returned⟩ := bind_eq_ok returned
      have rootAllocated : rootInodeNo < allocated.freeinode := by
        rw [next, count]
        unfold rootInodeNo
        omega
      obtain ⟨built', freeinode, -⟩ := (built.iappend rootAllocated _).returned listed appended
      exact kept.appendChunks built' (by rw [freeinode, next]; exact Nat.lt_succ_self _)
        (kept.iappend built rootAllocated start appended) returned

theorem addFiles (kept : Kept holds) {done : List InputFile}
    (building : Building image (contentsOf done)) (count : image.freeinode = done.length + 2)
    (before : holds image) {files : List InputFile}
    (room : done.length + files.length + 2 ≤ inodeArea)
    (returned : image.addFiles files = .ok after) : holds after := by
  induction files generalizing image done with
  | nil =>
      cases returned
      exact before
  | cons file rest ih =>
      rw [List.length_cons] at room
      unfold Image.addFiles at returned
      obtain ⟨next, added, returned⟩ := bind_eq_ok returned
      obtain ⟨built, freeinode, -⟩ := (building.addFile count (by omega) file).returned next added
      have length : (done ++ [file]).length = done.length + 1 := List.length_append
      apply ih built (by rw [freeinode, length]) _ (by rw [length]; omega) returned
      exact kept.addFile building count (by omega) before added

theorem makeRoot (kept : Kept holds) (before : holds blank)
    (returned : Mkfs.makeRoot blank = .ok image) : holds image := by
  obtain ⟨_, freeinode, _, _⟩ := blank_counters
  have room : blank.freeinode < inodeArea := by
    rw [freeinode]
    decide
  unfold Mkfs.makeRoot at returned
  obtain ⟨start, handed, built, next, -⟩ := building_blank.ialloc room rfl inodeDirectory
  have begun := kept.ialloc building_blank room before handed
  rw [freeinode] at handed next
  have first : 1 = rootInodeNo := rfl
  rw [handed, ok_bind] at returned
  simp only [if_pos first] at returned
  obtain ⟨listed, appended, returned⟩ := bind_eq_ok returned
  have allocated : 1 < start.freeinode := by
    rw [next]
    decide
  obtain ⟨built', freeinode', -⟩ := (built.iappend allocated _).returned listed appended
  exact kept.iappend built' (by rw [freeinode']; exact allocated)
    (kept.iappend built allocated begun appended) returned

theorem run (kept : Kept holds) (before : holds blank) {files : List InputFile}
    (few : files.length + 2 ≤ inodeArea) (finished : mkfs files = .ok after) :
    ∃ filled fixed, Building filled (contentsOf files) ∧ holds filled ∧
      filled.fixRoot = .ok fixed ∧ fixed.writeBitmap = .ok after := by
  unfold mkfs at finished
  obtain ⟨start, made, finished⟩ := bind_eq_ok finished
  obtain ⟨filled, added, finished⟩ := bind_eq_ok finished
  obtain ⟨fixed, rounded, finished⟩ := bind_eq_ok finished
  obtain ⟨root, same, building, next, -⟩ := makeRoot_eq
  rw [made] at same
  cases same
  have room : ([] : List InputFile).length + files.length + 2 ≤ inodeArea := by
    rw [List.length_nil]
    omega
  obtain ⟨built, -⟩ := (building.addFiles next files room).returned filled added
  exact ⟨filled, fixed, built, kept.addFiles building next (kept.makeRoot before made) room added,
    rounded, finished⟩

end Kept

/-! ### The blocks before the inodes -/

/-- The blocks before the inodes are as `mkfs` has begun them: the superblock, and a log that is
clear. -/
def Image.Fronted (image : Image) : Prop :=
  ∀ sec, sec < inodeStart → image.sector sec = blank.sector sec

theorem inodeStart_le_iblock (inum : Nat) : inodeStart ≤ iblock inum :=
  Nat.le_add_left _ _

theorem inodeStart_lt : inodeStart < bitmapStart := by decide

theorem Image.Fronted.written {image : Image} (fronted : image.Fronted) (inum : Nat)
    (ip : InodeEntry) : (image.written inum ip).Fronted := by
  intro sec low
  have behind := inodeStart_le_iblock inum
  rw [← fronted sec low]
  exact Function.update_of_ne (by omega) _ _

theorem kept_fronted : Kept Image.Fronted := by
  constructor
  · intro image after contents inum p building allocated fronted returned
    have within : inum < inodeArea := lt_of_lt_of_le allocated building.area
    unfold Image.iappend at returned
    rw [rinode_eq building.size within, ok_bind] at returned
    obtain ⟨final, looped, returned⟩ := bind_eq_ok returned
    obtain ⟨appended, -⟩ := ((building.appending inum).loop building.size building.enough
      (Nat.le_refl _)).returned final looped
    have kept := appended.kept
    rw [winode_eq final.image (kept.size.trans building.size) within] at returned
    cases returned
    apply Image.Fronted.written
    intro sec low
    rw [kept.low sec (low.trans (inodeStart_lt.trans bitmapStart_lt))]
    exact fronted sec low
  · intro image after contents inum type building room fronted returned
    unfold Image.ialloc at returned
    have written := winode_eq { image with freeinode := image.freeinode + 1 } building.size room
      (Image.newInode type)
    simp only [written] at returned
    cases returned
    exact fronted.written image.freeinode (Image.newInode type)

theorem mkfs_fronted {files : List InputFile} {image : Image} (few : files.length + 2 ≤ inodeArea)
    (finished : mkfs files = .ok image) : image.Fronted := by
  obtain ⟨filled, fixed, built, fronted, rounded, finished⟩ :=
    kept_fronted.run (fun _ _ => rfl) few finished
  have within : rootInodeNo < inodeArea := by decide
  unfold Image.fixRoot at rounded
  rw [rinode_eq built.size within, ok_bind, winode_eq filled built.size within] at rounded
  cases rounded
  unfold Image.writeBitmap at finished
  split at finished
  · cases finished
  · cases finished
    intro sec low
    have before := inodeStart_lt
    rw [← fronted.written rootInodeNo _ sec low]
    exact Function.update_of_ne (by omega) _ _

/-! ### The volume -/

def Image.disk (image : Image) : Disk := fun blockNo => image.sector blockNo.toNat

/-- `get_super_block`, when this block has been read: the fields that `cache.c` uses. -/
def superBlockAt (sblock : SuperBlock) (data : BlockData) : Prop :=
  sblock.numBlocks.toNat = u32At data 0 ∧ sblock.numLogBlocks.toNat = u32At data 3 ∧
    sblock.logStart.toNat = u32At data 4 ∧ sblock.bitmapStart.toNat = u32At data 6

/-- The image, with the contents that the next acquire of each block returns. -/
def Image.cached (image : Image) (bcache : Bcache) : Image :=
  { image with sector := fun sec => bcache.volume.content (UInt64.ofNat sec) }

/-- A caller acquires a block, changes its data, syncs it and releases it. -/
def rewriteBlock (ctx : CtxId) (blockNo : BlockNo) (change : BlockData → BlockData)
    (bcache : Bcache) : Except Stop Bcache := do
  let (bp, bcache) ← bcache.acquire blockNo
  let bcache ← bcache.store bp (change (bcache.data bp))
  let bcache ← bcache.sync (some ctx) bp
  bcache.release bp

/-- What callers do with the volume. -/
inductive VolumeCall where
  | call (call : Call)
  | rewrite (ctx : CtxId) (blockNo : BlockNo) (change : BlockData → BlockData)

def volumeStep (sblock : SuperBlock) (bcache : Bcache) : VolumeCall → Except Stop Bcache
  | .call call => callStep sblock bcache call
  | .rewrite ctx blockNo change => rewriteBlock ctx blockNo change bcache

/-- Callers free and change only blocks from `freeblock` on, inside operations with enough log
budget. -/
def Behind (sblock : SuperBlock) (freeblock : Nat) (bcache : Bcache) : VolumeCall → Prop
  | .call call => BitmapCall sblock freeblock bcache call
  | .rewrite ctx blockNo _ => ctx ∈ bcache.running ∧ freeblock ≤ blockNo.toNat ∧
      bcache.Affords ctx [blockNo]

section Volume

variable {files : List InputFile} {image : Image} {sblock : SuperBlock}

theorem superBlock_eq (few : files.length + 2 ≤ inodeArea) (finished : mkfs files = .ok image)
    (read : superBlockAt sblock (image.disk 1)) : sblock = mkfsSuperBlock := by
  have first : image.disk 1 = ofWords superblockWord := by
    have front : image.sector 1 = blank.sector 1 := mkfs_fronted few finished 1 (by decide)
    have written : blank.sector 1 = ofWords superblockWord := by
      rw [blank_eq]
      change Function.update (fun _ _ => 0) 1 (ofWords superblockWord) 1 = _
      rw [Function.update_self]
    exact front.trans written
  obtain ⟨numBlocks, numLogBlocks, logStart, bitmapStart⟩ := read
  rw [first, u32At_ofWords _ (by decide)] at numBlocks numLogBlocks logStart bitmapStart
  cases sblock with
  | mk blocks logBlocks log bitmap counted fits =>
      have blocksEq : blocks = 1000 := UInt32.toNat.inj numBlocks
      have logBlocksEq : logBlocks = 63 := UInt32.toNat.inj numLogBlocks
      have logEq : log = 2 := UInt32.toNat.inj logStart
      have bitmapEq : bitmap = 91 := UInt32.toNat.inj bitmapStart
      subst blocksEq logBlocksEq logEq bitmapEq
      rfl

theorem arranged_behind {freeblock : Nat} (low : nmeta ≤ freeblock) :
    mkfsSuperBlock.Arranged freeblock := by
  constructor
  · decide
  · intro n within
    change n < 1000 at within
    change 92 ≤ freeblock at low
    change 91 + n / 4096 < freeblock
    omega

theorem diskHeader_empty (few : files.length + 2 ≤ inodeArea) (finished : mkfs files = .ok image) :
    (diskHeader mkfsSuperBlock image.disk).numBlocks = 0 := by
  have front : image.sector 2 = blank.sector 2 := mkfs_fronted few finished 2 (by decide)
  have clear : image.disk mkfsSuperBlock.headerBlock = fun _ => 0 :=
    front.trans (blank_sector (by decide))
  unfold diskHeader
  rw [clear]
  decide

/-- A start on the image leaves every block outside the log as it is. -/
theorem init_image (few : files.length + 2 ≤ inodeArea) (finished : mkfs files = .ok image)
    (heap : Addr → Block) : ∃ start, Bcache.init mkfsSuperBlock heap image.disk = .ok start ∧
      ∀ blockNo, ¬mkfsSuperBlock.InLog blockNo →
        start.volume.content blockNo = image.disk blockNo := by
  have empty := diskHeader_empty few finished
  have admits : mkfsSuperBlock.Admits (diskHeader mkfsSuperBlock image.disk) := by
    constructor
    · omega
    · intro tail within
      omega
  obtain ⟨start, initialised, disk⟩ := init_disk admits heap
  refine ⟨start, initialised, ?_⟩
  intro blockNo outside
  have sound := Bcache.Sound.init initialised
  rw [sound.content_eq outside, disk]
  apply replayed_other (ne_headerBlock_of_outside outside)
  intro index within
  omega

/-! ### Runs -/

theorem rewriteBlock_sound {bcache : Bcache} {view : BlockNo → BlockData} {ctx : CtxId}
    {blockNo : BlockNo} (sound : bcache.Sound sblock view) (outside : ¬sblock.InLog blockNo)
    (member : ctx ∈ bcache.running) (affords : bcache.Affords ctx [blockNo])
    (change : BlockData → BlockData) : ∃ after,
      rewriteBlock ctx blockNo change bcache = .ok after ∧
      after.Sound sblock (Function.update view blockNo (change (view blockNo))) := by
  obtain ⟨synced, paid, -⟩ := affords
  obtain ⟨bp, first, acquired, holding⟩ := sound.acquire outside
  obtain ⟨second, third, after, stored, logged, released, kept, -⟩ :=
    holding.put sound outside member paid (change (view blockNo))
  refine ⟨after, ?_, kept⟩
  unfold rewriteBlock
  rw [acquired]
  simp only [ok_bind]
  rw [holding.data, stored]
  simp only [ok_bind]
  rw [logged]
  exact released

/-- The blocks before `freeblock` are in use, and but for the bitmap they are as on the image. -/
structure Tenanted (sblock : SuperBlock) (image : Image) (bcache : Bcache) : Prop where
  mapped : ∃ view, bcache.Mapped sblock image.freeblock view
  kept : ∀ sec, sec < image.freeblock → ¬sblock.InLog (UInt64.ofNat sec) → sec ≠ bitmapStart →
    bcache.volume.content (UInt64.ofNat sec) = image.sector sec

theorem distinct_front {image : Image} {sec n : Nat} (low : sec < image.freeblock)
    (enough : image.freeblock ≤ fsSize) (behind : image.freeblock ≤ n) (small : n < 2 ^ 32) :
    UInt64.ofNat sec ≠ UInt64.ofNat n := by
  intro same
  change _ ≤ 1000 at enough
  have numbers := congrArg UInt64.toNat same
  rw [UInt64.toNat_ofNat', UInt64.toNat_ofNat'] at numbers
  omega

theorem distinct_bitmap {image : Image} {sec n : Nat} (low : sec < image.freeblock)
    (enough : image.freeblock ≤ fsSize) (apart : sec ≠ bitmapStart) (within : n < 1000) :
    UInt64.ofNat sec ≠ mkfsSuperBlock.bitmapBlock n := by
  intro same
  change _ ≤ 1000 at enough
  change sec ≠ 91 at apart
  have numbers := congrArg UInt64.toNat same
  rw [UInt64.toNat_ofNat', mkfsSuperBlock.bitmapBlock_toNat (by omega)] at numbers
  change sec % 2 ^ 64 = 91 + n / 4096 at numbers
  omega

namespace Tenanted

variable {image : Image} {bcache after : Bcache}

theorem same (tenanted : Tenanted mkfsSuperBlock image bcache) {blocks : List BlockNo}
    (mapped : ∃ view, after.Mapped mkfsSuperBlock image.freeblock view)
    (others : bcache.SameBut mkfsSuperBlock after blocks)
    (apart : ∀ sec, sec < image.freeblock → sec ≠ bitmapStart →
      UInt64.ofNat sec ∉ blocks) : Tenanted mkfsSuperBlock image after := by
  refine ⟨mapped, ?_⟩
  intro sec low outside different
  rw [others _ outside (apart sec low different)]
  exact tenanted.kept sec low outside different

theorem call (tenanted : Tenanted mkfsSuperBlock image bcache) (low : nmeta ≤ image.freeblock)
    (enough : image.freeblock ≤ fsSize) {call : Call}
    (met : BitmapCall mkfsSuperBlock image.freeblock bcache call)
    (taken : callStep mkfsSuperBlock bcache call = .ok after) :
    Tenanted mkfsSuperBlock image after := by
  have arranged := arranged_behind low
  obtain ⟨view, mapped⟩ := tenanted.mapped
  have sound := mapped.sound
  have next := mapped.step arranged (by decide) met taken
  obtain ⟨view', mapped'⟩ := id next
  have unchanged : ∀ view, bcache.Sound mkfsSuperBlock view → after.Sound mkfsSuperBlock view →
      bcache.SameBut mkfsSuperBlock after [] := by
    intro view before later blockNo outside _
    rw [later.content_eq outside, before.content_eq outside]
  unfold callStep at taken
  split at taken
  · rename_i permitted
    cases call with
    | acquire blockNo => cases met
    | store addr data => cases met
    | release addr => cases met
    | sync ctx addr => cases met
    | beginOp ctx =>
        have later := sound.beginOp (of_decide_eq_true permitted) taken
        exact tenanted.same next (unchanged view sound later) (fun _ _ _ => List.not_mem_nil)
    | endOp ctx =>
        obtain ⟨ended, returned, later⟩ := sound.endOp (of_decide_eq_true permitted)
        have same : bcache.endOp mkfsSuperBlock ctx = .ok after := taken
        rw [returned] at same
        cases same
        exact tenanted.same next (unchanged view sound later) (fun _ _ _ => List.not_mem_nil)
    | alloc ctx =>
        cases ctx with
        | none => cases met
        | some ctx =>
            have member := of_decide_eq_true permitted ctx rfl
            obtain ⟨⟨n, final⟩, returned, same⟩ := map_eq_ok taken
            have alloc := sound.alloc arranged (by decide) mapped.reserved member (by
              intro n least
              exact met n ((sound.nextFree_iff arranged).mpr least))
            have set := mapped.allocOnSet arranged alloc
            rw [returned] at set alloc
            obtain ⟨-, -, -, others⟩ := set
            cases alloc with
            | took _ _ least _ _ =>
                have data := mapped.data_of_least least
                have within : n.toNat < 1000 := least.1.1
                subst same
                apply tenanted.same next others
                intro sec below different
                rw [List.mem_cons, List.mem_singleton, not_or, toUInt64_eq]
                exact ⟨distinct_front below enough data n.toNat_lt,
                  distinct_bitmap below enough different within⟩
    | free ctx blockNo =>
        cases ctx with
        | none => cases met
        | some ctx =>
            obtain ⟨data, within, affords⟩ := met
            have member := of_decide_eq_true permitted ctx rfl
            have set := sound.freeOnSet arranged within (sound.free arranged member within affords)
            have returned : bcache.free mkfsSuperBlock (some ctx) blockNo = .ok after := taken
            rw [returned] at set
            obtain ⟨-, -, others, -⟩ := set
            apply tenanted.same next others
            intro sec below different
            rw [List.mem_singleton]
            exact distinct_bitmap below enough different within
  · cases taken

theorem rewrite (tenanted : Tenanted mkfsSuperBlock image bcache) (low : nmeta ≤ image.freeblock)
    (enough : image.freeblock ≤ fsSize) {ctx : CtxId} {blockNo : BlockNo}
    {change : BlockData → BlockData}
    (met : Behind mkfsSuperBlock image.freeblock bcache (.rewrite ctx blockNo change))
    (taken : rewriteBlock ctx blockNo change bcache = .ok after) :
    Tenanted mkfsSuperBlock image after := by
  obtain ⟨member, data, affords⟩ := met
  obtain ⟨view, sound, reserved⟩ := tenanted.mapped
  have behind : 92 ≤ blockNo.toNat := Nat.le_trans low data
  have outside : ¬mkfsSuperBlock.InLog blockNo := by
    rintro ⟨-, inside⟩
    change blockNo.toNat < 2 + 63 at inside
    omega
  obtain ⟨final, returned, kept⟩ := rewriteBlock_sound sound outside member affords change
  rw [taken] at returned
  cases returned
  have bits : mkfsSuperBlock.inUse (Function.update view blockNo (change (view blockNo))) =
      mkfsSuperBlock.inUse view := by
    apply SuperBlock.inUse_congr
    intro other inside
    apply Function.update_of_ne
    intro same
    have numbers := congrArg UInt64.toNat same
    change other < 1000 at inside
    rw [mkfsSuperBlock.bitmapBlock_toNat (by omega)] at numbers
    change 91 + other / 4096 = _ at numbers
    omega
  have others : bcache.SameBut mkfsSuperBlock after [blockNo] := by
    intro other outside' different
    rw [List.mem_singleton] at different
    rw [kept.content_eq outside', sound.content_eq outside']
    exact Function.update_of_ne different _ _
  refine tenanted.same ⟨_, kept, ?_⟩ others ?_
  · rw [bits]
    exact reserved
  · intro sec below different same
    rw [List.mem_singleton] at same
    change _ ≤ 1000 at enough
    have numbers := congrArg UInt64.toNat same
    rw [UInt64.toNat_ofNat'] at numbers
    omega

theorem step (tenanted : Tenanted mkfsSuperBlock image bcache) (low : nmeta ≤ image.freeblock)
    (enough : image.freeblock ≤ fsSize) {call : VolumeCall}
    (met : Behind mkfsSuperBlock image.freeblock bcache call)
    (taken : volumeStep mkfsSuperBlock bcache call = .ok after) :
    Tenanted mkfsSuperBlock image after := by
  cases call with
  | call call => exact tenanted.call low enough met taken
  | rewrite ctx blockNo change => exact tenanted.rewrite low enough met taken

end Tenanted

end Volume

/-! ### The files -/

section Files

variable {files : List InputFile} {image : Image} {bcache : Bcache} {inum : Nat}

theorem Tenanted.sector_eq (tenanted : Tenanted mkfsSuperBlock image bcache) {sec : Nat}
    (behind : inodeStart ≤ sec) (low : sec < image.freeblock) (enough : image.freeblock ≤ fsSize)
    (apart : sec ≠ bitmapStart) : (image.cached bcache).sector sec = image.sector sec := by
  apply tenanted.kept sec low _ apart
  rintro ⟨-, inside⟩
  change _ ≤ 1000 at enough
  change 65 ≤ sec at behind
  change (UInt64.ofNat sec).toNat < 2 + 63 at inside
  rw [UInt64.toNat_ofNat'] at inside
  omega

theorem Tenanted.inode_eq (tenanted : Tenanted mkfsSuperBlock image bcache)
    (finished : Finished files image) (within : inum < inodeArea) :
    (image.cached bcache).inode inum = image.inode inum := by
  have place := iblock_lt within
  have low := finished.filled.low
  have before := bitmapStart_lt
  unfold Image.inode
  rw [tenanted.sector_eq (inodeStart_le_iblock inum) (by omega) finished.enough (by omega)]

theorem Tenanted.block_eq (tenanted : Tenanted mkfsSuperBlock image bcache)
    (finished : Finished files image) (within : inum < inodeArea) (usage : Usage)
    (some : usedBlock image.sector (image.inode inum) usage ≠ 0) :
    (image.cached bcache).sector (usedBlock image.sector (image.inode inum) usage) =
      image.sector (usedBlock image.sector (image.inode inum) usage) := by
  rw [← table_eq within] at some ⊢
  obtain ⟨low, high⟩ := finished.filled.numbered.inRange (inum, usage) some
  have before := bitmapStart_lt
  have front := inodeStart_lt
  change nmeta ≤ usedBlock image.sector (image.table inum) usage at low
  exact tenanted.sector_eq (by omega) high finished.enough (by omega)

theorem Tenanted.read_eq (tenanted : Tenanted mkfsSuperBlock image bcache)
    (finished : Finished files image) (within : inum < inodeArea) {start count : Nat}
    (inside : start + count ≤ (contentsOf files inum).length) :
    (image.cached bcache).read inum start count = image.read inum start count := by
  have inode := tenanted.inode_eq finished within
  have blocks : ∀ fbn, fileBlock (image.cached bcache).sector (image.inode inum) fbn =
      fileBlock image.sector (image.inode inum) fbn := by
    apply fileBlock_congr rfl rfl
    intro some
    exact tenanted.block_eq finished within .indirect (toNat_ne_zero.mpr some)
  unfold Image.read
  apply List.map_congr_left
  intro place member
  rw [List.mem_range] at member
  have present := finished.filled.present inum (start + place) (by omega)
  rw [table_eq within] at present
  have same : (image.cached bcache).sector
        (fileBlock image.sector (image.inode inum) ((start + place) / blockSize)) =
      image.sector (fileBlock image.sector (image.inode inum) ((start + place) / blockSize)) :=
    tenanted.block_eq finished within (.data _) present
  unfold fileByte
  rw [inode, blocks, same]

end Files

theorem beginOp_room {bcache : Bcache} (ctx : CtxId) (calm : bcache.log.committing = false)
    (room : bcache.log.full bcache.volume.header = false) :
    bcache.beginOp ctx = .ok { bcache with
      log := bcache.log.beginOp
      rm := Function.update bcache.rm ctx opMaxNumBlocks
      running := ctx :: bcache.running } := by
  unfold Bcache.beginOp
  rw [calm, room]
  rfl

theorem begin_first {heap : Addr → Block} {disk : Disk} {start : Bcache}
    (initialised : Bcache.init mkfsSuperBlock heap disk = .ok start) :
    ∃ next, callStep mkfsSuperBlock start (.beginOp 0) = .ok next ∧ next.running = [0] ∧
      next.rm 0 = opMaxNumBlocks ∧ next.Sound mkfsSuperBlock start.volume.disk := by
  have sound := Bcache.Sound.init initialised
  obtain ⟨volume, recovered, returned⟩ := bind_eq_ok initialised
  have empty := (Volume.Marked.recovered recovered).2
  cases returned
  have room : LogVars.full
      { outstanding := 0, committing := false, mu := 0, mx := mkfsSuperBlock.logMx }
      volume.header = false := by
    unfold LogVars.full
    rw [empty]
    decide
  have begun := beginOp_room 0 sound.calm room
  refine ⟨_, ?_, rfl, rfl, sound.beginOp List.not_mem_nil begun⟩
  exact (if_pos rfl).trans begun

/-- The block cache starts on what `mkfs` wrote, with the superblock that is read there, and takes
exactly the blocks of the image for used. However callers then allocate, free and change blocks
behind these, no block of the image is handed out, and through the cache the root directory and
the files read as they were put in. -/
theorem mkfs_volume_mounts {files : List InputFile} (few : files.length + 2 ≤ inodeArea)
    {image : Image} (finished : mkfs files = .ok image) {sblock : SuperBlock}
    (read : superBlockAt sblock (image.disk 1)) (heap : Addr → Block) :
    ∃ start, Bcache.init sblock heap image.disk = .ok start ∧
      start.inUse sblock = { n | n < image.freeblock } ∧
      ∀ calls state, Run (volumeStep sblock) (Behind sblock image.freeblock) start calls state →
        (∀ n, n < image.freeblock → n ∈ state.inUse sblock) ∧
        (∀ ctx ∈ state.running, (∀ n, state.NextFree sblock n →
            state.Affords ctx [sblock.bitmapBlock n, UInt64.ofNat n]) →
          ∀ n after, state.alloc sblock (some ctx) = .ok (n, after) →
            image.freeblock ≤ n.toNat) ∧
        ∀ index, (within : index < files.length) →
          (image.cached state).rootEntry (index + 2) = dirent (index + 2) files[index].name ∧
          (image.cached state).file (index + 2) = files[index].bytes := by
  have same := superBlock_eq few finished read
  subst same
  have built := (mkfs_outcome files few).returned image finished
  have low := built.filled.low
  have enough := built.enough
  have arranged := arranged_behind low
  obtain ⟨start, initialised, content⟩ := init_image few finished heap
  have sound := Bcache.Sound.init initialised
  have used : start.inUse mkfsSuperBlock = { n | n < image.freeblock } := by
    have small : image.freeblock < blockSize * 8 := lt_of_le_of_lt enough (by decide)
    have first : start.volume.content (mkfsSuperBlock.bitmapBlock 0) =
        ballocLoop image.freeblock := by
      rw [content _ (by decide)]
      exact built.bitmap
    have set : start.inUse mkfsSuperBlock =
        { n | n < mkfsSuperBlock.numBlocks.toNat ∧ n < image.freeblock } := by
      apply SuperBlock.inUse_balloc (if_pos small) first
      intro n within large
      change n < 1000 at within
      change 4096 ≤ n at large
      omega
    rw [set]
    ext n
    change _ ≤ 1000 at enough
    change n < 1000 ∧ n < image.freeblock ↔ n < image.freeblock
    omega
  have tenanted : Tenanted mkfsSuperBlock image start := by
    refine ⟨⟨_, sound, ?_⟩, ?_⟩
    · intro n within below
      rw [← sound.inUse_eq arranged, used]
      exact below
    · intro sec below outside _
      have number : (UInt64.ofNat sec).toNat = sec := by
        change _ ≤ 1000 at enough
        rw [UInt64.toNat_ofNat']
        omega
      rw [content _ outside]
      change image.sector (UInt64.ofNat sec).toNat = _
      rw [number]
  refine ⟨start, initialised, used, ?_⟩
  intro calls state run
  have now : Tenanted mkfsSuperBlock image state := by
    apply run.invariant (P := Tenanted mkfsSuperBlock image) tenanted
    intro before call after held met taken
    exact held.step low enough met taken
  obtain ⟨view, mapped⟩ := now.mapped
  refine ⟨?_, ?_, ?_⟩
  · intro n below
    change _ ≤ 1000 at enough
    rw [mapped.sound.inUse_eq arranged]
    exact mapped.reserved n (by change n < 1000; omega) below
  · intro ctx member affords n after returned
    have alloc := mapped.sound.alloc arranged (by decide) mapped.reserved member (by
      intro n least
      exact affords n ((mapped.sound.nextFree_iff arranged).mpr least))
    rw [returned] at alloc
    cases alloc with
    | took _ _ least _ _ => exact mapped.data_of_least least
  · intro index within
    have small : index + 2 < inodeArea := by omega
    obtain ⟨length, bytes⟩ := built.file_eq within small
    have contents : contentsOf files (index + 2) = files[index].bytes := by
      change (files[index]?.map InputFile.bytes).getD [] = _
      rw [List.getElem?_eq_getElem within]
      rfl
    constructor
    · rw [← built.rootEntry_eq within]
      exact now.read_eq built (by decide) (by rw [contentsOf_root_length]; omega)
    · rw [← bytes]
      unfold Image.file
      rw [now.inode_eq built small]
      apply now.read_eq built small
      rw [length, contents]
      exact Nat.le_of_eq (Nat.zero_add _)

/-- A block behind the image is changed, and the file is read. -/
theorem mkfs_volume_mounts_small : ∃ image start state,
    mkfs [smallFile] = .ok image ∧
    Bcache.init mkfsSuperBlock (fun _ => initBlock) image.disk = .ok start ∧
    Run (volumeStep mkfsSuperBlock) (Behind mkfsSuperBlock image.freeblock) start
      [.call (.beginOp 0), .rewrite 0 1000 (fun _ _ => 7)] state ∧
    (image.cached state).file 2 = [104, 105] := by
  have room : nmeta + 8 + 4 * ([smallFile].map InputFile.cost).sum ≤ fsSize := by decide
  obtain ⟨image, finished, built⟩ := (mkfs_outcome [smallFile] (by decide)).returns (fun full =>
    full ⟨by
      intro file member
      rw [List.mem_singleton.mp member]
      exact ⟨Option.some_ne_none _, by decide⟩, room⟩)
  have few : [smallFile].length + 2 ≤ inodeArea := by decide
  have read : superBlockAt mkfsSuperBlock (image.disk 1) := by
    have front : image.sector 1 = ofWords superblockWord := by
      rw [mkfs_fronted few finished 1 (by decide), blank_eq]
      change Function.update (fun _ _ => 0) 1 (ofWords superblockWord) 1 = _
      rw [Function.update_self]
    have block : image.disk 1 = ofWords superblockWord := front
    unfold superBlockAt
    rw [block, u32At_ofWords _ (by decide), u32At_ofWords _ (by decide),
      u32At_ofWords _ (by decide), u32At_ofWords _ (by decide)]
    decide
  obtain ⟨start, initialised, -, runs⟩ := mkfs_volume_mounts few finished read (fun _ => initBlock)
  obtain ⟨next, begun, running, budget, sound⟩ := begin_first initialised
  have member : 0 ∈ next.running := by
    rw [running]
    exact List.mem_singleton_self 0
  obtain ⟨state, rewritten, -⟩ := rewriteBlock_sound sound
    (by decide : ¬mkfsSuperBlock.InLog 1000) member
    (sound.affords member (by rw [budget]; decide)) (fun _ _ => 7)
  have behind : Behind mkfsSuperBlock image.freeblock next (.rewrite 0 1000 (fun _ _ => 7)) :=
    ⟨member, built.enough, sound.affords member (by rw [budget]; decide)⟩
  have first : Run (volumeStep mkfsSuperBlock) (Behind mkfsSuperBlock image.freeblock) start
      [.call (.beginOp 0)] next := Run.start.next trivial begun
  have run := first.next behind rewritten
  obtain ⟨-, -, files⟩ := runs _ state run
  exact ⟨image, start, state, finished, initialised, run, (files 0 Nat.zero_lt_one).2⟩

end LabKernel.User.Mkfs
