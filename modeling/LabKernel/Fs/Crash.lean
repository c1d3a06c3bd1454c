/-
Crash atomicity of the log.

Each commit finds some cache and header in memory and the device as the commit
before it left it. The machine may stop after any number of the device writes of
all commits, and recovery may be cut off and restarted. What decides the outcome is
how many first header writes have reached the device.
-/

import LabKernel.Fs.Commit

set_option autoImplicit false

namespace LabKernel.Fs

open Common Writes Outcomes

structure Memory where
  cache : BlockCache
  header : LogHeader

def Memory.on (memory : Memory) (disk : Disk) : Volume :=
  { cache := memory.cache, header := memory.header, disk := disk, writes := [] }

def Memory.content (memory : Memory) (blockNo : BlockNo) : BlockData :=
  match memory.cache.find blockNo with
  | some addr => (memory.cache.heap addr).data
  | none => fun _ => 0

/-- A commit is entered with distinct numbers outside the log area, at most as many as the
log holds, each cached and pinned. Nobody else uses the cache, so no listed block and no
block of the log is held. -/
structure Ready (sblock : SuperBlock) (memory : Memory) : Prop where
  wellFormed : memory.cache.WellFormed
  nonempty : 1 ≤ memory.header.numBlocks
  bounded : memory.header.numBlocks ≤ sblock.logMx
  distinct : memory.header.Distinct
  outside : ∀ blockNo, memory.header.Lists blockNo → ¬sblock.InLog blockNo
  pinned : ∀ blockNo, memory.header.Lists blockNo → ∃ addr ∈ memory.cache.order,
    (memory.cache.heap addr).blockNo = blockNo ∧ (memory.cache.heap addr).pinned = true
  free : ∀ addr ∈ memory.cache.order,
    memory.header.Lists (memory.cache.heap addr).blockNo ∨
      sblock.InLog (memory.cache.heap addr).blockNo →
    (memory.cache.heap addr).lock = freeLock

/-- The device writes of each commit of a sequence, the device carried from one to the next. -/
def runCommits (sblock : SuperBlock) : Disk → List Memory →
    Except Stop (List (List (BlockNo × BlockData)))
  | _, [] => .ok []
  | disk, memory :: rest => do
      let after ← commit sblock (memory.on disk)
      let later ← runCommits sblock after.disk rest
      return after.writes :: later

/-- The position of the first `write_header` among the writes of one commit. -/
def firstHeaderWrite (sblock : SuperBlock) (writes : List (BlockNo × BlockData)) : Nat :=
  writes.findIdx (fun write => write.1 = sblock.headerBlock)

/-- The number of commits whose first `write_header` is among the first `reached` device
writes of the whole sequence. -/
def committedCount (sblock : SuperBlock) : Nat → List (List (BlockNo × BlockData)) → Nat
  | _, [] => 0
  | reached, writes :: later =>
      if firstHeaderWrite sblock writes < reached then
        1 + committedCount sblock (reached - writes.length) later
      else 0

/-- What a commit is for: every listed block takes the content of its cached copy. -/
def Memory.install (memory : Memory) (disk : Disk) : Disk := fun blockNo =>
  if memory.header.Lists blockNo then memory.content blockNo else disk blockNo

/-- Devices that recovery may find: the one left by the crash, and every device left by an
earlier recovery that was cut off after some of its writes. -/
inductive Restarted (sblock : SuperBlock) (crashed : Disk) : Disk → Prop
  | crash : Restarted sblock crashed crashed
  | again {disk : Disk} (earlier : Restarted sblock crashed disk) {heap : Addr → Block}
      {after : Volume} (recovered : recoverFromLog sblock (boot heap disk) = .ok after)
      (cut : Nat) : Restarted sblock crashed (applyWrites (after.writes.take cut) disk)

/-! ### Devices that recover to a given content -/

/-- Installing the log of this device gives the target content outside the log area. -/
structure Recovers (sblock : SuperBlock) (disk target : Disk) : Prop where
  admits : sblock.Admits (diskHeader sblock disk)
  content : ∀ blockNo, ¬sblock.InLog blockNo →
    applyWrites (installedWrites (diskHeader sblock disk) (diskLog sblock disk) 0
      (diskHeader sblock disk).numBlocks) disk blockNo = target blockNo

variable {sblock : SuperBlock}

theorem installedWrites_outside {header : LogHeader} (admits : sblock.Admits header)
    (data : Nat → BlockData) {write : BlockNo × BlockData}
    (member : write ∈ installedWrites header data 0 header.numBlocks) :
    ¬sblock.InLog write.1 := by
  obtain ⟨index, present, rfl⟩ := List.mem_map.mp member
  rw [List.mem_range'_1] at present
  exact admits.outside index (by omega)

theorem installedWrites_congr {header : LogHeader} {left right : Nat → BlockData}
    (same : ∀ index, index < header.numBlocks → left index = right index) :
    installedWrites header left 0 header.numBlocks =
      installedWrites header right 0 header.numBlocks := by
  apply List.map_congr_left
  intro index present
  rw [List.mem_range'_1] at present
  rw [same index (by omega)]

theorem loggedWrites_ne_headerBlock {data : Nat → BlockData} {count : Nat}
    (bounded : count ≤ sblock.logMx) {write : BlockNo × BlockData}
    (member : write ∈ loggedWrites sblock data 0 count) :
    write.1 ≠ sblock.headerBlock ∧ sblock.InLog write.1 := by
  obtain ⟨index, present, rfl⟩ := List.mem_map.mp member
  rw [List.mem_range'_1] at present
  have bound : index < sblock.logMx := by omega
  exact ⟨sblock.logBlock_ne_headerBlock bound, sblock.logBlock_inLog bound⟩

theorem cleared_numBlocks (header : LogHeader) :
    (LogHeader.ofBlock { header with numBlocks := 0 : LogHeader }.toBlock).numBlocks = 0 := by
  rw [LogHeader.ofBlock_toBlock _ (Nat.two_pow_pos 64)]

theorem ne_headerBlock_of_outside {blockNo : BlockNo} (outside : ¬sblock.InLog blockNo) :
    blockNo ≠ sblock.headerBlock := by
  intro same
  subst same
  exact outside sblock.headerBlock_inLog

theorem Recovers.settled {disk : Disk} (empty : (diskHeader sblock disk).numBlocks = 0) :
    Recovers sblock disk disk := by
  refine ⟨⟨by omega, fun tail within => by omega⟩, ?_⟩
  intro blockNo _
  rw [empty]
  rfl

theorem Recovers.cleared {disk target : Disk} (header : LogHeader)
    (content : ∀ blockNo, ¬sblock.InLog blockNo → disk blockNo = target blockNo) :
    Recovers sblock (Function.update disk sblock.headerBlock
      { header with numBlocks := 0 : LogHeader }.toBlock) target := by
  have empty : (diskHeader sblock (Function.update disk sblock.headerBlock
      { header with numBlocks := 0 : LogHeader }.toBlock)).numBlocks = 0 := by
    unfold diskHeader
    rw [Function.update_self]
    exact cleared_numBlocks header
  have self := Recovers.settled empty
  constructor
  · exact self.admits
  · intro blockNo outside
    rw [self.content blockNo outside, Function.update_of_ne (ne_headerBlock_of_outside outside)]
    exact content blockNo outside

theorem Recovers.outside_writes {disk target : Disk} (recovers : Recovers sblock disk target)
    (cut : Nat) :
    Recovers sblock (applyWrites ((installedWrites (diskHeader sblock disk) (diskLog sblock disk) 0
      (diskHeader sblock disk).numBlocks).take cut) disk) target := by
  generalize cutAt : applyWrites ((installedWrites (diskHeader sblock disk) (diskLog sblock disk) 0
    (diskHeader sblock disk).numBlocks).take cut) disk = reached
  have inside (blockNo : BlockNo) (inLog : sblock.InLog blockNo) :
      reached blockNo = disk blockNo := by
    rw [← cutAt]
    apply applyWrites_untouched
    intro write member same
    apply installedWrites_outside recovers.admits _ (List.mem_of_mem_take member)
    rw [same]
    exact inLog
  have header : diskHeader sblock reached = diskHeader sblock disk := by
    unfold diskHeader
    rw [inside _ sblock.headerBlock_inLog]
  have logs (index : Nat) (bound : index < (diskHeader sblock disk).numBlocks) :
      diskLog sblock reached index = diskLog sblock disk index :=
    inside _ (sblock.logBlock_inLog (recovers.admits.index bound))
  constructor
  · rw [header]
    exact recovers.admits
  · intro blockNo outside
    rw [header, installedWrites_congr logs, ← cutAt, applyWrites_take]
    exact recovers.content blockNo outside

theorem Recovers.cut_off {disk target : Disk} (recovers : Recovers sblock disk target)
    (cut : Nat) :
    Recovers sblock (applyWrites ((recoverWrites sblock disk).take cut) disk) target := by
  unfold recoverWrites
  rw [List.take_append, applyWrites_append]
  generalize installed : installedWrites (diskHeader sblock disk) (diskLog sblock disk) 0
    (diskHeader sblock disk).numBlocks = writes
  by_cases part : cut ≤ writes.length
  · rw [Nat.sub_eq_zero_of_le part, List.take_zero, applyWrites_nil, ← installed]
    exact recovers.outside_writes cut
  · have all : writes.take cut = writes := List.take_of_length_le (by omega)
    have last (write : BlockNo × BlockData) : [write].take (cut - writes.length) = [write] :=
      List.take_of_length_le (by rw [List.length_singleton]; omega)
    rw [all, last, applyWrites_singleton]
    apply Recovers.cleared
    intro blockNo outside
    rw [← installed]
    exact recovers.content blockNo outside

/-- However often recovery was cut off, the device recovers to the same content. -/
theorem Recovers.restarted {crashed disk target : Disk}
    (recovers : Recovers sblock crashed target) (restarted : Restarted sblock crashed disk) :
    Recovers sblock disk target := by
  induction restarted with
  | crash => exact recovers
  | @again disk _ heap after recovered cut ih =>
      obtain ⟨final, returned, writes, _, _⟩ := recoverFromLog_spec ih.admits heap
      rw [recovered] at returned
      cases returned
      rw [writes]
      exact ih.cut_off cut

/-- Recovery that is not cut off reaches the content and clears the header. -/
theorem Recovers.recovered {disk target : Disk} (recovers : Recovers sblock disk target)
    (heap : Addr → Block) :
    ∃ final, recoverFromLog sblock (boot heap disk) = .ok final ∧
      (∀ blockNo, ¬sblock.InLog blockNo → final.disk blockNo = target blockNo) ∧
      (diskHeader sblock final.disk).numBlocks = 0 := by
  obtain ⟨final, returned, _, disk', _⟩ := recoverFromLog_spec recovers.admits heap
  refine ⟨final, returned, ?_, ?_⟩
  · intro blockNo outside
    rw [disk', recoverWrites, applyWrites_append, applyWrites_singleton,
      Function.update_of_ne (ne_headerBlock_of_outside outside)]
    exact recovers.content blockNo outside
  · rw [disk', recoverWrites, applyWrites_append, applyWrites_singleton]
    unfold diskHeader
    rw [Function.update_self]
    exact cleared_numBlocks _

/-! ### One commit -/

def Memory.logged (memory : Memory) (index : Nat) : BlockData :=
  memory.content (memory.header.entry index)

variable {memory : Memory}

theorem Ready.slot (ready : Ready sblock memory) {index : Nat}
    (within : index < memory.header.numBlocks) : index < logMaxSize :=
  (SuperBlock.tail_within (Nat.lt_of_lt_of_le within ready.bounded)).2

theorem Ready.admits (ready : Ready sblock memory) : sblock.Admits memory.header :=
  ⟨ready.bounded, fun _ within =>
    ready.outside _ (LogHeader.lists_entry within (ready.slot within))⟩

theorem Memory.consistent (memory : Memory) : Consistent memory.header memory.logged := by
  intro left right _ _ same
  unfold logged
  rw [same]

theorem Ready.serves (ready : Ready sblock memory) (disk : Disk) {index : Nat}
    (within : index < memory.header.numBlocks) :
    (memory.on disk).Serves (memory.header.entry index) (memory.logged index) ∧
      (memory.on disk).Pinned (memory.header.entry index) := by
  have lists := LogHeader.lists_entry within (ready.slot within)
  have pinned : (memory.on disk).Pinned (memory.header.entry index) := ready.pinned _ lists
  refine ⟨⟨?_, ?_, Or.inl pinned⟩, pinned⟩
  · intro addr member number
    exact ready.free addr member (Or.inl (number.symm ▸ lists))
  · intro addr member number
    have found := ready.wellFormed.find_eq member
    have renamed : (memory.cache.heap addr).blockNo = memory.header.entry index := number
    rw [renamed] at found
    unfold Memory.logged Memory.content
    rw [found]
    rfl

theorem Ready.logging (ready : Ready sblock memory) (disk : Disk) :
    Logging sblock memory.header memory.logged 0 (memory.on disk) :=
  { wellFormed := ready.wellFormed
    current := rfl
    listed := fun _ within => (ready.serves disk within).1
    pinned := fun _ within => (ready.serves disk within).2
    logged := fun index impossible => absurd impossible (Nat.not_lt_zero index)
    free := by
      intro index within addr member number
      refine ready.free addr member (Or.inr ?_)
      have inLog := sblock.logBlock_inLog (Nat.lt_of_lt_of_le within ready.bounded)
      rw [← number] at inLog
      exact inLog }

theorem Ready.commit (ready : Ready sblock memory) (disk : Disk) :
    ∃ after, commit sblock (memory.on disk) = .ok after ∧
      after.writes = commitWrites sblock memory.header memory.logged ∧
      after.disk = applyWrites (commitWrites sblock memory.header memory.logged) disk := by
  have undisturbed : Undisturbed sblock memory.header memory.logged (fun _ => True) :=
    ⟨fun _ _ _ _ _ _ => trivial, fun _ _ _ _ _ _ => trivial, fun _ _ => trivial⟩
  obtain ⟨installed, committed, -, -, writes, installs⟩ := commit_spec ready.admits
    memory.consistent ready.nonempty undisturbed (ready.logging disk) trivial
  exact ⟨_, committed, writes, installs⟩

theorem Ready.firstHeaderWrite_eq (ready : Ready sblock memory) :
    firstHeaderWrite sblock (commitWrites sblock memory.header memory.logged) =
      memory.header.numBlocks := by
  have before : (loggedWrites sblock memory.logged 0 memory.header.numBlocks).findIdx
      (fun write => write.1 = sblock.headerBlock) =
        (loggedWrites sblock memory.logged 0 memory.header.numBlocks).length := by
    apply List.findIdx_eq_length_of_false
    intro write member
    exact decide_eq_false (loggedWrites_ne_headerBlock ready.bounded member).1
  unfold firstHeaderWrite commitWrites
  rw [List.findIdx_append, if_neg (by rw [before]; exact Nat.lt_irrefl _), List.singleton_append,
    List.findIdx_cons]
  simp only [decide_true, cond_true, Nat.zero_add, loggedWrites, List.length_map,
    List.length_range']

/-- The device just after the first header write of a commit. -/
def Memory.headerWritten (sblock : SuperBlock) (memory : Memory) (disk : Disk) : Disk :=
  Function.update
    (applyWrites (loggedWrites sblock memory.logged 0 memory.header.numBlocks) disk)
    sblock.headerBlock memory.header.toBlock

theorem Ready.diskHeader_written (ready : Ready sblock memory) (disk : Disk) :
    diskHeader sblock (memory.headerWritten sblock disk) = memory.header := by
  have limit := sblock.logMx_le
  have bounded := ready.bounded
  have small : memory.header.numBlocks < 2 ^ 64 := by
    unfold logMaxSize blockSize at limit
    omega
  unfold diskHeader Memory.headerWritten
  rw [Function.update_self]
  exact LogHeader.ofBlock_toBlock _ small

theorem Ready.diskLog_written (ready : Ready sblock memory) (disk : Disk) {index : Nat}
    (within : index < memory.header.numBlocks) :
    diskLog sblock (memory.headerWritten sblock disk) index = memory.logged index := by
  have bound := Nat.lt_of_lt_of_le within ready.bounded
  unfold diskLog Memory.headerWritten
  rw [Function.update_of_ne (sblock.logBlock_ne_headerBlock bound)]
  apply applyWrites_constant
  · exact ⟨_, List.mem_map.mpr ⟨index, by rw [List.mem_range'_1]; omega, rfl⟩, rfl⟩
  · intro write member same
    obtain ⟨other, present, rfl⟩ := List.mem_map.mp member
    rw [List.mem_range'_1] at present
    have otherBound : other < sblock.logMx := by
      have bounded := ready.bounded
      omega
    rw [sblock.logBlock_injective otherBound bound same]

theorem Ready.commitWrites_eq (ready : Ready sblock memory) (disk : Disk) :
    commitWrites sblock memory.header memory.logged =
      loggedWrites sblock memory.logged 0 memory.header.numBlocks ++
        ((sblock.headerBlock, memory.header.toBlock) ::
          recoverWrites sblock (memory.headerWritten sblock disk)) := by
  have same := installedWrites_congr
    (fun index within => (ready.diskLog_written disk within).symm)
  unfold commitWrites recoverWrites
  rw [ready.diskHeader_written disk, same]
  rfl

/-- A completed commit leaves an empty log. -/
theorem Ready.emptied (ready : Ready sblock memory) (disk : Disk) :
    (diskHeader sblock (applyWrites (commitWrites sblock memory.header memory.logged)
      disk)).numBlocks = 0 := by
  rw [ready.commitWrites_eq disk, applyWrites_append, recoverWrites, ← List.cons_append,
    applyWrites_append, applyWrites_singleton]
  unfold diskHeader
  rw [Function.update_self]
  exact cleared_numBlocks _

/-- A crash before the first header write: the log is empty and nothing else changed. -/
theorem Ready.crash_before (ready : Ready sblock memory) {disk : Disk}
    (empty : (diskHeader sblock disk).numBlocks = 0) {cut : Nat}
    (early : cut ≤ memory.header.numBlocks) :
    Recovers sblock (applyWrites
      ((commitWrites sblock memory.header memory.logged).take cut) disk) disk := by
  have length : (loggedWrites sblock memory.logged 0 memory.header.numBlocks).length =
      memory.header.numBlocks := by
    rw [loggedWrites, List.length_map, List.length_range']
  have part : (commitWrites sblock memory.header memory.logged).take cut =
      (loggedWrites sblock memory.logged 0 memory.header.numBlocks).take cut := by
    unfold commitWrites
    rw [List.take_append_of_le_length (by omega)]
  rw [part]
  have logOnly (write : BlockNo × BlockData)
      (member : write ∈ (loggedWrites sblock memory.logged 0 memory.header.numBlocks).take cut) :=
    loggedWrites_ne_headerBlock ready.bounded (List.mem_of_mem_take member)
  have header : diskHeader sblock (applyWrites
      ((loggedWrites sblock memory.logged 0 memory.header.numBlocks).take cut) disk) =
        diskHeader sblock disk := by
    unfold diskHeader
    rw [applyWrites_untouched (fun write member => (logOnly write member).1)]
  have self := @Recovers.settled sblock _ (header.symm ▸ empty)
  constructor
  · exact self.admits
  · intro blockNo outside
    rw [self.content blockNo outside]
    apply applyWrites_untouched
    rintro write member rfl
    exact outside (logOnly write member).2

/-- A crash after the first header write: the commit will be completed. -/
theorem Ready.crash_after (ready : Ready sblock memory) (disk : Disk) {cut : Nat}
    (late : memory.header.numBlocks < cut) :
    Recovers sblock (applyWrites
        ((commitWrites sblock memory.header memory.logged).take cut) disk)
      (applyWrites (commitWrites sblock memory.header memory.logged) disk) := by
  have length : (loggedWrites sblock memory.logged 0 memory.header.numBlocks).length =
      memory.header.numBlocks := by
    rw [loggedWrites, List.length_map, List.length_range']
  have split (writes : List (BlockNo × BlockData)) : applyWrites
      (loggedWrites sblock memory.logged 0 memory.header.numBlocks ++
        ((sblock.headerBlock, memory.header.toBlock) :: writes)) disk =
      applyWrites writes (memory.headerWritten sblock disk) := by
    rw [applyWrites_append]
    rfl
  have started : Recovers sblock (memory.headerWritten sblock disk)
      (applyWrites (commitWrites sblock memory.header memory.logged) disk) := by
    constructor
    · exact (ready.diskHeader_written disk).symm ▸ ready.admits
    · intro blockNo outside
      rw [ready.commitWrites_eq disk, split, recoverWrites, applyWrites_append,
        applyWrites_singleton, Function.update_of_ne (ne_headerBlock_of_outside outside)]
  have part : (commitWrites sblock memory.header memory.logged).take cut =
      loggedWrites sblock memory.logged 0 memory.header.numBlocks ++
        ((sblock.headerBlock, memory.header.toBlock) ::
          (recoverWrites sblock (memory.headerWritten sblock disk)).take
            (cut - memory.header.numBlocks - 1)) := by
    obtain ⟨more, rfl⟩ : ∃ more, cut = memory.header.numBlocks + (more + 1) :=
      ⟨cut - memory.header.numBlocks - 1, by omega⟩
    rw [ready.commitWrites_eq disk, List.take_append, length,
      List.take_of_length_le (by omega), Nat.add_sub_cancel_left, List.take_succ_cons,
      Nat.add_sub_cancel]
  rw [part, split]
  exact started.cut_off _

theorem Ready.commit_installs (ready : Ready sblock memory) (disk : Disk) {blockNo : BlockNo}
    (outside : ¬sblock.InLog blockNo) :
    applyWrites (commitWrites sblock memory.header memory.logged) disk blockNo =
      memory.install disk blockNo := by
  have logUntouched : applyWrites (loggedWrites sblock memory.logged 0 memory.header.numBlocks)
      disk blockNo = disk blockNo := by
    apply applyWrites_untouched
    rintro write member rfl
    exact outside (loggedWrites_ne_headerBlock ready.bounded member).2
  have notHeader := ne_headerBlock_of_outside outside
  unfold commitWrites Memory.install
  rw [applyWrites_append, applyWrites_append, applyWrites_append, applyWrites_singleton,
    applyWrites_singleton, Function.update_of_ne notHeader]
  split
  · rename_i lists
    obtain ⟨index, within, number⟩ := lists
    apply applyWrites_constant
    · refine ⟨_, List.mem_map.mpr ⟨index.val, by rw [List.mem_range'_1]; omega, rfl⟩, ?_⟩
      rw [← number]
      exact (memory.header.blockNo_eq_entry index.isLt).symm
    · intro write member same
      obtain ⟨other, _, rfl⟩ := List.mem_map.mp member
      exact congrArg memory.content same
  · rename_i unlisted
    rw [applyWrites_untouched, Function.update_of_ne notHeader, logUntouched]
    intro write member same
    obtain ⟨index, present, rfl⟩ := List.mem_map.mp member
    rw [List.mem_range'_1] at present
    have within : index < memory.header.numBlocks := by omega
    exact unlisted (same ▸ LogHeader.lists_entry within (ready.slot within))

/-! ### Sequences of commits -/

def sequenceWrites (sblock : SuperBlock) (memories : List Memory) :
    List (List (BlockNo × BlockData)) :=
  memories.map (fun memory => commitWrites sblock memory.header memory.logged)

theorem runCommits_eq (memories : List Memory) (disk : Disk)
    (ready : ∀ memory ∈ memories, Ready sblock memory) :
    runCommits sblock disk memories = .ok (sequenceWrites sblock memories) := by
  induction memories generalizing disk with
  | nil => rfl
  | cons memory rest ih =>
      obtain ⟨after, committed, writes, _⟩ := (ready memory List.mem_cons_self).commit disk
      unfold runCommits
      rw [committed]
      simp only [ok_bind]
      rw [ih after.disk (fun other member => ready other (List.mem_cons_of_mem _ member)), writes]
      rfl

theorem sequence_installs (memories : List Memory)
    (ready : ∀ memory ∈ memories, Ready sblock memory) {left right : Disk}
    (same : ∀ blockNo, ¬sblock.InLog blockNo → left blockNo = right blockNo) {blockNo : BlockNo}
    (outside : ¬sblock.InLog blockNo) :
    applyWrites (sequenceWrites sblock memories).flatten left blockNo =
      memories.foldl (fun disk memory => memory.install disk) right blockNo := by
  induction memories generalizing left right with
  | nil => exact same blockNo outside
  | cons memory rest ih =>
      rw [sequenceWrites, List.map_cons, List.flatten_cons, applyWrites_append, List.foldl_cons]
      apply ih (fun other member => ready other (List.mem_cons_of_mem _ member))
      intro other otherOutside
      rw [(ready memory List.mem_cons_self).commit_installs left otherOutside]
      unfold Memory.install
      rw [same other otherOutside]

/-- A crash anywhere in a sequence of commits leaves a device that recovers to the content
after the commits whose first header write was reached. -/
theorem sequence_recovers (memories : List Memory) :
    ∀ disk : Disk, (diskHeader sblock disk).numBlocks = 0 →
      (∀ memory ∈ memories, Ready sblock memory) → ∀ cut,
        Recovers sblock (applyWrites ((sequenceWrites sblock memories).flatten.take cut) disk)
          (applyWrites ((sequenceWrites sblock memories).take
            (committedCount sblock cut (sequenceWrites sblock memories))).flatten disk) := by
  induction memories with
  | nil =>
      intro disk empty _ cut
      rw [sequenceWrites, List.map_nil, List.take_nil, List.flatten_nil, List.take_nil]
      exact Recovers.settled empty
  | cons memory rest ih =>
      intro disk empty ready cut
      have current := ready memory List.mem_cons_self
      have more := ih (applyWrites (commitWrites sblock memory.header memory.logged) disk)
        (current.emptied disk) (fun other member => ready other (List.mem_cons_of_mem _ member))
      rw [sequenceWrites, List.map_cons, ← sequenceWrites]
      generalize sequenceWrites sblock rest = runs at more ⊢
      unfold committedCount
      rw [List.flatten_cons, List.take_append, applyWrites_append, current.firstHeaderWrite_eq]
      by_cases reached : memory.header.numBlocks < cut
      · rw [if_pos reached, Nat.add_comm, List.take_succ_cons, List.flatten_cons,
          applyWrites_append]
        by_cases finished :
            (commitWrites sblock memory.header memory.logged).length ≤ cut
        · rw [List.take_of_length_le finished]
          exact more _
        · have none : committedCount sblock 0 runs = 0 := by
            cases runs with
            | nil => rfl
            | cons => exact if_neg (Nat.not_lt_zero _)
          rw [Nat.sub_eq_zero_of_le (by omega), none, List.take_zero, List.take_zero,
            List.flatten_nil, applyWrites_nil, applyWrites_nil]
          exact current.crash_after disk reached
      · have notFinished : cut ≤ (commitWrites sblock memory.header memory.logged).length := by
          have bound : memory.header.numBlocks ≤
              (commitWrites sblock memory.header memory.logged).length := by
            rw [← current.firstHeaderWrite_eq]
            exact List.findIdx_le_length
          omega
        rw [if_neg reached, Nat.sub_eq_zero_of_le notFinished, List.take_zero, List.take_zero,
          List.flatten_nil, applyWrites_nil, applyWrites_nil]
        exact current.crash_before empty (by omega)

/-- Crash atomicity. Any sequence of commits returns. If the machine stops after any number
of its device writes, and recovery is cut off and restarted any number of times, a recovery
that completes leaves every block outside the log area as after exactly the commits whose
first header write reached the device, and an empty log. These commits have installed the
cached contents of their listed blocks and nothing else. -/
theorem commits_crash_atomic (sblock : SuperBlock) (disk : Disk)
    (empty : (diskHeader sblock disk).numBlocks = 0) (memories : List Memory)
    (ready : ∀ memory ∈ memories, Ready sblock memory) :
    ∃ runs, runCommits sblock disk memories = .ok runs ∧ ∀ (cut : Nat) (found : Disk),
      Restarted sblock (applyWrites (runs.flatten.take cut) disk) found →
      ∀ heap : Addr → Block, ∃ final, recoverFromLog sblock (boot heap found) = .ok final ∧
        (∀ blockNo, ¬sblock.InLog blockNo →
          final.disk blockNo =
            applyWrites (runs.take (committedCount sblock cut runs)).flatten disk blockNo ∧
          final.disk blockNo = (memories.take (committedCount sblock cut runs)).foldl
            (fun store memory => memory.install store) disk blockNo) ∧
        (diskHeader sblock final.disk).numBlocks = 0 := by
  refine ⟨sequenceWrites sblock memories, runCommits_eq memories disk ready, ?_⟩
  intro cut found restarted heap
  obtain ⟨final, returned, content, cleared⟩ :=
    ((sequence_recovers memories disk empty ready cut).restarted restarted).recovered heap
  refine ⟨final, returned, ?_, cleared⟩
  intro blockNo outside
  constructor
  · exact content blockNo outside
  · rw [content blockNo outside, sequenceWrites, ← List.map_take]
    exact sequence_installs _ (fun memory member => ready memory (List.mem_of_mem_take member))
      (fun _ _ => rfl) outside

/-- A memory with one modified block, cached, pinned and listed. -/
def oneBlockMemory : Memory :=
  { cache :=
      { order := [7]
        heap := fun _ => { initBlock with blockNo := 500, pinned := true, data := fun _ => 1 } }
    header := { numBlocks := 1, blockNo := fun _ => 500 } }

theorem oneBlockMemory_ready : Ready mkfsSuperBlock oneBlockMemory := by
  have listed (blockNo : BlockNo) (lists : oneBlockMemory.header.Lists blockNo) :
      blockNo = 500 := by
    obtain ⟨_, _, number⟩ := lists
    exact number.symm
  refine
    { wellFormed := ⟨List.pairwise_singleton _ 7, ?_⟩
      nonempty := Nat.le_refl 1
      bounded := by decide
      distinct := ?_
      outside := ?_
      pinned := ?_
      free := fun addr _ _ => rfl }
  · intro left leftMember right rightMember _
    rw [List.mem_singleton.mp leftMember, List.mem_singleton.mp rightMember]
  · intro left right leftWithin rightWithin _
    apply Fin.ext
    change left.val < 1 at leftWithin
    change right.val < 1 at rightWithin
    omega
  · intro blockNo lists
    rw [listed blockNo lists]
    decide
  · intro blockNo lists
    rw [listed blockNo lists]
    exact ⟨7, List.mem_singleton_self 7, rfl, rfl⟩

theorem commits_crash_atomic_mkfs :
    ∃ runs, runCommits mkfsSuperBlock (fun _ _ => 0) [oneBlockMemory, oneBlockMemory] = .ok runs ∧
      ∀ (cut : Nat) (found : Disk),
        Restarted mkfsSuperBlock (applyWrites (runs.flatten.take cut) (fun _ _ => 0)) found →
        ∀ heap : Addr → Block, ∃ final,
          recoverFromLog mkfsSuperBlock (boot heap found) = .ok final ∧
          (∀ blockNo, ¬mkfsSuperBlock.InLog blockNo →
            final.disk blockNo = applyWrites
              (runs.take (committedCount mkfsSuperBlock cut runs)).flatten (fun _ _ => 0) blockNo ∧
            final.disk blockNo = ([oneBlockMemory, oneBlockMemory].take
              (committedCount mkfsSuperBlock cut runs)).foldl
              (fun store memory => memory.install store) (fun _ _ => 0) blockNo) ∧
          (diskHeader mkfsSuperBlock final.disk).numBlocks = 0 :=
  commits_crash_atomic mkfsSuperBlock (fun _ _ => 0) (by decide) [oneBlockMemory, oneBlockMemory]
    (by
      intro memory member
      rcases List.mem_pair.mp member with rfl | rfl <;> exact oneBlockMemory_ready)

end LabKernel.Fs
