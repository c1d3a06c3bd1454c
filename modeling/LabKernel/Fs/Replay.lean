/-
Replay of the log at a start.

The writes of a replay are those of the listed numbers, in order, and that of the cleared header.
So a number that is listed more than once keeps the last of its log blocks, and a second replay
finds nothing to do.
-/

import LabKernel.Fs.Calls
import LabKernel.Fs.Crash

set_option autoImplicit false

namespace LabKernel.Fs

open Writes

variable {sblock : SuperBlock} {disk : Disk}

theorem installedWrites_split (header : LogHeader) (data : Nat → BlockData) {index : Nat}
    (within : index < header.numBlocks) :
    installedWrites header data 0 header.numBlocks =
      installedWrites header data 0 index ++ (header.entry index, data index) ::
        installedWrites header data (index + 1) (header.numBlocks - index - 1) := by
  have rounds : header.numBlocks = index + (header.numBlocks - index - 1 + 1) := by omega
  unfold installedWrites
  conv_lhs => rw [rounds]
  rw [← List.range'_append_1, List.map_append, Nat.zero_add, List.range'_succ]
  rfl

/-- A replay on an admitted header returns, and the device holds its writes. -/
theorem init_disk (admits : sblock.Admits (diskHeader sblock disk)) (heap : Addr → Block) :
    ∃ final, Bcache.init sblock heap disk = .ok final ∧
      final.volume.disk = applyWrites (recoverWrites sblock disk) disk := by
  obtain ⟨after, returned, _, written, _⟩ := recoverFromLog_spec admits heap
  have started : Bcache.init sblock heap disk = .ok
      { volume := after
        log := { outstanding := 0, committing := false, mu := 0, mx := sblock.logMx }
        rm := fun _ => 0
        running := []
        held := [] } := by
    unfold Bcache.init
    rw [returned]
    rfl
  exact ⟨_, started, written⟩

theorem replayed_listed (admits : sblock.Admits (diskHeader sblock disk)) {index : Nat}
    (within : index < (diskHeader sblock disk).numBlocks)
    (last : ∀ later, index < later → later < (diskHeader sblock disk).numBlocks →
      (diskHeader sblock disk).entry later ≠ (diskHeader sblock disk).entry index) :
    applyWrites (recoverWrites sblock disk) disk ((diskHeader sblock disk).entry index) =
      diskLog sblock disk index := by
  unfold recoverWrites
  rw [applyWrites_append, applyWrites_singleton,
    Function.update_of_ne (admits.entry_ne_headerBlock within), installedWrites_split _ _ within]
  apply applyWrites_last
  intro write member
  obtain ⟨later, present, rfl⟩ := List.mem_map.mp member
  rw [List.mem_range'_1] at present
  exact last later (by omega) (by omega)

theorem replayed_other {blockNo : BlockNo} (outside : blockNo ≠ sblock.headerBlock)
    (unlisted : ∀ index, index < (diskHeader sblock disk).numBlocks →
      (diskHeader sblock disk).entry index ≠ blockNo) :
    applyWrites (recoverWrites sblock disk) disk blockNo = disk blockNo := by
  unfold recoverWrites
  rw [applyWrites_append, applyWrites_singleton, Function.update_of_ne outside]
  apply applyWrites_untouched
  intro write member
  obtain ⟨index, present, rfl⟩ := List.mem_map.mp member
  rw [List.mem_range'_1] at present
  exact unlisted index (by omega)

theorem replayed_headerBlock (sblock : SuperBlock) (disk : Disk) :
    applyWrites (recoverWrites sblock disk) disk sblock.headerBlock =
      { diskHeader sblock disk with numBlocks := 0 : LogHeader }.toBlock := by
  rw [recoverWrites, applyWrites_append, applyWrites_singleton, Function.update_self]

theorem replayed_header (sblock : SuperBlock) (disk : Disk) :
    diskHeader sblock (applyWrites (recoverWrites sblock disk) disk) =
      { diskHeader sblock disk with numBlocks := 0 } := by
  rw [diskHeader, replayed_headerBlock, LogHeader.ofBlock_toBlock _ (Nat.two_pow_pos 64)]

theorem replayed_again (sblock : SuperBlock) (disk : Disk) :
    applyWrites (recoverWrites sblock (applyWrites (recoverWrites sblock disk) disk))
        (applyWrites (recoverWrites sblock disk) disk) =
      applyWrites (recoverWrites sblock disk) disk := by
  generalize settled : applyWrites (recoverWrites sblock disk) disk = after
  have header : diskHeader sblock after = { diskHeader sblock disk with numBlocks := 0 } := by
    rw [← settled]
    exact replayed_header sblock disk
  have holds : after sblock.headerBlock =
      { diskHeader sblock disk with numBlocks := 0 : LogHeader }.toBlock := by
    rw [← settled]
    exact replayed_headerBlock sblock disk
  rw [recoverWrites, header]
  change Function.update after sblock.headerBlock
    { diskHeader sblock disk with numBlocks := 0 : LogHeader }.toBlock = after
  rw [← holds, Function.update_eq_self]

/-- What `init_bcache` leaves on a device whose header lists no more than the log holds, and
nothing in the log area: every listed block has the last of its log blocks, all others but the
header are as they were, the header counts zero, and a second start changes nothing. -/
theorem init_replays_log (sblock : SuperBlock) (disk : Disk) (heap : Addr → Block)
    (admits : sblock.Admits (diskHeader sblock disk)) :
    ∃ final, Bcache.init sblock heap disk = .ok final ∧
      (∀ index, index < (diskHeader sblock disk).numBlocks →
        (∀ later, index < later → later < (diskHeader sblock disk).numBlocks →
          (diskHeader sblock disk).entry later ≠ (diskHeader sblock disk).entry index) →
        final.volume.disk ((diskHeader sblock disk).entry index) = disk (sblock.logBlock index)) ∧
      (∀ blockNo, blockNo ≠ sblock.headerBlock →
        (∀ index, index < (diskHeader sblock disk).numBlocks →
          (diskHeader sblock disk).entry index ≠ blockNo) →
        final.volume.disk blockNo = disk blockNo) ∧
      (diskHeader sblock final.volume.disk).numBlocks = 0 ∧
      ∀ heap, ∃ again, Bcache.init sblock heap final.volume.disk = .ok again ∧
        again.volume.disk = final.volume.disk := by
  obtain ⟨final, started, written⟩ := init_disk admits heap
  have header := replayed_header sblock disk
  have repeated := replayed_again sblock disk
  refine ⟨final, started, ?_, ?_, ?_, ?_⟩
  · intro index within last
    rw [written]
    exact replayed_listed admits within last
  · intro blockNo outside unlisted
    rw [written]
    exact replayed_other outside unlisted
  · rw [written, header]
  · intro heap
    rw [written]
    have settled : sblock.Admits
        (diskHeader sblock (applyWrites (recoverWrites sblock disk) disk)) := by
      rw [header]
      exact ⟨Nat.zero_le _, fun tail within => absurd within (Nat.not_lt_zero tail)⟩
    obtain ⟨again, restarted, rewritten⟩ := init_disk settled heap
    exact ⟨again, restarted, rewritten.trans repeated⟩

/-- Block 500 is listed first and last, and block 600 between. -/
def twiceHeader : LogHeader :=
  { numBlocks := 3
    blockNo := fun index => if index.val = 1 then 600 else 500 }

def twiceDisk : Disk := fun blockNo =>
  if blockNo = mkfsSuperBlock.headerBlock then twiceHeader.toBlock
  else fun _ => UInt8.ofNat blockNo.toNat

theorem diskHeader_twiceDisk : diskHeader mkfsSuperBlock twiceDisk = twiceHeader := by
  rw [diskHeader, twiceDisk, if_pos rfl, LogHeader.ofBlock_toBlock _ (by decide)]

theorem twiceDisk_admitted : mkfsSuperBlock.Admits (diskHeader mkfsSuperBlock twiceDisk) := by
  rw [diskHeader_twiceDisk]
  constructor
  · decide
  · decide

theorem init_replays_log_twice : ∃ final,
    Bcache.init mkfsSuperBlock (fun _ => initBlock) twiceDisk = .ok final ∧
      final.volume.disk 500 = twiceDisk (mkfsSuperBlock.logBlock 2) ∧
      final.volume.disk 700 = twiceDisk 700 := by
  obtain ⟨final, started, listed, other, _⟩ :=
    init_replays_log mkfsSuperBlock twiceDisk (fun _ => initBlock) twiceDisk_admitted
  rw [diskHeader_twiceDisk] at listed other
  refine ⟨final, started, ?_, ?_⟩
  · apply listed 2 (by decide)
    intro later above below
    change later < 3 at below
    omega
  · apply other 700 (by decide)
    decide

end LabKernel.Fs
