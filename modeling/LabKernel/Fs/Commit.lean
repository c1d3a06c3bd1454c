/-
What `commit` and `recover_from_log` write to the device, in order.

Both go through the evicting cache. A commit serves the listed blocks from their
pinned copies and the log blocks from wherever they are; recovery starts from an
empty cache, so every cached block equals the device. In both cases the sequence
of device writes depends only on the header and on the contents to be logged.
-/

import LabKernel.Fs.Log

set_option autoImplicit false

namespace LabKernel.Fs

open Common Writes Outcomes

/-- The device writes of `write_log` for rounds from `tail` on. -/
def loggedWrites (sblock : SuperBlock) (data : Nat → BlockData) (tail rounds : Nat) :
    List (BlockNo × BlockData) :=
  (List.range' tail rounds).map (fun index => (sblock.logBlock index, data index))

/-- The device writes of `install_trans` for rounds from `tail` on. -/
def installedWrites (header : LogHeader) (data : Nat → BlockData) (tail rounds : Nat) :
    List (BlockNo × BlockData) :=
  (List.range' tail rounds).map (fun index => (header.entry index, data index))

/-- The numbers a header may list: as many as the log holds, none in the log area. -/
structure SuperBlock.Admits (sblock : SuperBlock) (header : LogHeader) : Prop where
  bounded : header.numBlocks ≤ sblock.logMx
  outside : ∀ tail, tail < header.numBlocks → ¬sblock.InLog (header.entry tail)

theorem SuperBlock.Admits.index {sblock : SuperBlock} {header : LogHeader}
    (admits : sblock.Admits header) {tail : Nat} (within : tail < header.numBlocks) :
    tail < sblock.logMx :=
  Nat.lt_of_lt_of_le within admits.bounded

theorem SuperBlock.Admits.entry_ne_logBlock {sblock : SuperBlock} {header : LogHeader}
    (admits : sblock.Admits header) {tail index : Nat} (within : tail < header.numBlocks)
    (indexWithin : index < header.numBlocks) : header.entry tail ≠ sblock.logBlock index := by
  intro same
  apply admits.outside tail within
  rw [same]
  exact sblock.logBlock_inLog (admits.index indexWithin)

theorem SuperBlock.Admits.entry_ne_headerBlock {sblock : SuperBlock} {header : LogHeader}
    (admits : sblock.Admits header) {tail : Nat} (within : tail < header.numBlocks) :
    header.entry tail ≠ sblock.headerBlock := by
  intro same
  apply admits.outside tail within
  rw [same]
  exact sblock.headerBlock_inLog

theorem Volume.Serves.write {volume : Volume} {blockNo other : BlockNo} {content : BlockData}
    (serves : volume.Serves blockNo content) (different : blockNo ≠ other) (data : BlockData) :
    (volume.write other data).Serves blockNo content := by
  refine ⟨serves.free, serves.cached, ?_⟩
  rcases serves.stored with pinned | stored
  · exact Or.inl pinned
  · apply Or.inr
    change Function.update volume.disk other data blockNo = content
    rw [Function.update_of_ne different]
    exact stored

/-! ### A commit -/

/-- While a commit runs: the listed blocks are pinned and serve the data to be logged, and
the log blocks before `tail` serve it as well. -/
structure Logging (sblock : SuperBlock) (header : LogHeader) (data : Nat → BlockData)
    (tail : Nat) (volume : Volume) : Prop where
  wellFormed : volume.cache.WellFormed
  current : volume.header = header
  listed : ∀ index, index < header.numBlocks → volume.Serves (header.entry index) (data index)
  pinned : ∀ index, index < header.numBlocks → volume.Pinned (header.entry index)
  logged : ∀ index, index < tail → volume.Serves (sblock.logBlock index) (data index)
  free : ∀ index, index < header.numBlocks → volume.Free (sblock.logBlock index)

section Rounds

variable {sblock : SuperBlock} {header : LogHeader} {data : Nat → BlockData}

/-- Distinct numbers make the data a function of the listed number. -/
def Consistent (header : LogHeader) (data : Nat → BlockData) : Prop :=
  ∀ left right, left < header.numBlocks → right < header.numBlocks →
    header.entry left = header.entry right → data left = data right

theorem Logging.log_round {volume : Volume} {tail : Nat} (admits : sblock.Admits header)
    (consistent : Consistent header data) (within : tail < header.numBlocks)
    (logging : Logging sblock header data tail volume) :
    ∃ after, volume.transfer (header.entry tail) (sblock.logBlock tail) false = .ok after ∧
      Logging sblock header data (tail + 1) after ∧
      volume.Transferred (header.entry tail) (sblock.logBlock tail) (data tail) false after := by
  obtain ⟨after, executed, moved⟩ := Volume.transfer_spec false logging.wellFormed
    (admits.entry_ne_logBlock within within) (logging.listed tail within)
    (logging.free tail within) (Or.inl (logging.pinned tail within))
  refine ⟨after, executed, ?_, moved⟩
  refine
    { wellFormed := moved.wellFormed
      current := moved.header.trans logging.current
      listed := ?_
      pinned := fun index bound => moved.pinned _ (logging.pinned index bound) (fun _ => rfl)
      logged := ?_
      free := fun index bound => moved.free (logging.free index bound) }
  · intro index bound
    exact moved.serves_other (admits.entry_ne_logBlock bound within)
      (consistent index tail bound within) (logging.listed index bound)
  · intro index bound
    by_cases newest : index = tail
    · subst newest
      exact moved.serves_target
    · have older : index < tail := by omega
      have indexWithin : index < header.numBlocks := by omega
      apply moved.serves_other ?_ ?_ (logging.logged index older)
      · intro same
        exact newest (sblock.logBlock_injective (admits.index indexWithin)
          (admits.index within) same)
      · intro same
        exact absurd same.symm (admits.entry_ne_logBlock within indexWithin)

theorem Logging.install_round {volume : Volume} {tail : Nat} (admits : sblock.Admits header)
    (consistent : Consistent header data) (within : tail < header.numBlocks)
    (logging : Logging sblock header data header.numBlocks volume) :
    ∃ after, volume.transfer (sblock.logBlock tail) (header.entry tail) false = .ok after ∧
      Logging sblock header data header.numBlocks after ∧
      volume.Transferred (sblock.logBlock tail) (header.entry tail) (data tail) false after := by
  obtain ⟨after, executed, moved⟩ := Volume.transfer_spec false logging.wellFormed
    (admits.entry_ne_logBlock within within).symm (logging.logged tail within)
    (logging.listed tail within).free (Or.inr (Or.inr (Or.inl (logging.pinned tail within))))
  refine ⟨after, executed, ?_, moved⟩
  refine
    { wellFormed := moved.wellFormed
      current := moved.header.trans logging.current
      listed := ?_
      pinned := fun index bound => moved.pinned _ (logging.pinned index bound) (fun _ => rfl)
      logged := ?_
      free := fun index bound => moved.free (logging.free index bound) }
  · intro index bound
    by_cases same : header.entry index = header.entry tail
    · rw [same, consistent index tail bound within same]
      exact moved.serves_target
    · exact moved.serves_other same
        (fun equal => absurd equal (admits.entry_ne_logBlock bound within))
        (logging.listed index bound)
  · intro index bound
    apply moved.serves_other (admits.entry_ne_logBlock within bound).symm ?_
      (logging.logged index bound)
    intro same
    rw [sblock.logBlock_injective (admits.index bound) (admits.index within) same]

/-- A property of the volume that the rounds of a commit and its header writes keep. -/
structure Undisturbed (sblock : SuperBlock) (header : LogHeader) (data : Nat → BlockData)
    (P : Volume → Prop) : Prop where
  logged : ∀ volume after tail, tail < header.numBlocks → P volume →
    volume.Transferred (header.entry tail) (sblock.logBlock tail) (data tail) false after → P after
  installed : ∀ volume after tail, tail < header.numBlocks → P volume →
    volume.Transferred (sblock.logBlock tail) (header.entry tail) (data tail) false after → P after
  headerWritten : ∀ volume, P volume → P (volume.writeHeader sblock)

theorem Logging.log_loop (admits : sblock.Admits header) (consistent : Consistent header data)
    {P : Volume → Prop} (undisturbed : Undisturbed sblock header data P) :
    ∀ (rounds tail : Nat) (volume : Volume), tail + rounds = header.numBlocks →
      Logging sblock header data tail volume → P volume →
      ∃ after, writeLogLoop sblock rounds tail volume = .ok after ∧
        Logging sblock header data header.numBlocks after ∧ P after ∧
        after.writes = volume.writes ++ loggedWrites sblock data tail rounds ∧
        after.disk = applyWrites (loggedWrites sblock data tail rounds) volume.disk := by
  intro rounds
  induction rounds with
  | zero =>
      intro tail volume total logging holds
      rw [Nat.add_zero] at total
      subst total
      exact ⟨volume, rfl, logging, holds, (List.append_nil _).symm, rfl⟩
  | succ rounds ih =>
      intro tail volume total logging holds
      have within : tail < header.numBlocks := by omega
      have slot : tail < logMaxSize := (SuperBlock.tail_within (admits.index within)).2
      obtain ⟨middle, executed, next, moved⟩ := logging.log_round admits consistent within
      obtain ⟨after, looped, final, kept, moreWrites, moreDisk⟩ :=
        ih (tail + 1) middle (by omega) next
          (undisturbed.logged volume middle tail within holds moved)
      refine ⟨after, ?_, final, kept, ?_, ?_⟩
      · unfold writeLogLoop
        rw [dif_pos slot, logging.current, header.blockNo_eq_entry slot, executed]
        exact looped
      · rw [moreWrites, moved.writes, List.append_assoc]
        rfl
      · rw [moreDisk, moved.disk]
        rfl

theorem Logging.install_loop (admits : sblock.Admits header)
    (consistent : Consistent header data) {P : Volume → Prop}
    (undisturbed : Undisturbed sblock header data P) :
    ∀ (rounds tail : Nat) (volume : Volume), tail + rounds = header.numBlocks →
      Logging sblock header data header.numBlocks volume → P volume →
      ∃ after, installTransLoop sblock false rounds tail volume = .ok after ∧
        Logging sblock header data header.numBlocks after ∧ P after ∧
        after.writes = volume.writes ++ installedWrites header data tail rounds ∧
        after.disk = applyWrites (installedWrites header data tail rounds) volume.disk := by
  intro rounds
  induction rounds with
  | zero =>
      intro tail volume _ logging holds
      exact ⟨volume, rfl, logging, holds, (List.append_nil _).symm, rfl⟩
  | succ rounds ih =>
      intro tail volume total logging holds
      have within : tail < header.numBlocks := by omega
      have slot : tail < logMaxSize := (SuperBlock.tail_within (admits.index within)).2
      obtain ⟨middle, executed, next, moved⟩ := logging.install_round admits consistent within
      obtain ⟨after, looped, final, kept, moreWrites, moreDisk⟩ :=
        ih (tail + 1) middle (by omega) next
          (undisturbed.installed volume middle tail within holds moved)
      refine ⟨after, ?_, final, kept, ?_, ?_⟩
      · unfold installTransLoop
        rw [dif_pos slot, logging.current, header.blockNo_eq_entry slot, executed]
        exact looped
      · rw [moreWrites, moved.writes, List.append_assoc]
        rfl
      · rw [moreDisk, moved.disk]
        rfl

def commitWrites (sblock : SuperBlock) (header : LogHeader) (data : Nat → BlockData) :
    List (BlockNo × BlockData) :=
  loggedWrites sblock data 0 header.numBlocks ++ ([(sblock.headerBlock, header.toBlock)] ++
    (installedWrites header data 0 header.numBlocks ++
      [(sblock.headerBlock, { header with numBlocks := 0 : LogHeader }.toBlock)]))

theorem Logging.writeHeader {volume : Volume} (admits : sblock.Admits header)
    (logging : Logging sblock header data header.numBlocks volume) :
    Logging sblock header data header.numBlocks (volume.writeHeader sblock) :=
  { wellFormed := logging.wellFormed
    current := logging.current
    listed := fun index bound =>
      (logging.listed index bound).write (admits.entry_ne_headerBlock bound) _
    pinned := logging.pinned
    logged := fun index bound => (logging.logged index bound).write
      (sblock.logBlock_ne_headerBlock (admits.index bound)) _
    free := logging.free }

theorem commit_spec {volume : Volume} (admits : sblock.Admits header)
    (consistent : Consistent header data) (nonempty : 0 < header.numBlocks) {P : Volume → Prop}
    (undisturbed : Undisturbed sblock header data P)
    (logging : Logging sblock header data 0 volume) (holds : P volume) :
    ∃ installed, commit sblock volume = .ok (installed.clearHeader.writeHeader sblock) ∧
      Logging sblock header data header.numBlocks installed ∧ P installed ∧
      (installed.clearHeader.writeHeader sblock).writes =
        volume.writes ++ commitWrites sblock header data ∧
      (installed.clearHeader.writeHeader sblock).disk =
        applyWrites (commitWrites sblock header data) volume.disk := by
  obtain ⟨logged, logs, ready, still, logWrites, logDisk⟩ :=
    Logging.log_loop admits consistent undisturbed header.numBlocks 0 volume (Nat.zero_add _)
      logging holds
  obtain ⟨installed, installs, final, kept, homeWrites, homeDisk⟩ :=
    Logging.install_loop admits consistent undisturbed header.numBlocks 0
      (logged.writeHeader sblock) (Nat.zero_add _) (ready.writeHeader admits)
      (undisturbed.headerWritten logged still)
  have logs' : writeLog sblock volume = .ok logged := by
    unfold writeLog
    rw [logging.current]
    exact logs
  have installs' : installTrans sblock false (logged.writeHeader sblock) = .ok installed := by
    unfold installTrans
    rw [(ready.writeHeader admits).current]
    exact installs
  refine ⟨installed, ?_, final, kept, ?_, ?_⟩
  · unfold commit
    rw [logging.current, if_pos nonempty, logs']
    simp only [ok_bind]
    rw [installs']
    rfl
  · change installed.writes ++ [(sblock.headerBlock, installed.clearHeader.header.toBlock)] = _
    rw [homeWrites]
    change (logged.writes ++ [(sblock.headerBlock, logged.header.toBlock)] ++ _) ++ _ = _
    rw [logWrites, ready.current]
    unfold Volume.clearHeader
    rw [final.current]
    simp only [commitWrites, List.append_assoc]
  · change Function.update installed.disk sblock.headerBlock installed.clearHeader.header.toBlock = _
    rw [homeDisk]
    change Function.update (applyWrites _ (Function.update logged.disk sblock.headerBlock
      logged.header.toBlock)) _ _ = _
    rw [logDisk, ready.current]
    unfold Volume.clearHeader
    rw [final.current]
    simp only [commitWrites, applyWrites_append, applyWrites_singleton]

/-! ### Recovery -/

/-- While recovery runs: every cached block equals the device, and the log blocks that are
still to be installed are not cached. -/
structure Replaying (sblock : SuperBlock) (header : LogHeader) (data : Nat → BlockData)
    (tail : Nat) (volume : Volume) : Prop where
  wellFormed : volume.cache.WellFormed
  current : volume.header = header
  clean : ∀ blockNo, volume.Serves blockNo (volume.disk blockNo)
  pending : ∀ index, tail ≤ index → index < header.numBlocks →
    ¬volume.Cached (sblock.logBlock index)
  logged : ∀ index, index < header.numBlocks → volume.disk (sblock.logBlock index) = data index

theorem Replaying.round {volume : Volume} {tail : Nat} (admits : sblock.Admits header)
    (within : tail < header.numBlocks) (replaying : Replaying sblock header data tail volume) :
    ∃ after, volume.transfer (sblock.logBlock tail) (header.entry tail) true = .ok after ∧
      Replaying sblock header data (tail + 1) after ∧
      after.writes = volume.writes ++ [(header.entry tail, data tail)] ∧
      after.disk = Function.update volume.disk (header.entry tail) (data tail) := by
  have different : sblock.logBlock tail ≠ header.entry tail :=
    (admits.entry_ne_logBlock within within).symm
  obtain ⟨after, executed, moved⟩ := Volume.transfer_spec true replaying.wellFormed different
    (replaying.clean (sblock.logBlock tail)) (replaying.clean (header.entry tail)).free
    (Or.inr (Or.inl (replaying.pending tail (Nat.le_refl tail) within)))
  have clean := moved.clean replaying.clean
  rw [replaying.logged tail within] at moved
  refine ⟨after, executed, ?_, moved.writes, moved.disk⟩
  refine
    { wellFormed := moved.wellFormed
      current := moved.header.trans replaying.current
      clean := clean
      pending := ?_
      logged := ?_ }
  · intro index later bound
    apply moved.not_cached ?_ (admits.entry_ne_logBlock within bound).symm
      (replaying.pending index (by omega) bound)
    intro same
    have equal := sblock.logBlock_injective (admits.index bound) (admits.index within) same
    omega
  · intro index bound
    rw [moved.disk, Function.update_of_ne (admits.entry_ne_logBlock within bound).symm]
    exact replaying.logged index bound

theorem Replaying.loop (admits : sblock.Admits header) :
    ∀ (rounds tail : Nat) (volume : Volume), tail + rounds = header.numBlocks →
      Replaying sblock header data tail volume →
      ∃ after, installTransLoop sblock true rounds tail volume = .ok after ∧
        after.header = header ∧
        after.writes = volume.writes ++ installedWrites header data tail rounds ∧
        after.disk = applyWrites (installedWrites header data tail rounds) volume.disk := by
  intro rounds
  induction rounds with
  | zero =>
      intro tail volume _ replaying
      exact ⟨volume, rfl, replaying.current, (List.append_nil _).symm, rfl⟩
  | succ rounds ih =>
      intro tail volume total replaying
      have within : tail < header.numBlocks := by omega
      have slot : tail < logMaxSize := (SuperBlock.tail_within (admits.index within)).2
      obtain ⟨middle, executed, next, writes, disk⟩ := replaying.round admits within
      obtain ⟨after, looped, final, moreWrites, moreDisk⟩ :=
        ih (tail + 1) middle (by omega) next
      refine ⟨after, ?_, final, ?_, ?_⟩
      · unfold installTransLoop
        rw [dif_pos slot, replaying.current, header.blockNo_eq_entry slot, executed]
        exact looped
      · rw [moreWrites, writes, List.append_assoc]
        rfl
      · rw [moreDisk, disk]
        rfl

end Rounds

def diskHeader (sblock : SuperBlock) (disk : Disk) : LogHeader :=
  LogHeader.ofBlock (disk sblock.headerBlock)

def diskLog (sblock : SuperBlock) (disk : Disk) (tail : Nat) : BlockData :=
  disk (sblock.logBlock tail)

/-- The machine after a start: an empty cache, over any memory, and static variables zero. -/
def boot (heap : Addr → Block) (disk : Disk) : Volume :=
  { cache := .empty heap
    header := { numBlocks := 0, blockNo := fun _ => 0 }
    disk := disk
    writes := [] }

/-- The device writes of recovery, in order. -/
def recoverWrites (sblock : SuperBlock) (disk : Disk) : List (BlockNo × BlockData) :=
  installedWrites (diskHeader sblock disk) (diskLog sblock disk) 0
      (diskHeader sblock disk).numBlocks ++
    [(sblock.headerBlock, { diskHeader sblock disk with numBlocks := 0 : LogHeader }.toBlock)]

/-- Recovery returns, and its device writes are determined by the device. -/
theorem recoverFromLog_spec {sblock : SuperBlock} {disk : Disk}
    (admits : sblock.Admits (diskHeader sblock disk)) (heap : Addr → Block) :
    ∃ after, recoverFromLog sblock (boot heap disk) = .ok after ∧
      after.writes = recoverWrites sblock disk ∧
      after.disk = applyWrites (recoverWrites sblock disk) disk ∧
      after.header.numBlocks = 0 := by
  have start : Replaying sblock (diskHeader sblock disk) (diskLog sblock disk) 0
      ((boot heap disk).readHeader sblock) := by
    refine
      { wellFormed := ⟨List.nodup_nil, fun left member => absurd member List.not_mem_nil⟩
        current := rfl
        clean := fun blockNo =>
          ⟨fun addr member => absurd member List.not_mem_nil,
            fun addr member => absurd member List.not_mem_nil, Or.inr rfl⟩
        pending := ?_
        logged := fun index _ => rfl }
    rintro index _ _ ⟨addr, member, _⟩
    exact absurd member List.not_mem_nil
  obtain ⟨installed, looped, header, writes, disk'⟩ := Replaying.loop admits
    (diskHeader sblock disk).numBlocks 0 _ (Nat.zero_add _) start
  have installs : installTrans sblock true ((boot heap disk).readHeader sblock) =
      .ok installed := looped
  refine ⟨installed.clearHeader.writeHeader sblock, ?_, ?_, ?_, rfl⟩
  · unfold recoverFromLog
    rw [installs]
    rfl
  · change installed.writes ++ [(sblock.headerBlock, installed.clearHeader.header.toBlock)] = _
    have nothing : ((boot heap disk).readHeader sblock).writes = [] := rfl
    unfold Volume.clearHeader recoverWrites
    rw [writes, header, nothing, List.nil_append]
  · change Function.update installed.disk sblock.headerBlock installed.clearHeader.header.toBlock = _
    have unread : ((boot heap disk).readHeader sblock).disk = disk := rfl
    unfold Volume.clearHeader recoverWrites
    rw [disk', header, unread, applyWrites_append, applyWrites_singleton]

end LabKernel.Fs
