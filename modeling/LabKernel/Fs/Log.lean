/-
The log of `cache.c`, run by one caller: `install_trans`, `recover_from_log`,
`write_log` and `commit`, over the evicting cache and a device.

A call that sleeps on a lock nobody else will release blocks. Using a block that is
no longer in the list is a use after free. Every device write is recorded.
-/

import LabKernel.Fs.Cache
import LabKernel.Lib.Outcome
import LabKernel.Lib.Writes

set_option autoImplicit false

namespace LabKernel.Fs

open Common Writes Outcomes

/-- The static variables of `cache.c` that the log uses, the device, and the device
writes so far. -/
structure Volume where
  cache : BlockCache
  header : LogHeader
  disk : Disk
  writes : List (BlockNo × BlockData)

def freeChunk (nodes : List Addr) : Addr := nodes.foldr max 0 + 1

theorem freeChunk_not_mem (nodes : List Addr) : freeChunk nodes ∉ nodes := by
  have bounded : ∀ addr ∈ nodes, addr ≤ nodes.foldr max 0 := by
    induction nodes with
    | nil => intro addr member; cases member
    | cons first rest ih =>
        intro addr member
        rw [List.foldr_cons]
        rcases List.mem_cons.mp member with rfl | later
        · exact Nat.le_max_left _ _
        · exact Nat.le_trans (ih addr later) (Nat.le_max_right _ _)
  intro member
  have impossible := bounded _ member
  exact Nat.not_succ_le_self _ impossible

def Volume.setBlock (volume : Volume) (addr : Addr) (block : Block) : Volume :=
  { volume with cache :=
      { volume.cache with heap := Function.update volume.cache.heap addr block } }

def Volume.block (volume : Volume) (addr : Addr) : Block := volume.cache.heap addr

def Volume.cacheAcquire (volume : Volume) (blockNo : BlockNo) : Except Stop (Addr × Volume) :=
  let fetched := volume.cache.acquireSection (freeChunk volume.cache.evict) blockNo volume.disk
  let block := fetched.2.heap fetched.1
  match waitSem 0 block.lock with
  | (true, lock) =>
      .ok (fetched.1,
        Volume.setBlock { volume with cache := fetched.2 } fetched.1 { block with lock := lock })
  | (false, _) => .error .blocks

def Volume.cacheRelease (volume : Volume) (addr : Addr) : Except Stop Volume :=
  if addr ∈ volume.cache.order then
    match postSem (volume.block addr).lock with
    | none => .error .assertion
    | some (_, lock) =>
        .ok (volume.setBlock addr { volume.block addr with acquired := false, lock := lock })
  else .error .useAfterFree

/-- `memmove(dst->data, src->data, BLOCK_SIZE)` between two blocks. -/
def Volume.memmove (volume : Volume) (dst src : Addr) : Except Stop Volume :=
  if dst ∈ volume.cache.order ∧ src ∈ volume.cache.order then
    .ok (volume.setBlock dst { volume.block dst with data := (volume.block src).data })
  else .error .useAfterFree

/-- `device->write`. -/
def Volume.write (volume : Volume) (blockNo : BlockNo) (data : BlockData) : Volume :=
  { volume with
    disk := Function.update volume.disk blockNo data
    writes := volume.writes ++ [(blockNo, data)] }

def Volume.deviceWrite (volume : Volume) (addr : Addr) : Except Stop Volume :=
  if addr ∈ volume.cache.order then
    .ok (volume.write (volume.block addr).blockNo (volume.block addr).data)
  else .error .useAfterFree

def Volume.readHeader (sblock : SuperBlock) (volume : Volume) : Volume :=
  { volume with header := LogHeader.ofBlock (volume.disk sblock.headerBlock) }

def Volume.writeHeader (sblock : SuperBlock) (volume : Volume) : Volume :=
  volume.write sblock.headerBlock volume.header.toBlock

/-- `header.num_blocks = 0`. -/
def Volume.clearHeader (volume : Volume) : Volume :=
  { volume with header := { volume.header with numBlocks := 0 } }

/-- The second half of the body shared by the loops of `write_log` and `install_trans`:
copy, write the target to the device, drop its pin if asked to, and release both. -/
def Volume.moveData (volume : Volume) (src dst : Addr) (unpin : Bool) : Except Stop Volume := do
  let volume ← volume.memmove dst src
  let volume ← volume.deviceWrite dst
  let volume :=
    if unpin then volume.setBlock dst { volume.block dst with pinned := false } else volume
  let volume ← volume.cacheRelease src
  volume.cacheRelease dst

/-- The body shared by the loops of `write_log` and `install_trans`: acquire the source,
acquire the target, then move the data. -/
def Volume.transfer (volume : Volume) (source target : BlockNo) (unpin : Bool) :
    Except Stop Volume := do
  let (src, volume) ← volume.cacheAcquire source
  let (dst, volume) ← volume.cacheAcquire target
  volume.moveData src dst unpin

/-- The loop of `install_trans` from `tail` on, for the given number of rounds. -/
def installTransLoop (sblock : SuperBlock) (recovering : Bool) :
    Nat → Nat → Volume → Except Stop Volume
  | 0, _, volume => .ok volume
  | rounds + 1, tail, volume =>
      if within : tail < logMaxSize then do
        let after ← volume.transfer (sblock.logBlock tail)
          (volume.header.blockNo ⟨tail, within⟩) recovering
        installTransLoop sblock recovering rounds (tail + 1) after
      else .error .outOfBounds

def installTrans (sblock : SuperBlock) (recovering : Bool) (volume : Volume) :
    Except Stop Volume :=
  installTransLoop sblock recovering volume.header.numBlocks 0 volume

def recoverFromLog (sblock : SuperBlock) (volume : Volume) : Except Stop Volume := do
  let installed ← installTrans sblock true (volume.readHeader sblock)
  return installed.clearHeader.writeHeader sblock

def writeLogLoop (sblock : SuperBlock) : Nat → Nat → Volume → Except Stop Volume
  | 0, _, volume => .ok volume
  | rounds + 1, tail, volume =>
      if within : tail < logMaxSize then do
        let after ← volume.transfer (volume.header.blockNo ⟨tail, within⟩)
          (sblock.logBlock tail) false
        writeLogLoop sblock rounds (tail + 1) after
      else .error .outOfBounds

def writeLog (sblock : SuperBlock) (volume : Volume) : Except Stop Volume :=
  writeLogLoop sblock volume.header.numBlocks 0 volume

def commit (sblock : SuperBlock) (volume : Volume) : Except Stop Volume :=
  if 0 < volume.header.numBlocks then do
    let logged ← writeLog sblock volume
    let installed ← installTrans sblock false (logged.writeHeader sblock)
    return installed.clearHeader.writeHeader sblock
  else .ok volume

/-! ### What one caller sees of a block -/

/-- A sleep lock that nobody holds and nobody waits for. -/
def freeLock : Semaphore := initSem 1

/-- A sleep lock held by one caller, with nobody waiting. -/
def heldLock : Semaphore := { val := 0, sleeplist := [] }

theorem postSem_heldLock : postSem heldLock = some (none, freeLock) := rfl

/-- Nobody holds the block, if it is cached at all. -/
def Volume.Free (volume : Volume) (blockNo : BlockNo) : Prop :=
  ∀ addr ∈ volume.cache.order, (volume.block addr).blockNo = blockNo →
    (volume.block addr).lock = freeLock

def Volume.Cached (volume : Volume) (blockNo : BlockNo) : Prop :=
  ∃ addr ∈ volume.cache.order, (volume.block addr).blockNo = blockNo

def Volume.Pinned (volume : Volume) (blockNo : BlockNo) : Prop :=
  ∃ addr ∈ volume.cache.order,
    (volume.block addr).blockNo = blockNo ∧ (volume.block addr).pinned = true

/-- An acquire of the block will return `data`, whatever is evicted before: the cached
copy holds it, and it is on the device as well unless the copy is pinned. -/
structure Volume.Serves (volume : Volume) (blockNo : BlockNo) (data : BlockData) : Prop where
  free : volume.Free blockNo
  cached : ∀ addr ∈ volume.cache.order, (volume.block addr).blockNo = blockNo →
    (volume.block addr).data = data
  stored : volume.Pinned blockNo ∨ volume.disk blockNo = data

theorem Volume.Pinned.cached {volume : Volume} {blockNo : BlockNo}
    (pinned : volume.Pinned blockNo) : volume.Cached blockNo := by
  obtain ⟨addr, member, number, _⟩ := pinned
  exact ⟨addr, member, number⟩

/-- The effect of an acquire: the returned block is locked, all other cached blocks are
as before, and only those that a miss does not spare can be gone. -/
structure Volume.Acquired (before : Volume) (blockNo : BlockNo) (addr : Addr)
    (after : Volume) : Prop where
  wellFormed : after.cache.WellFormed
  header : after.header = before.header
  disk : after.disk = before.disk
  writes : after.writes = before.writes
  member : addr ∈ after.cache.order
  number : (after.block addr).blockNo = blockNo
  locked : (after.block addr).lock = heldLock
  others : ∀ other ∈ after.cache.order, other ≠ addr →
    other ∈ before.cache.order ∧ after.block other = before.block other
  front : after.cache.order.head? = some addr
  kept : ∀ other ∈ before.cache.order, before.cache.Spares other →
    other ∈ after.cache.order ∧ (after.block other).blockNo = (before.block other).blockNo
  outcome :
    (addr ∈ before.cache.order ∧ after.block addr = { before.block addr with lock := heldLock } ∧
      ∀ other, other ∈ after.cache.order ↔ other ∈ before.cache.order) ∨
    (¬before.Cached blockNo ∧ (after.block addr).data = before.disk blockNo ∧
      (after.block addr).acquired = true ∧ (after.block addr).pinned = false)

theorem Volume.not_cached_of_find {volume : Volume} {blockNo : BlockNo}
    (missing : volume.cache.find blockNo = none) : ¬volume.Cached blockNo := by
  rintro ⟨addr, member, number⟩
  exact BlockCache.find_none missing member number

@[simp] theorem Volume.write_block (volume : Volume) (blockNo : BlockNo) (data : BlockData)
    (addr : Addr) : (volume.write blockNo data).block addr = volume.block addr := rfl

@[simp] theorem Volume.setBlock_order (volume : Volume) (addr : Addr) (block : Block) :
    (volume.setBlock addr block).cache.order = volume.cache.order := rfl

theorem Volume.setBlock_block (volume : Volume) (addr other : Addr) (block : Block) :
    (volume.setBlock addr block).block other =
      if other = addr then block else volume.block other := by
  unfold setBlock Volume.block
  exact Function.update_apply _ _ _ _

theorem Volume.setBlock_wellFormed {volume : Volume} (wellFormed : volume.cache.WellFormed)
    {addr : Addr} {block : Block} (number : block.blockNo = (volume.block addr).blockNo) :
    (volume.setBlock addr block).cache.WellFormed := by
  have numbers (other : Addr) : ((volume.setBlock addr block).block other).blockNo =
      (volume.block other).blockNo := by
    rw [setBlock_block]
    by_cases same : other = addr
    · rw [if_pos same, number, same]
    · rw [if_neg same]
  constructor
  · exact wellFormed.nodup
  · intro left leftMember right rightMember same
    have renumbered : (volume.block left).blockNo = (volume.block right).blockNo := by
      rw [← numbers left, ← numbers right]
      exact same
    exact wellFormed.unique left leftMember right rightMember renumbered

theorem Volume.cacheAcquire_spec {volume : Volume} {blockNo : BlockNo}
    (wellFormed : volume.cache.WellFormed) (free : volume.Free blockNo) :
    ∃ addr after, volume.cacheAcquire blockNo = .ok (addr, after) ∧
      volume.Acquired blockNo addr after := by
  have fetched := wellFormed.fetched blockNo volume.disk (freeChunk_not_mem volume.cache.evict)
  cases reached : volume.cache.acquireSection (freeChunk volume.cache.evict) blockNo volume.disk with
  | mk addr cache =>
      rw [reached] at fetched
      have unlocked : (cache.heap addr).lock = freeLock := by
        rcases fetched.outcome with ⟨member, same, _⟩ | ⟨_, loaded⟩
        · rw [same]
          exact free addr member (by rw [Volume.block, ← same]; exact fetched.number)
        · rw [loaded]
          rfl
      have returned : volume.cacheAcquire blockNo = .ok (addr,
          Volume.setBlock { volume with cache := cache } addr
            { cache.heap addr with lock := heldLock }) := by
        unfold cacheAcquire
        simp only [reached, unlocked]
        rfl
      have locked := Volume.setBlock_block { volume with cache := cache } addr addr
        { cache.heap addr with lock := heldLock }
      rw [if_pos rfl] at locked
      have untouched (other : Addr) (different : other ≠ addr) :=
        (Volume.setBlock_block { volume with cache := cache } addr other
          { cache.heap addr with lock := heldLock }).trans (if_neg different)
      refine ⟨addr, _, returned,
        { wellFormed := setBlock_wellFormed fetched.wellFormed rfl
          header := rfl
          disk := rfl
          writes := rfl
          member := fetched.member
          number := by rw [locked]; exact fetched.number
          locked := by rw [locked]
          others := ?_
          front := fetched.front
          kept := ?_
          outcome := ?_ }⟩
      · intro other present different
        rw [untouched other different]
        exact fetched.others other present different
      · intro other present stays
        obtain ⟨left, same⟩ := fetched.kept other present stays
        constructor
        · exact left
        · by_cases taken : other = addr
          · subst taken
            rw [locked]
            change (cache.heap other).blockNo = (volume.cache.heap other).blockNo
            exact congrArg Block.blockNo same
          · rw [untouched other taken]
            exact congrArg Block.blockNo same
      · rcases fetched.outcome with ⟨member, same, nodes⟩ | ⟨missing, loaded⟩
        · refine Or.inl ⟨member, ?_, nodes⟩
          rw [locked, same]
          rfl
        · refine Or.inr ⟨not_cached_of_find missing, ?_, ?_, ?_⟩ <;> rw [locked, loaded] <;> rfl

theorem Volume.Acquired.data {before after : Volume} {blockNo : BlockNo} {addr : Addr}
    (acquired : before.Acquired blockNo addr after) {data : BlockData}
    (serves : before.Serves blockNo data) : (after.block addr).data = data := by
  rcases acquired.outcome with ⟨member, same, _⟩ | ⟨missing, loaded, _, _⟩
  · have number := acquired.number
    rw [same] at number
    rw [same]
    exact serves.cached addr member number
  · rcases serves.stored with pinned | stored
    · exact absurd pinned.cached missing
    · rw [loaded, stored]

theorem Volume.Acquired.free {before after : Volume} {blockNo other : BlockNo} {addr : Addr}
    (acquired : before.Acquired blockNo addr after) (different : other ≠ blockNo)
    (free : before.Free other) : after.Free other := by
  intro node member number
  have distinct : node ≠ addr := by
    intro same
    subst same
    exact different (number.symm.trans acquired.number)
  obtain ⟨older, same⟩ := acquired.others node member distinct
  rw [same] at number ⊢
  exact free node older number

theorem Volume.Acquired.pinned_self {before after : Volume} {blockNo : BlockNo} {addr : Addr}
    (acquired : before.Acquired blockNo addr after) (wellFormed : before.cache.WellFormed)
    (pinned : before.Pinned blockNo) : (after.block addr).pinned = true := by
  rcases acquired.outcome with ⟨member, same, _⟩ | ⟨missing, _⟩
  · obtain ⟨node, nodeMember, number, pin⟩ := pinned
    have atAddr := acquired.number
    rw [same] at atAddr
    rw [same, wellFormed.unique addr member node nodeMember (atAddr.trans number.symm)]
    exact pin
  · exact absurd pinned.cached missing

theorem Volume.Acquired.pinned_other {before after : Volume} {blockNo other : BlockNo}
    {addr : Addr} (acquired : before.Acquired blockNo addr after) (different : other ≠ blockNo)
    (pinned : before.Pinned other) : after.Pinned other := by
  obtain ⟨node, member, number, pin⟩ := pinned
  have stays : (before.block node).evictable = false := by
    simp only [Block.evictable, pin, Bool.not_true, Bool.false_and]
  obtain ⟨left, sameNumber⟩ := acquired.kept node member (Or.inl stays)
  have distinct : node ≠ addr := by
    intro same
    subst same
    exact different (number.symm.trans (sameNumber.symm.trans acquired.number))
  have same := (acquired.others node left distinct).2
  exact ⟨node, left, by rw [same]; exact number, by rw [same]; exact pin⟩

/-- What protects the source of a transfer while its target is acquired: its pin, the
flag a miss sets, a hit on the target, or that every other block can go first. -/
def Volume.Protected (volume : Volume) (source target : BlockNo) : Prop :=
  volume.Pinned source ∨ ¬volume.Cached source ∨ volume.Pinned target ∨
    ∀ addr ∈ volume.cache.order, (volume.block addr).evictable = true

theorem Volume.acquire_pair {volume : Volume} {source target : BlockNo}
    (wellFormed : volume.cache.WellFormed) (different : source ≠ target)
    (sourceFree : volume.Free source) (targetFree : volume.Free target)
    (covered : volume.Protected source target) :
    ∃ src dst first after, volume.cacheAcquire source = .ok (src, first) ∧
      first.cacheAcquire target = .ok (dst, after) ∧
      volume.Acquired source src first ∧ first.Acquired target dst after ∧
      src ∈ after.cache.order ∧ src ≠ dst := by
  obtain ⟨src, first, acquireSrc, acquired⟩ := cacheAcquire_spec wellFormed sourceFree
  obtain ⟨dst, after, acquireDst, second⟩ :=
    cacheAcquire_spec acquired.wellFormed (acquired.free different.symm targetFree)
  have stays : src ∈ after.cache.order ∧
      (after.block src).blockNo = (first.block src).blockNo := by
    have hit (targetPinned : first.Cached target) : src ∈ after.cache.order ∧
        (after.block src).blockNo = (first.block src).blockNo := by
      rcases second.outcome with ⟨_, same, nodes⟩ | ⟨missing, _⟩
      · constructor
        · exact (nodes src).mpr acquired.member
        · by_cases taken : src = dst
          · rw [taken, same]
          · rw [(second.others src ((nodes src).mpr acquired.member) taken).2]
      · exact absurd targetPinned missing
    rcases covered with sourcePinned | uncached | targetPinned | evictable
    · apply second.kept src acquired.member
      left
      change (first.block src).evictable = false
      simp only [Block.evictable, acquired.pinned_self wellFormed sourcePinned, Bool.not_true,
        Bool.false_and]
    · rcases acquired.outcome with ⟨member, same, _⟩ | ⟨_, _, flagged, _⟩
      · have number := acquired.number
        rw [same] at number
        exact absurd ⟨src, member, number⟩ uncached
      · apply second.kept src acquired.member
        left
        change (first.block src).evictable = false
        simp only [Block.evictable, flagged, Bool.not_true, Bool.and_false]
    · exact hit (acquired.pinned_other different.symm targetPinned).cached
    · apply second.kept src acquired.member
      apply BlockCache.spares_front acquired.wellFormed.nodup acquired.front
      intro other present elsewhere
      obtain ⟨older, same⟩ := acquired.others other present elsewhere
      change (first.block other).evictable = true
      rw [same]
      exact evictable other older
  refine ⟨src, dst, first, after, acquireSrc, acquireDst, acquired, second, stays.1, ?_⟩
  intro same
  subst same
  exact different (acquired.number.symm.trans (stays.2.symm.trans second.number))

/-- The effect of one round of `write_log` or `install_trans`: the target holds the data
in the cache and on the device, both blocks are released, and no other block changed. -/
structure Volume.Transferred (before : Volume) (source target : BlockNo) (data : BlockData)
    (unpin : Bool) (after : Volume) : Prop where
  wellFormed : after.cache.WellFormed
  header : after.header = before.header
  disk : after.disk = Function.update before.disk target data
  writes : after.writes = before.writes ++ [(target, data)]
  nodes : ∀ addr ∈ after.cache.order,
    (((after.block addr).blockNo = source ∨ (after.block addr).blockNo = target) ∧
      (after.block addr).data = data ∧ (after.block addr).lock = freeLock) ∨
    ((after.block addr).blockNo ≠ source ∧ (after.block addr).blockNo ≠ target ∧
      addr ∈ before.cache.order ∧ after.block addr = before.block addr)
  pinned : ∀ other, before.Pinned other → (other = target → unpin = false) → after.Pinned other

theorem Volume.cacheRelease_held {volume : Volume} {addr : Addr}
    (member : addr ∈ volume.cache.order) (held : (volume.block addr).lock = heldLock) :
    volume.cacheRelease addr = .ok
      (volume.setBlock addr { volume.block addr with acquired := false, lock := freeLock }) := by
  unfold cacheRelease
  rw [if_pos member, held, postSem_heldLock]

theorem Volume.memmove_cached {volume : Volume} {dst src : Addr}
    (dstMember : dst ∈ volume.cache.order) (srcMember : src ∈ volume.cache.order) :
    volume.memmove dst src =
      .ok (volume.setBlock dst { volume.block dst with data := (volume.block src).data }) := by
  unfold memmove
  rw [if_pos ⟨dstMember, srcMember⟩]

theorem Volume.deviceWrite_cached {volume : Volume} {addr : Addr}
    (member : addr ∈ volume.cache.order) :
    volume.deviceWrite addr =
      .ok (volume.write (volume.block addr).blockNo (volume.block addr).data) := by
  unfold deviceWrite
  rw [if_pos member]

/-- The blocks in memory after the second half of a round. -/
theorem Volume.moveData_spec {volume : Volume} {src dst : Addr} (unpin : Bool)
    (srcMember : src ∈ volume.cache.order) (dstMember : dst ∈ volume.cache.order)
    (distinct : src ≠ dst) (srcHeld : (volume.block src).lock = heldLock)
    (dstHeld : (volume.block dst).lock = heldLock) :
    ∃ after, volume.moveData src dst unpin = .ok after ∧
      after.cache.order = volume.cache.order ∧ after.header = volume.header ∧
      after.disk = Function.update volume.disk (volume.block dst).blockNo (volume.block src).data ∧
      after.writes = volume.writes ++ [((volume.block dst).blockNo, (volume.block src).data)] ∧
      ∀ other, after.block other =
        if other = dst then
          { volume.block dst with
            data := (volume.block src).data, acquired := false, lock := freeLock
            pinned := !unpin && (volume.block dst).pinned }
        else if other = src then { volume.block src with acquired := false, lock := freeLock }
        else volume.block other := by
  have unpinned (written : Volume) :
      (if unpin then written.setBlock dst { written.block dst with pinned := false }
        else written) =
      written.setBlock dst
        { written.block dst with pinned := !unpin && (written.block dst).pinned } := by
    cases unpin with
    | true => rfl
    | false =>
        change written = written.setBlock dst (written.block dst)
        unfold setBlock Volume.block
        rw [Function.update_eq_self]
  unfold moveData
  rw [memmove_cached dstMember srcMember]
  simp only [ok_bind]
  rw [deviceWrite_cached (by exact dstMember)]
  simp only [ok_bind, unpinned]
  rw [cacheRelease_held (by exact srcMember) (by
    rw [setBlock_block, if_neg distinct, write_block, setBlock_block, if_neg distinct]
    exact srcHeld)]
  simp only [ok_bind]
  rw [cacheRelease_held (by exact dstMember) (by
    rw [setBlock_block, if_neg distinct.symm, setBlock_block, if_pos rfl, write_block,
      setBlock_block, if_pos rfl]
    exact dstHeld)]
  refine ⟨_, rfl, rfl, rfl, ?_, ?_, ?_⟩
  · simp only [setBlock_block, if_true]
    rfl
  · simp only [setBlock_block, if_true]
    rfl
  · intro other
    simp only [setBlock_block, write_block, if_true, if_neg distinct, if_neg distinct.symm]
    split <;> rfl

/-- One round of `write_log` or `install_trans` returns. -/
theorem Volume.transfer_spec {volume : Volume} {source target : BlockNo} {data : BlockData}
    (unpin : Bool) (wellFormed : volume.cache.WellFormed) (different : source ≠ target)
    (serves : volume.Serves source data) (targetFree : volume.Free target)
    (covered : volume.Protected source target) :
    ∃ after, volume.transfer source target unpin = .ok after ∧
      volume.Transferred source target data unpin after := by
  obtain ⟨src, dst, first, second, acquireSrc, acquireDst, gotSrc, gotDst, kept, distinct⟩ :=
    acquire_pair wellFormed different serves.free targetFree covered
  have srcSame := (gotDst.others src kept distinct).2
  obtain ⟨after, moved, order, header, disk, writes, blocks⟩ :=
    moveData_spec unpin kept gotDst.member distinct (srcSame ▸ gotSrc.locked) gotDst.locked
  have srcData : (second.block src).data = data := srcSame ▸ gotSrc.data serves
  have srcNumber : (second.block src).blockNo = source := srcSame ▸ gotSrc.number
  have executed : volume.transfer source target unpin = .ok after := by
    unfold transfer
    rw [acquireSrc]
    simp only [ok_bind]
    rw [acquireDst]
    exact moved
  have numbers (other : Addr) : (after.block other).blockNo = (second.block other).blockNo := by
    rw [blocks]
    split
    · rename_i same
      rw [same]
    · split
      · rename_i same
        rw [same]
      · rfl
  refine ⟨after, executed,
    { wellFormed := ⟨order ▸ gotDst.wellFormed.nodup, ?_⟩
      header := header.trans (gotDst.header.trans gotSrc.header)
      disk := by rw [disk, gotDst.number, srcData, gotDst.disk, gotSrc.disk]
      writes := by rw [writes, gotDst.number, srcData, gotDst.writes, gotSrc.writes]
      nodes := ?_
      pinned := ?_ }⟩
  · intro left leftMember right rightMember same
    rw [order] at leftMember rightMember
    apply gotDst.wellFormed.unique left leftMember right rightMember
    exact (numbers left).symm.trans (same.trans (numbers right))
  · intro addr member
    rw [order] at member
    by_cases isDst : addr = dst
    · refine Or.inl ⟨Or.inr (by rw [numbers, isDst]; exact gotDst.number), ?_⟩
      rw [blocks, if_pos isDst]
      exact ⟨srcData, rfl⟩
    · by_cases isSrc : addr = src
      · refine Or.inl ⟨Or.inl (by rw [numbers, isSrc]; exact srcNumber), ?_⟩
        rw [blocks, if_neg isDst, if_pos isSrc]
        exact ⟨srcData, rfl⟩
      · obtain ⟨middle, same⟩ := gotDst.others addr member isDst
        obtain ⟨oldest, before⟩ := gotSrc.others addr middle isSrc
        refine Or.inr ⟨?_, ?_, oldest, ?_⟩
        · rw [numbers]
          intro equal
          exact isSrc (gotDst.wellFormed.unique addr member src kept (equal.trans srcNumber.symm))
        · rw [numbers]
          intro equal
          exact isDst (gotDst.wellFormed.unique addr member dst gotDst.member
            (equal.trans gotDst.number.symm))
        · rw [blocks, if_neg isDst, if_neg isSrc, same, before]
  · intro other pinned allowed
    have firstPinned : first.Pinned other := by
      by_cases atSource : other = source
      · subst atSource
        exact ⟨src, gotSrc.member, gotSrc.number, gotSrc.pinned_self wellFormed pinned⟩
      · exact gotSrc.pinned_other atSource pinned
    have secondPinned : second.Pinned other := by
      by_cases atTarget : other = target
      · subst atTarget
        exact ⟨dst, gotDst.member, gotDst.number, gotDst.pinned_self gotSrc.wellFormed firstPinned⟩
      · exact gotDst.pinned_other atTarget firstPinned
    obtain ⟨node, member, number, pin⟩ := secondPinned
    refine ⟨node, order ▸ member, (numbers node).trans number, ?_⟩
    rw [blocks]
    split
    · rename_i isDst
      subst isDst
      rw [allowed (number.symm.trans gotDst.number), pin]
      rfl
    · split
      · rename_i isSrc
        subst isSrc
        exact pin
      · exact pin

variable {before after : Volume} {source target other : BlockNo} {data : BlockData} {unpin : Bool}

theorem Volume.Transferred.free (moved : before.Transferred source target data unpin after)
    (free : before.Free other) : after.Free other := by
  intro addr member number
  rcases moved.nodes addr member with ⟨_, _, unlocked⟩ | ⟨_, _, older, same⟩
  · exact unlocked
  · rw [same] at number ⊢
    exact free addr older number

theorem Volume.Transferred.serves_target
    (moved : before.Transferred source target data unpin after) : after.Serves target data := by
  refine ⟨?_, ?_, Or.inr (by rw [moved.disk, Function.update_self])⟩
  · intro addr member number
    rcases moved.nodes addr member with ⟨_, _, unlocked⟩ | ⟨_, elsewhere, _⟩
    · exact unlocked
    · exact absurd number elsewhere
  · intro addr member number
    rcases moved.nodes addr member with ⟨_, same, _⟩ | ⟨_, elsewhere, _⟩
    · exact same
    · exact absurd number elsewhere

theorem Volume.Transferred.serves_other
    (moved : before.Transferred source target data unpin after) (notTarget : other ≠ target)
    {content : BlockData} (sourceContent : other = source → content = data)
    (serves : before.Serves other content) : after.Serves other content := by
  refine ⟨moved.free serves.free, ?_, ?_⟩
  · intro addr member number
    rcases moved.nodes addr member with ⟨involved, same, _⟩ | ⟨_, _, older, same⟩
    · rcases involved with atSource | atTarget
      · rw [same, sourceContent (number.symm.trans atSource)]
      · exact absurd (number.symm.trans atTarget) notTarget
    · rw [same] at number ⊢
      exact serves.cached addr older number
  · rcases serves.stored with pinned | stored
    · exact Or.inl (moved.pinned other pinned (fun same => absurd same notTarget))
    · apply Or.inr
      rw [moved.disk, Function.update_of_ne notTarget]
      exact stored

/-- A round between blocks that are as on the device leaves every block as on the device. -/
theorem Volume.Transferred.clean
    (moved : before.Transferred source target (before.disk source) unpin after)
    (clean : ∀ blockNo, before.Serves blockNo (before.disk blockNo)) (blockNo : BlockNo) :
    after.Serves blockNo (after.disk blockNo) := by
  by_cases isTarget : blockNo = target
  · rw [isTarget, moved.disk, Function.update_self]
    exact moved.serves_target
  · have unchanged : after.disk blockNo = before.disk blockNo := by
      rw [moved.disk, Function.update_of_ne isTarget]
    rw [unchanged]
    apply moved.serves_other isTarget ?_ (clean blockNo)
    intro atSource
    rw [atSource]

theorem Volume.Transferred.not_cached
    (moved : before.Transferred source target data unpin after) (notSource : other ≠ source)
    (notTarget : other ≠ target) (uncached : ¬before.Cached other) : ¬after.Cached other := by
  rintro ⟨addr, member, number⟩
  rcases moved.nodes addr member with ⟨involved, _⟩ | ⟨_, _, older, same⟩
  · rcases involved with atSource | atTarget
    · exact notSource (number.symm.trans atSource)
    · exact notTarget (number.symm.trans atTarget)
  · rw [same] at number
    exact uncached ⟨addr, older, number⟩

end LabKernel.Fs
