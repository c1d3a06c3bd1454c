/-
Pins and the log.

A sync pins the block whose number it adds to the header, and nothing but a pin or the
flag of a caller keeps a block in the cache. As long as no commit finds a number in
the header, the pinned blocks are the listed ones. A commit that finds one
clears the header and leaves the pin.
-/

import LabKernel.Fs.Calls

set_option autoImplicit false

namespace LabKernel.Fs

open Common Transition Outcomes

/-! ### Marks on a volume -/

/-- Of the cached blocks, those with a marked number are pinned, and only held ones carry
the acquired flag. Marked numbers are cached. -/
structure Volume.Marked (marks : BlockNo → Prop) (held : List Addr) (volume : Volume) : Prop where
  wellFormed : volume.cache.WellFormed
  pins : ∀ addr ∈ volume.cache.order,
    (volume.block addr).pinned = true ↔ marks (volume.block addr).blockNo
  cached : ∀ blockNo, marks blockNo → volume.Cached blockNo
  flagged : ∀ addr ∈ volume.cache.order, (volume.block addr).acquired = true → addr ∈ held

theorem Volume.cacheAcquire_ok {volume after : Volume} {blockNo : BlockNo} {addr : Addr}
    (wellFormed : volume.cache.WellFormed)
    (returned : volume.cacheAcquire blockNo = .ok (addr, after)) :
    ∃ cache lock, volume.cache.Fetched blockNo volume.disk addr cache ∧
      after = Volume.setBlock { volume with cache := cache } addr
        { cache.heap addr with lock := lock } := by
  have fetched := wellFormed.fetched blockNo volume.disk (freeChunk_not_mem volume.cache.evict)
  unfold cacheAcquire at returned
  simp only at returned
  split at returned
  · rename_i lock _
    cases returned
    exact ⟨_, lock, fetched, rfl⟩
  · cases returned

theorem Volume.cacheRelease_ok {volume after : Volume} {addr : Addr}
    (returned : volume.cacheRelease addr = .ok after) :
    ∃ lock, after = volume.setBlock addr
      { volume.block addr with acquired := false, lock := lock } := by
  unfold cacheRelease at returned
  split at returned
  · split at returned
    · cases returned
    · rename_i lock _
      cases returned
      exact ⟨lock, rfl⟩
  · cases returned

theorem Volume.Acquired.again {before after : Volume} {blockNo : BlockNo} {addr : Addr}
    (got : before.Acquired blockNo addr after) :
    after.cacheAcquire blockNo = .error .blocks := by
  have found := got.wellFormed.find_eq got.member
  have number : (after.cache.heap addr).blockNo = blockNo := got.number
  have locked : (after.cache.heap addr).lock = heldLock := got.locked
  rw [number] at found
  unfold Volume.cacheAcquire BlockCache.acquireSection
  rw [found]
  simp only [locked]
  rfl

namespace Volume.Marked

variable {marks : BlockNo → Prop} {held : List Addr} {volume after : Volume} {addr : Addr}

theorem setBlock (marked : volume.Marked marks held) {block : Block} {rest : List Addr}
    (number : block.blockNo = (volume.block addr).blockNo)
    (pin : addr ∈ volume.cache.order → (block.pinned = true ↔ marks block.blockNo))
    (flag : block.acquired = true → addr ∈ rest)
    (others : ∀ other, other ≠ addr → other ∈ held → other ∈ rest) :
    (volume.setBlock addr block).Marked marks rest := by
  have blocks := fun other => volume.setBlock_block addr other block
  have numbers : ∀ other, ((volume.setBlock addr block).block other).blockNo =
      (volume.block other).blockNo := by
    intro other
    rw [blocks]
    split
    · rename_i same
      rw [same, number]
    · rfl
  constructor
  · exact setBlock_wellFormed marked.wellFormed number
  · intro other member
    rw [blocks]
    split
    · rename_i same
      exact pin (same ▸ member)
    · exact marked.pins other member
  · intro blockNo mark
    obtain ⟨other, member, same⟩ := marked.cached blockNo mark
    exact ⟨other, member, (numbers other).trans same⟩
  · intro other member
    rw [blocks]
    split
    · rename_i same
      rw [same]
      exact flag
    · rename_i different
      intro set
      exact others other different (marked.flagged other member set)

theorem of_cache (marked : volume.Marked marks held) (same : after.cache = volume.cache) :
    after.Marked marks held := by
  have blocks : after.block = volume.block := by
    unfold Volume.block
    rw [same]
  constructor
  · rw [same]
    exact marked.wellFormed
  · rw [same, blocks]
    exact marked.pins
  · unfold Volume.Cached
    rw [same, blocks]
    exact marked.cached
  · rw [same, blocks]
    exact marked.flagged

theorem fetched (marked : volume.Marked marks held) {blockNo : BlockNo} {cache : BlockCache}
    (fetched : volume.cache.Fetched blockNo volume.disk addr cache) :
    Volume.Marked marks (addr :: held) { volume with cache := cache } := by
  have missed : volume.cache.find blockNo = none → ¬marks blockNo := by
    intro missing mark
    exact Volume.not_cached_of_find missing (marked.cached blockNo mark)
  constructor
  · exact fetched.wellFormed
  · intro other member
    change (cache.heap other).pinned = true ↔ marks (cache.heap other).blockNo
    by_cases same : other = addr
    · rcases fetched.outcome with ⟨older, heap, _⟩ | ⟨missing, loaded⟩
      · rw [same, heap]
        exact marked.pins addr older
      · rw [same, loaded]
        exact iff_of_false Bool.false_ne_true (missed missing)
    · obtain ⟨older, heap⟩ := fetched.others other member same
      rw [heap]
      exact marked.pins other older
  · intro other mark
    obtain ⟨node, member, number⟩ := marked.cached other mark
    have pinned := (marked.pins node member).mpr (number ▸ mark)
    have stays : (volume.cache.heap node).evictable = false := by
      change (!(volume.block node).pinned && _) = false
      rw [pinned]
      rfl
    obtain ⟨left, same⟩ := fetched.kept node member (Or.inl stays)
    refine ⟨node, left, ?_⟩
    change (cache.heap node).blockNo = other
    rw [same]
    exact number
  · intro other member set
    by_cases same : other = addr
    · exact List.mem_cons.mpr (Or.inl same)
    · obtain ⟨older, heap⟩ := fetched.others other member same
      change (cache.heap other).acquired = true at set
      rw [heap] at set
      exact List.mem_cons_of_mem addr (marked.flagged other older set)

theorem acquire (marked : volume.Marked marks held) {blockNo : BlockNo}
    (returned : volume.cacheAcquire blockNo = .ok (addr, after)) :
    after.Marked marks (addr :: held) ∧ after.header = volume.header := by
  obtain ⟨cache, lock, fetched, rfl⟩ := Volume.cacheAcquire_ok marked.wellFormed returned
  refine ⟨?_, rfl⟩
  apply (marked.fetched fetched).setBlock
  · rfl
  · exact (marked.fetched fetched).pins addr
  · intro _
    exact List.mem_cons_self
  · intro other _ member
    exact member

theorem release (marked : volume.Marked marks held)
    (returned : volume.cacheRelease addr = .ok after) :
    after.Marked marks (held.erase addr) ∧ after.header = volume.header := by
  obtain ⟨lock, rfl⟩ := Volume.cacheRelease_ok returned
  refine ⟨?_, rfl⟩
  apply marked.setBlock
  · rfl
  · exact marked.pins addr
  · intro impossible
    cases impossible
  · intro other different member
    exact (List.mem_erase_of_ne different).mpr member

theorem memmove (marked : volume.Marked marks held) {src : Addr}
    (returned : volume.memmove addr src = .ok after) :
    after.Marked marks held ∧ after.header = volume.header := by
  unfold Volume.memmove at returned
  split at returned
  · rename_i member
    cases returned
    refine ⟨?_, rfl⟩
    apply marked.setBlock
    · rfl
    · exact marked.pins addr
    · exact marked.flagged addr member.1
    · intro other _ held
      exact held
  · cases returned

theorem deviceWrite (marked : volume.Marked marks held)
    (returned : volume.deviceWrite addr = .ok after) :
    after.Marked marks held ∧ after.header = volume.header := by
  unfold Volume.deviceWrite at returned
  split at returned
  · cases returned
    exact ⟨marked.of_cache rfl, rfl⟩
  · cases returned

theorem mark (marked : volume.Marked marks held) (member : addr ∈ volume.cache.order)
    (more : BlockNo → Prop)
    (marks_iff : ∀ blockNo, more blockNo ↔ marks blockNo ∨ blockNo = (volume.block addr).blockNo) :
    (volume.setBlock addr { volume.block addr with pinned := true }).Marked more held := by
  have blocks := fun other =>
    volume.setBlock_block addr other { volume.block addr with pinned := true }
  have numbers : ∀ other, ((volume.setBlock addr
      { volume.block addr with pinned := true }).block other).blockNo =
        (volume.block other).blockNo := by
    intro other
    rw [blocks]
    split
    · rename_i same
      rw [same]
    · rfl
  constructor
  · exact setBlock_wellFormed marked.wellFormed rfl
  · intro other present
    rw [numbers, marks_iff, blocks]
    split
    · rename_i same
      rw [same]
      exact iff_of_true rfl (Or.inr rfl)
    · rename_i different
      rw [marked.pins other present]
      constructor
      · exact Or.inl
      · rintro (old | number)
        · exact old
        · exact absurd (marked.wellFormed.unique other present addr member number) different
  · intro blockNo new
    rcases (marks_iff blockNo).mp new with old | same
    · obtain ⟨other, present, number⟩ := marked.cached blockNo old
      exact ⟨other, present, (numbers other).trans number⟩
    · exact ⟨addr, member, (numbers addr).trans same.symm⟩
  · intro other present
    rw [blocks]
    split
    · rename_i same
      rw [same]
      exact marked.flagged addr member
    · exact marked.flagged other present

theorem transfer (marked : volume.Marked (fun _ => False) []) {source target : BlockNo}
    {unpin : Bool} (returned : volume.transfer source target unpin = .ok after) :
    after.Marked (fun _ => False) [] ∧ after.header = volume.header := by
  obtain ⟨⟨src, first⟩, gotSource, returned⟩ := bind_eq_ok returned
  obtain ⟨⟨dst, second⟩, gotTarget, returned⟩ := bind_eq_ok returned
  obtain ⟨third, moved, returned⟩ := bind_eq_ok returned
  obtain ⟨fourth, written, returned⟩ := bind_eq_ok returned
  obtain ⟨fifth, released, returned⟩ := bind_eq_ok returned
  obtain ⟨first', firstHeader⟩ := marked.acquire gotSource
  obtain ⟨second', secondHeader⟩ := first'.acquire gotTarget
  obtain ⟨third', thirdHeader⟩ := second'.memmove moved
  obtain ⟨fourth', fourthHeader⟩ := third'.deviceWrite written
  have unpinned : Volume.Marked (fun _ => False) [dst, src]
      (if unpin then fourth.setBlock dst { fourth.block dst with pinned := false } else fourth) ∧
      (if unpin then fourth.setBlock dst { fourth.block dst with pinned := false }
        else fourth).header = fourth.header := by
    split
    · refine ⟨?_, rfl⟩
      apply fourth'.setBlock
      · rfl
      · intro _
        exact iff_of_false Bool.false_ne_true id
      · intro _
        exact List.mem_cons_self
      · intro other _ member
        exact member
    · exact ⟨fourth', rfl⟩
  obtain ⟨fifth', fifthHeader⟩ := unpinned.1.release released
  obtain ⟨last, lastHeader⟩ := fifth'.release returned
  have nobody : ([dst, src].erase src).erase dst = [] := by
    by_cases same : dst = src
    · subst same
      rw [List.erase_cons_head, List.erase_cons_head]
    · rw [List.erase_cons_tail (by simpa using same), List.erase_cons_head, List.erase_cons_head]
  rw [nobody] at last
  constructor
  · exact last
  · rw [lastHeader, fifthHeader, unpinned.2, fourthHeader, thirdHeader, secondHeader, firstHeader]

theorem installTransLoop {sblock : SuperBlock} :
    ∀ (rounds tail : Nat) (volume after : Volume), volume.Marked (fun _ => False) [] →
      installTransLoop sblock true rounds tail volume = .ok after →
      after.Marked (fun _ => False) [] := by
  intro rounds
  induction rounds with
  | zero =>
      intro tail volume after marked returned
      cases returned
      exact marked
  | succ rounds ih =>
      intro tail volume after marked returned
      unfold Fs.installTransLoop at returned
      split at returned
      · obtain ⟨next, moved, returned⟩ := bind_eq_ok returned
        exact ih (tail + 1) next after (marked.transfer moved).1 returned
      · cases returned

theorem booted {sblock : SuperBlock} {heap : Addr → Block} {disk : Disk} :
    ((boot heap disk).readHeader sblock).Marked (fun _ => False) [] := by
  constructor
  · exact ⟨List.nodup_nil, fun left member => absurd member List.not_mem_nil⟩
  · intro addr member
    cases member
  · intro blockNo impossible
    cases impossible
  · intro addr member
    cases member

theorem transfer_clean (marked : volume.Marked (fun _ => False) []) {source target : BlockNo}
    {unpin : Bool} (clean : ∀ blockNo, volume.Serves blockNo (volume.disk blockNo))
    (returned : volume.transfer source target unpin = .ok after) :
    ∀ blockNo, after.Serves blockNo (after.disk blockNo) := by
  by_cases same : source = target
  · obtain ⟨src, first, acquired, got⟩ :=
      Volume.cacheAcquire_spec marked.wellFormed (clean source).free
    unfold Volume.transfer at returned
    rw [acquired, ← same] at returned
    simp only [ok_bind] at returned
    rw [got.again] at returned
    cases returned
  · have evictable : ∀ addr ∈ volume.cache.order, (volume.block addr).evictable = true := by
      intro addr member
      have pin : (volume.block addr).pinned = false := by
        rw [← Bool.not_eq_true, marked.pins addr member]
        exact id
      have flag : (volume.block addr).acquired = false := by
        rw [← Bool.not_eq_true]
        intro set
        cases marked.flagged addr member set
      unfold Block.evictable
      rw [pin, flag]
      rfl
    obtain ⟨other, executed, moved⟩ := Volume.transfer_spec unpin marked.wellFormed same
      (clean source) (clean target).free (Or.inr (Or.inr (Or.inr evictable)))
    rw [returned] at executed
    cases executed
    exact moved.clean clean

theorem install_clean {sblock : SuperBlock} :
    ∀ (rounds tail : Nat) (volume after : Volume), volume.Marked (fun _ => False) [] →
      (∀ blockNo, volume.Serves blockNo (volume.disk blockNo)) →
      Fs.installTransLoop sblock true rounds tail volume = .ok after →
        ∀ blockNo, after.Serves blockNo (after.disk blockNo) := by
  intro rounds
  induction rounds with
  | zero =>
      intro tail volume after _ clean returned
      cases returned
      exact clean
  | succ rounds ih =>
      intro tail volume after marked clean returned
      unfold Fs.installTransLoop at returned
      split at returned
      · obtain ⟨next, moved, returned⟩ := bind_eq_ok returned
        exact ih (tail + 1) next after (marked.transfer moved).1
          (marked.transfer_clean clean moved) returned
      · cases returned

/-- Recovery clears the header when every block is as on the device, and none is pinned or
flagged. -/
theorem installed {sblock : SuperBlock} {heap : Addr → Block} {disk : Disk}
    (returned : recoverFromLog sblock (boot heap disk) = .ok after) :
    ∃ installed : Volume, after = installed.clearHeader.writeHeader sblock ∧
      installed.Marked (fun _ => False) [] ∧
      ∀ blockNo, installed.Serves blockNo (installed.disk blockNo) := by
  obtain ⟨installed, looped, returned⟩ := bind_eq_ok returned
  cases returned
  refine ⟨installed, rfl, installTransLoop _ _ _ _ booted looped,
    install_clean _ _ _ _ booted ?_ looped⟩
  intro blockNo
  refine ⟨?_, ?_, Or.inr rfl⟩
  · intro addr member
    cases member
  · intro addr member
    cases member

/-- Recovery leaves nothing pinned and nothing flagged. -/
theorem recovered {sblock : SuperBlock} {heap : Addr → Block} {disk : Disk}
    (returned : recoverFromLog sblock (boot heap disk) = .ok after) :
    after.Marked (fun _ => False) [] ∧ after.header.numBlocks = 0 := by
  obtain ⟨installed, rfl, marked, -⟩ := Volume.Marked.installed returned
  exact ⟨marked.of_cache rfl, rfl⟩

end Volume.Marked

/-! ### The calls -/

theorem LogHeader.not_lists {header : LogHeader} (empty : header.numBlocks = 0)
    (blockNo : BlockNo) : ¬header.Lists blockNo := by
  rintro ⟨index, within, _⟩
  omega

/-- The pinned blocks are the listed ones; an operation is outstanding while one is listed. -/
structure Bcache.Tidy (bcache : Bcache) : Prop where
  marked : bcache.volume.Marked bcache.volume.header.Lists bcache.held
  outstanding : bcache.log.outstanding = bcache.running.length
  empty : bcache.running = [] → bcache.volume.header.numBlocks = 0

/-- No `end_op` finds a number in the header to commit. -/
def CommitsNothing (bcache : Bcache) : Call → Prop
  | .endOp _ => bcache.log.outstanding = 1 → bcache.volume.header.numBlocks = 0
  | _ => True

namespace Bcache.Tidy

variable {bcache after : Bcache} {addr : Addr} {ctx : CtxId}

theorem init {sblock : SuperBlock} {heap : Addr → Block} {disk : Disk}
    (returned : Bcache.init sblock heap disk = .ok after) : after.Tidy := by
  obtain ⟨volume, recovered, returned⟩ := bind_eq_ok returned
  obtain ⟨marked, empty⟩ := Volume.Marked.recovered recovered
  cases returned
  have nothing : volume.header.Lists = fun _ => False := by
    funext blockNo
    exact eq_false (LogHeader.not_lists empty blockNo)
  constructor
  · change volume.Marked volume.header.Lists []
    rw [nothing]
    exact marked
  · rfl
  · intro _
    exact empty

theorem acquire (tidy : bcache.Tidy) {blockNo : BlockNo}
    (returned : bcache.acquire blockNo = .ok (addr, after)) : after.Tidy := by
  obtain ⟨⟨node, volume⟩, acquired, returned⟩ := bind_eq_ok returned
  obtain ⟨marked, header⟩ := tidy.marked.acquire acquired
  cases returned
  constructor
  · rw [← header] at marked
    exact marked
  · exact tidy.outstanding
  · intro nobody
    change volume.header.numBlocks = 0
    rw [header]
    exact tidy.empty nobody

theorem release (tidy : bcache.Tidy) (returned : bcache.release addr = .ok after) :
    after.Tidy := by
  obtain ⟨volume, released, returned⟩ := bind_eq_ok returned
  obtain ⟨marked, header⟩ := tidy.marked.release released
  cases returned
  constructor
  · rw [← header] at marked
    exact marked
  · exact tidy.outstanding
  · intro nobody
    change volume.header.numBlocks = 0
    rw [header]
    exact tidy.empty nobody

theorem store (tidy : bcache.Tidy) {data : BlockData}
    (returned : bcache.store addr data = .ok after) : after.Tidy := by
  unfold Bcache.store at returned
  split at returned
  · rename_i member
    cases returned
    refine ⟨?_, tidy.outstanding, tidy.empty⟩
    apply tidy.marked.setBlock
    · rfl
    · exact tidy.marked.pins addr
    · exact tidy.marked.flagged addr member
    · intro other _ held
      exact held
  · cases returned

theorem beginOp (tidy : bcache.Tidy) (returned : bcache.beginOp ctx = .ok after) :
    after.Tidy := by
  unfold Bcache.beginOp at returned
  split at returned
  · cases returned
  · cases returned
    refine ⟨tidy.marked, ?_, ?_⟩
    · change bcache.log.outstanding + 1 = ((ctx :: bcache.running).length : Int)
      rw [tidy.outstanding, List.length_cons]
      rfl
    · intro impossible
      cases impossible

theorem sync (tidy : bcache.Tidy) {ctx : Option CtxId}
    (returned : bcache.sync ctx addr = .ok after) : after.Tidy := by
  cases ctx with
  | none =>
      obtain ⟨volume, written, returned⟩ := bind_eq_ok returned
      obtain ⟨marked, header⟩ := tidy.marked.deviceWrite written
      cases returned
      constructor
      · rw [← header] at marked
        exact marked
      · exact tidy.outstanding
      · intro nobody
        change volume.header.numBlocks = 0
        rw [header]
        exact tidy.empty nobody
  | some ctx =>
      unfold Bcache.sync at returned
      simp only at returned
      split at returned
      · rename_i member
        obtain ⟨synced, paid, returned⟩ := bind_eq_ok returned
        obtain ⟨someone, _, effect⟩ := cacheSync_ok paid
        have busy : bcache.running ≠ [] := by
          intro nobody
          have outstanding := tidy.outstanding
          rw [nobody, List.length_nil] at outstanding
          omega
        cases returned
        rcases effect with ⟨listed, rfl⟩ | ⟨_, slot, _, rfl⟩
        · refine ⟨?_, tidy.outstanding, fun nobody => absurd nobody busy⟩
          apply tidy.marked.setBlock
          · rfl
          · intro _
            change ((bcache.volume.block addr).pinned || false) = true ↔ _
            rw [Bool.or_false]
            exact tidy.marked.pins addr member
          · exact tidy.marked.flagged addr member
          · intro other _ held
            exact held
        · refine ⟨?_, tidy.outstanding, fun nobody => absurd nobody busy⟩
          have marked := tidy.marked.mark member
            (bcache.volume.header.push (bcache.volume.block addr).blockNo).Lists
            (fun blockNo => LogHeader.lists_push slot)
          simp only [Bool.or_true]
          exact marked.of_cache rfl
      · cases returned

theorem endOp (tidy : bcache.Tidy) {sblock : SuperBlock} (member : ctx ∈ bcache.running)
    (nothing : bcache.log.outstanding = 1 → bcache.volume.header.numBlocks = 0)
    (returned : bcache.endOp sblock ctx = .ok after) : after.Tidy := by
  have count := List.length_erase_of_mem member
  have positive := List.length_pos_of_mem member
  have outstanding := tidy.outstanding
  unfold Bcache.endOp at returned
  dsimp only at returned
  split at returned
  · cases returned
  · split at returned
    · rename_i last
      change bcache.log.outstanding - 1 = 0 at last
      have empty := nothing (by omega)
      obtain ⟨volume, committed, returned⟩ := bind_eq_ok returned
      unfold commit at committed
      simp only [empty, Nat.lt_irrefl, if_false] at committed
      cases committed
      cases returned
      refine ⟨tidy.marked, ?_, fun _ => empty⟩
      change bcache.log.outstanding - 1 = ((bcache.running.erase ctx).length : Int)
      omega
    · rename_i others
      change ¬bcache.log.outstanding - 1 = 0 at others
      cases returned
      refine ⟨tidy.marked, ?_, ?_⟩
      · change bcache.log.outstanding - 1 = ((bcache.running.erase ctx).length : Int)
        omega
      · intro nobody
        change bcache.running.erase ctx = [] at nobody
        rw [nobody, List.length_nil] at count
        omega

theorem bzero (tidy : bcache.Tidy) {ctx : Option CtxId} {blockNo : UInt32}
    (returned : bcache.bzero ctx blockNo = .ok after) : after.Tidy := by
  obtain ⟨⟨bp, first⟩, acquired, returned⟩ := bind_eq_ok returned
  obtain ⟨second, stored, returned⟩ := bind_eq_ok returned
  obtain ⟨third, synced, returned⟩ := bind_eq_ok returned
  exact (((tidy.acquire acquired).store stored).sync synced).release returned

theorem take (tidy : bcache.Tidy) {ctx : Option CtxId} {bp : Addr} {bi : Fin bitPerBlock}
    {blockNo : UInt32} (returned : bcache.take ctx bp bi blockNo = .ok after) : after.Tidy := by
  obtain ⟨first, stored, returned⟩ := bind_eq_ok returned
  obtain ⟨second, synced, returned⟩ := bind_eq_ok returned
  obtain ⟨third, released, returned⟩ := bind_eq_ok returned
  exact (((tidy.store stored).sync synced).release released).bzero returned

theorem allocLoop {sblock : SuperBlock} {ctx : Option CtxId} :
    ∀ (rounds : Nat) (b : UInt32) (bcache after : Bcache) (blockNo : UInt32), bcache.Tidy →
      bcache.allocLoop sblock ctx rounds b = .ok (blockNo, after) → after.Tidy := by
  intro rounds
  induction rounds with
  | zero =>
      intro b bcache after blockNo tidy returned
      cases returned
  | succ rounds ih =>
      intro b bcache after blockNo tidy returned
      unfold Bcache.allocLoop at returned
      split at returned
      · obtain ⟨⟨bp, first⟩, acquired, returned⟩ := bind_eq_ok returned
        simp only at returned
        split at returned
        · obtain ⟨second, taken, returned⟩ := bind_eq_ok returned
          cases returned
          exact (tidy.acquire acquired).take taken
        · obtain ⟨second, released, returned⟩ := bind_eq_ok returned
          exact ih _ second after blockNo ((tidy.acquire acquired).release released) returned
      · cases returned

theorem free (tidy : bcache.Tidy) {sblock : SuperBlock} {ctx : Option CtxId} {blockNo : UInt64}
    (returned : bcache.free sblock ctx blockNo = .ok after) : after.Tidy := by
  obtain ⟨⟨bp, first⟩, acquired, returned⟩ := bind_eq_ok returned
  simp only at returned
  split at returned
  · cases returned
  · obtain ⟨second, stored, returned⟩ := bind_eq_ok returned
    obtain ⟨third, synced, returned⟩ := bind_eq_ok returned
    exact (((tidy.acquire acquired).store stored).sync synced).release returned

theorem step (tidy : bcache.Tidy) {sblock : SuperBlock} {call : Call}
    (nothing : CommitsNothing bcache call) (taken : callStep sblock bcache call = .ok after) :
    after.Tidy := by
  unfold callStep at taken
  split at taken
  · rename_i permitted
    cases call with
    | acquire blockNo =>
        obtain ⟨⟨addr, next⟩, returned, same⟩ := map_eq_ok taken
        exact same ▸ tidy.acquire returned
    | store addr data => exact tidy.store taken
    | release addr => exact tidy.release taken
    | beginOp ctx => exact tidy.beginOp taken
    | sync ctx addr => exact tidy.sync taken
    | endOp ctx => exact tidy.endOp (of_decide_eq_true permitted) nothing taken
    | alloc ctx =>
        obtain ⟨⟨blockNo, next⟩, returned, same⟩ := map_eq_ok taken
        exact same ▸ allocLoop _ _ _ _ _ tidy returned
    | free ctx blockNo => exact tidy.free taken
  · cases taken

theorem unpinned (tidy : bcache.Tidy) (idle : bcache.log.outstanding = 0) :
    ∀ addr ∈ bcache.volume.cache.order, (bcache.volume.block addr).pinned = false := by
  intro addr member
  have outstanding := tidy.outstanding
  have nobody : bcache.running = [] := by
    apply List.eq_nil_of_length_eq_zero
    omega
  rw [← Bool.not_eq_true, tidy.marked.pins addr member]
  exact LogHeader.not_lists (tidy.empty nobody) _

end Bcache.Tidy

/-- The block cache of an empty volume. -/
def emptyBcache : Bcache :=
  { volume := ((boot (fun _ => initBlock) (fun _ _ => 0)).readHeader
      mkfsSuperBlock).clearHeader.writeHeader mkfsSuperBlock
    log := { outstanding := 0, committing := false, mu := 0, mx := mkfsSuperBlock.logMx }
    rm := fun _ => 0
    running := []
    held := [] }

end LabKernel.Fs
