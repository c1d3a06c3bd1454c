/-
What the callers of the block cache see of the volume.

Outside the log area every block has one content that the next acquire of it returns, whatever
was evicted or committed in between. A caller that acquires a block, changes it, syncs it and
releases it changes that content and no other.
-/

import LabKernel.Fs.Crash
import LabKernel.Fs.Pins
import LabKernel.Fs.Reservation

set_option autoImplicit false

namespace LabKernel.Fs

open Common Transition Outcomes

/-- Outside the log area the volume has these contents. Nobody holds a block, and what is
listed in the header is pinned. -/
structure Volume.Shows (sblock : SuperBlock) (view : BlockNo → BlockData) (volume : Volume) :
    Prop where
  wellFormed : volume.cache.WellFormed
  free : ∀ blockNo, volume.Free blockNo
  served : ∀ blockNo, ¬sblock.InLog blockNo → volume.Serves blockNo (view blockNo)
  admits : sblock.Admits volume.header
  pinned : ∀ blockNo, volume.header.Lists blockNo → volume.Pinned blockNo

/-- A held block gets its data, its pin and a header to go with it, and is released. -/
def Volume.settle (volume : Volume) (addr : Addr) (header : LogHeader) (data : BlockData)
    (pinned : Bool) : Volume :=
  { volume with header := header }.setBlock addr
    { volume.block addr with
      data := data, pinned := pinned, acquired := false, lock := freeLock }

/-- The content that the next acquire of a block returns. -/
def Volume.content (volume : Volume) (blockNo : BlockNo) : BlockData :=
  match volume.cache.find blockNo with
  | some addr => (volume.block addr).data
  | none => volume.disk blockNo

namespace Volume.Shows

variable {sblock : SuperBlock} {view : BlockNo → BlockData} {volume after : Volume}
  {blockNo : BlockNo} {addr : Addr}

theorem content_eq (shown : volume.Shows sblock view) (outside : ¬sblock.InLog blockNo) :
    volume.content blockNo = view blockNo := by
  have serves := shown.served blockNo outside
  unfold Volume.content
  cases found : volume.cache.find blockNo with
  | some addr =>
      obtain ⟨member, number⟩ := BlockCache.find_some found
      exact serves.cached addr member number
  | none =>
      rcases serves.stored with pinned | stored
      · exact absurd pinned.cached (Volume.not_cached_of_find found)
      · exact stored

/-! ### One block -/

section Settle

variable {header : LogHeader} {data : BlockData} {pinned : Bool}

theorem settle_self : (after.settle addr header data pinned).block addr =
    { after.block addr with data := data, pinned := pinned, acquired := false, lock := freeLock } := by
  unfold Volume.settle
  rw [Volume.setBlock_block, if_pos rfl]

theorem settle_other {other : Addr} (different : other ≠ addr) :
    (after.settle addr header data pinned).block other = after.block other := by
  unfold Volume.settle
  rw [Volume.setBlock_block, if_neg different]
  rfl

theorem settle_pinned (got : volume.Acquired blockNo addr after) (pin : pinned = true) :
    (after.settle addr header data pinned).Pinned blockNo := by
  refine ⟨addr, got.member, ?_, ?_⟩
  · rw [settle_self]
    exact got.number
  · rw [settle_self]
    exact pin

theorem settle_pins (shown : volume.Shows sblock view) (got : volume.Acquired blockNo addr after)
    (keeps : (after.block addr).pinned = true → pinned = true) {other : BlockNo}
    (pin : volume.Pinned other) : (after.settle addr header data pinned).Pinned other := by
  by_cases same : other = blockNo
  · rw [same] at pin ⊢
    exact settle_pinned got (keeps (got.pinned_self shown.wellFormed pin))
  · obtain ⟨node, member, number, set⟩ := got.pinned_other same pin
    have different : node ≠ addr := by
      intro equal
      rw [equal, got.number] at number
      exact same number.symm
    refine ⟨node, member, ?_, ?_⟩
    · rw [settle_other different, number]
    · rw [settle_other different, set]

theorem settle_nodes (got : volume.Acquired blockNo addr after) {other : Addr}
    (member : other ∈ after.cache.order) : other = addr ∨
      other ≠ addr ∧ (after.block other).blockNo ≠ blockNo ∧ other ∈ volume.cache.order ∧
        after.block other = volume.block other := by
  by_cases same : other = addr
  · exact Or.inl same
  · refine Or.inr ⟨same, ?_, got.others other member same⟩
    intro number
    exact same (got.wellFormed.unique other member addr got.member (number.trans got.number.symm))

theorem settle (shown : volume.Shows sblock view) (got : volume.Acquired blockNo addr after)
    (keeps : (after.block addr).pinned = true → pinned = true)
    (stored : pinned = true ∨ after.disk blockNo = data) (admits : sblock.Admits header)
    (lists : ∀ other, header.Lists other →
      volume.header.Lists other ∨ other = blockNo ∧ pinned = true) :
    (after.settle addr header data pinned).Shows sblock (Function.update view blockNo data) := by
  have free : ∀ other, (after.settle addr header data pinned).Free other := by
    intro other node member number
    rcases settle_nodes got member with same | ⟨different, -, older, equal⟩
    · rw [same, settle_self]
    · rw [settle_other different, equal] at number ⊢
      exact shown.free other node older number
  constructor
  · exact Volume.setBlock_wellFormed got.wellFormed rfl
  · exact free
  · intro other outside
    refine ⟨free other, ?_, ?_⟩
    · intro node member number
      rcases settle_nodes got member with same | ⟨different, elsewhere, older, equal⟩
      · rw [same, settle_self] at number ⊢
        have mine : other = blockNo := number.symm.trans got.number
        rw [mine, Function.update_self]
      · rw [settle_other different] at number ⊢
        rw [Function.update_of_ne (fun same => elsewhere (number.trans same)), equal]
        rw [equal] at number
        exact (shown.served other outside).cached node older number
    · by_cases same : other = blockNo
      · rw [same, Function.update_self]
        rcases stored with pin | written
        · exact Or.inl (settle_pinned got pin)
        · exact Or.inr written
      · rw [Function.update_of_ne same]
        rcases (shown.served other outside).stored with pin | written
        · exact Or.inl (settle_pins shown got keeps pin)
        · right
          change after.disk other = _
          rw [got.disk]
          exact written
  · exact admits
  · intro other listed
    rcases lists other listed with old | ⟨same, pin⟩
    · exact settle_pins shown got keeps (shown.pinned other old)
    · rw [same]
      exact settle_pinned got pin

end Settle

theorem admits_push {header : LogHeader} (admits : sblock.Admits header)
    (room : header.numBlocks < sblock.logMx) (outside : ¬sblock.InLog blockNo) :
    sblock.Admits (header.push blockNo) := by
  constructor
  · exact room
  · intro tail within
    have slot : header.numBlocks < logMaxSize := (SuperBlock.tail_within room).2
    have small : tail < logMaxSize := Nat.lt_of_lt_of_le within slot
    have listed := LogHeader.lists_entry within small
    rcases (LogHeader.lists_push slot).mp listed with ⟨index, older, number⟩ | same
    · rw [← number, header.blockNo_eq_entry index.isLt]
      exact admits.outside index.val older
    · rw [same]
      exact outside

theorem synced (shown : volume.Shows sblock view) (got : volume.Acquired blockNo addr after)
    (outside : ¬sblock.InLog blockNo) {log : LogVars} (capacity : log.mx = sblock.logMx)
    {rm : Nat} {synced : Synced} (paid : cacheSync log volume.header rm blockNo = .ok synced)
    (data : BlockData) :
    (after.settle addr synced.header data
      ((after.block addr).pinned || synced.added)).Shows sblock
        (Function.update view blockNo data) := by
  obtain ⟨-, room, ⟨listed, rfl⟩ | ⟨-, slot, -, rfl⟩⟩ := cacheSync_ok paid
  · have pin := got.pinned_self shown.wellFormed (shown.pinned blockNo listed)
    apply shown.settle got
    · intro set
      rw [set]
      rfl
    · rw [pin]
      exact Or.inl rfl
    · exact shown.admits
    · exact fun _ older => Or.inl older
  · rw [capacity] at room
    apply shown.settle got
    · intro set
      rw [set]
      rfl
    · exact Or.inl (Bool.or_true _)
    · exact admits_push shown.admits room outside
    · intro other now
      rcases (LogHeader.lists_push slot).mp now with older | same
      · exact Or.inl older
      · exact Or.inr ⟨same, Bool.or_true _⟩

/-! ### A commit -/

theorem undisturbed (admits : sblock.Admits volume.header) :
    Undisturbed sblock volume.header (fun index => view (volume.header.entry index))
      (fun volume => (∀ blockNo, volume.Free blockNo) ∧
        ∀ blockNo, ¬sblock.InLog blockNo → volume.Serves blockNo (view blockNo)) := by
  constructor
  · rintro before after tail within ⟨free, served⟩ moved
    refine ⟨fun blockNo => moved.free (free blockNo), ?_⟩
    intro blockNo outside
    apply moved.serves_other _ _ (served blockNo outside)
    · intro same
      rw [same] at outside
      exact outside (sblock.logBlock_inLog (admits.index within))
    · intro same
      rw [same]
  · rintro before after tail within ⟨free, served⟩ moved
    refine ⟨fun blockNo => moved.free (free blockNo), ?_⟩
    intro blockNo outside
    by_cases same : blockNo = volume.header.entry tail
    · rw [same]
      exact moved.serves_target
    · apply moved.serves_other same _ (served blockNo outside)
      intro source
      rw [source] at outside
      exact absurd (sblock.logBlock_inLog (admits.index within)) outside
  · rintro before ⟨free, served⟩
    constructor
    · exact free
    · intro blockNo outside
      exact (served blockNo outside).write (ne_headerBlock_of_outside outside) _

theorem logging (shown : volume.Shows sblock view) :
    Logging sblock volume.header (fun index => view (volume.header.entry index)) 0 volume := by
  have slot : ∀ index, index < volume.header.numBlocks → index < logMaxSize := fun index within =>
    (SuperBlock.tail_within (shown.admits.index within)).2
  constructor
  · exact shown.wellFormed
  · rfl
  · intro index within
    exact shown.served _ (shown.admits.outside index within)
  · intro index within
    exact shown.pinned _ (LogHeader.lists_entry within (slot index within))
  · intro index impossible
    exact absurd impossible (Nat.not_lt_zero index)
  · intro index within
    exact shown.free _

theorem not_lists_cleared (header : LogHeader) (blockNo : BlockNo) :
    ¬LogHeader.Lists { header with numBlocks := 0 } blockNo :=
  LogHeader.not_lists rfl blockNo

theorem admits_cleared (sblock : SuperBlock) (header : LogHeader) :
    sblock.Admits { header with numBlocks := 0 } :=
  ⟨Nat.zero_le _, fun tail impossible => absurd impossible (Nat.not_lt_zero tail)⟩

/-- A commit returns and changes no content outside the log area. -/
theorem commit (shown : volume.Shows sblock view) :
    ∃ after, Fs.commit sblock volume = .ok after ∧ after.Shows sblock view ∧
      after.header = { volume.header with numBlocks := 0 } := by
  by_cases nonempty : 0 < volume.header.numBlocks
  · have consistent : Consistent volume.header
        (fun index => view (volume.header.entry index)) := by
      intro left right _ _ same
      simp only [same]
    obtain ⟨installed, committed, final, ⟨free, served⟩, -⟩ :=
      commit_spec shown.admits consistent nonempty (undisturbed shown.admits) shown.logging
        ⟨shown.free, shown.served⟩
    have header : (installed.clearHeader.writeHeader sblock).header =
        { volume.header with numBlocks := 0 } := by
      change { installed.header with numBlocks := 0 } = _
      rw [final.current]
    refine ⟨_, committed, ?_, header⟩
    constructor
    · exact final.wellFormed
    · exact free
    · intro blockNo outside
      have serves : installed.clearHeader.Serves blockNo (view blockNo) :=
        ⟨(served blockNo outside).free, (served blockNo outside).cached,
          (served blockNo outside).stored⟩
      exact serves.write (ne_headerBlock_of_outside outside) _
    · rw [header]
      exact admits_cleared sblock _
    · intro blockNo listed
      rw [header] at listed
      exact absurd listed (not_lists_cleared _ blockNo)
  · have empty : volume.header.numBlocks = 0 := by omega
    refine ⟨volume, ?_, shown, ?_⟩
    · unfold Fs.commit
      rw [if_neg nonempty]
    · rw [← empty]

end Volume.Shows

/-! ### The beginning -/

theorem Volume.Shows.recovered {sblock : SuperBlock} {heap : Addr → Block} {disk : Disk}
    {after : Volume} (returned : recoverFromLog sblock (boot heap disk) = .ok after) :
    after.Shows sblock after.disk := by
  obtain ⟨installed, rfl, marked, clean⟩ := Volume.Marked.installed returned
  constructor
  · exact marked.wellFormed
  · intro blockNo
    exact (clean blockNo).free
  · intro blockNo outside
    have different := ne_headerBlock_of_outside outside
    have same : (installed.clearHeader.writeHeader sblock).disk blockNo =
        installed.disk blockNo := Function.update_of_ne different _ _
    have serves : installed.clearHeader.Serves blockNo (installed.disk blockNo) :=
      ⟨(clean blockNo).free, (clean blockNo).cached, (clean blockNo).stored⟩
    rw [same]
    exact serves.write different _
  · exact Volume.Shows.admits_cleared sblock _
  · intro blockNo listed
    exact absurd listed (Volume.Shows.not_lists_cleared _ blockNo)

/-! ### The calls -/

/-- The operations of the callers, as the log counts them. -/
def Bcache.ops (bcache : Bcache) : OpState :=
  { log := bcache.log
    header := bcache.volume.header
    sem := initSem 0
    semLock := none
    outstandingSem := initSem 0
    outstandingLock := none
    rm := bcache.rm
    phase := fun _ => .unused
    pc := fun _ => .idle
    opened := bcache.running
    history := [] }

def LogVars.Takes : LogVars → LogHeader → Nat → List BlockNo → Prop
  | _, _, _, [] => True
  | log, header, rm, blockNo :: rest =>
      ∃ synced, cacheSync log header rm blockNo = .ok synced ∧
        synced.log.Takes synced.header synced.rm rest

/-- The operation has enough log budget to sync these blocks in turn. -/
def Bcache.Affords (bcache : Bcache) (ctx : CtxId) (blocks : List BlockNo) : Prop :=
  bcache.log.Takes bcache.volume.header (bcache.rm ctx) blocks

/-- Between two calls: the contents outside the log area, and the reserves of the operations. -/
structure Bcache.Sound (sblock : SuperBlock) (view : BlockNo → BlockData) (bcache : Bcache) :
    Prop where
  shown : bcache.volume.Shows sblock view
  budget : Budget sblock bcache.ops
  calm : bcache.log.committing = false
  outstanding : bcache.log.outstanding = bcache.running.length
  distinct : bcache.running.Nodup

structure Bcache.Holding (view : BlockNo → BlockData) (bcache : Bcache) (blockNo : BlockNo)
    (bp : Addr) (first : Bcache) : Prop where
  got : bcache.volume.Acquired blockNo bp first.volume
  data : first.data bp = view blockNo
  log : first.log = bcache.log
  rm : first.rm = bcache.rm
  running : first.running = bcache.running

theorem cacheSync_returns {log : LogVars} {header : LogHeader} {rm : Nat}
    (busy : 1 ≤ log.outstanding) (room : header.numBlocks < log.mx) (slots : log.mx ≤ logMaxSize)
    (budget : 0 < rm) (blockNo : BlockNo) :
    ∃ synced, cacheSync log header rm blockNo = .ok synced := by
  have bound := header.search_le blockNo
  unfold cacheSync
  rw [if_neg (by omega), if_neg (by omega)]
  simp only
  rw [dif_pos (by omega)]
  split
  · exact ⟨_, rfl⟩
  · exact ⟨_, rfl⟩

theorem LogVars.takes_of_reserve (blocks : List BlockNo) :
    ∀ (log : LogVars) (header : LogHeader) (rm : Nat), 1 ≤ log.outstanding →
      header.numBlocks + rm ≤ log.mx → log.mx ≤ logMaxSize → blocks.length ≤ rm →
        log.Takes header rm blocks := by
  induction blocks with
  | nil =>
      intro log header rm _ _ _ _
      trivial
  | cons blockNo rest ih =>
      intro log header rm busy room slots enough
      rw [List.length_cons] at enough
      have space : header.numBlocks < log.mx := by omega
      have budget : 0 < rm := by omega
      obtain ⟨synced, paid⟩ := cacheSync_returns busy space slots budget blockNo
      refine ⟨synced, paid, ?_⟩
      obtain ⟨-, -, ⟨-, rfl⟩ | ⟨-, -, -, rfl⟩⟩ := cacheSync_ok paid
      · exact ih log header rm busy room slots (by omega)
      · apply ih
        · exact busy
        · change header.numBlocks + 1 + (rm - 1) ≤ log.mx
          omega
        · exact slots
        · change rest.length ≤ rm - 1
          omega

namespace Bcache.Sound

variable {sblock : SuperBlock} {view : BlockNo → BlockData} {bcache after : Bcache}
  {blockNo : BlockNo} {ctx : CtxId} {bp : Addr} {first : Bcache}

theorem content_eq (sound : bcache.Sound sblock view) (outside : ¬sblock.InLog blockNo) :
    bcache.volume.content blockNo = view blockNo :=
  sound.shown.content_eq outside

theorem affords (sound : bcache.Sound sblock view) (member : ctx ∈ bcache.running)
    {blocks : List BlockNo} (enough : blocks.length ≤ bcache.rm ctx) :
    bcache.Affords ctx blocks := by
  have outstanding := sound.outstanding
  have positive := List.length_pos_of_mem member
  have capacity : bcache.log.mx = sblock.logMx := sound.budget.capacity
  have fits : bcache.volume.header.numBlocks + (bcache.running.map bcache.rm).sum ≤
      sblock.logMx := sound.budget.fits
  have parts := List.sum_map_erase bcache.rm member
  have small : sblock.logMx ≤ logMaxSize := Nat.min_le_right _ _
  apply LogVars.takes_of_reserve
  · omega
  · omega
  · omega
  · exact enough

theorem init {heap : Addr → Block} {disk : Disk}
    (returned : Bcache.init sblock heap disk = .ok bcache) :
    bcache.Sound sblock bcache.volume.disk := by
  obtain ⟨volume, recovered, returned⟩ := bind_eq_ok returned
  have shown := Volume.Shows.recovered recovered
  have empty := (Volume.Marked.recovered recovered).2
  cases returned
  constructor
  · exact shown
  · constructor
    · rfl
    · rfl
    · change volume.header.numBlocks + 0 ≤ _
      omega
    · intro left right within
      change left.val < volume.header.numBlocks at within
      omega
  · rfl
  · rfl
  · exact List.nodup_nil

theorem beginOp (sound : bcache.Sound sblock view) (absent : ctx ∉ bcache.running)
    (returned : bcache.beginOp ctx = .ok after) : after.Sound sblock view := by
  unfold Bcache.beginOp at returned
  split at returned
  · cases returned
  · rename_i room
    rw [Bool.or_eq_true, not_or, Bool.not_eq_true, Bool.not_eq_true] at room
    cases returned
    constructor
    · exact sound.shown
    · exact sound.budget.begun absent room.2 rfl rfl rfl rfl
    · exact sound.calm
    · change bcache.log.outstanding + 1 = ((ctx :: bcache.running).length : Int)
      rw [sound.outstanding, List.length_cons]
      rfl
    · exact List.nodup_cons.mpr ⟨absent, sound.distinct⟩

theorem endOp (sound : bcache.Sound sblock view) (member : ctx ∈ bcache.running) :
    ∃ after, bcache.endOp sblock ctx = .ok after ∧ after.Sound sblock view := by
  have count := List.length_erase_of_mem member
  have positive := List.length_pos_of_mem member
  have outstanding := sound.outstanding
  have fewer : bcache.log.outstanding - 1 = ((bcache.running.erase ctx).length : Int) := by omega
  have calm : (bcache.log.endOp (bcache.rm ctx)).committing = false := sound.calm
  obtain ⟨volume, committed, shown, header⟩ := sound.shown.commit
  unfold Bcache.endOp
  simp only [calm, Bool.false_eq_true, if_false]
  split
  · rw [committed]
    refine ⟨_, rfl, shown, ?_, sound.calm, fewer, sound.distinct.erase ctx⟩
    have ended : Budget sblock { bcache with
        log := bcache.log.endOp (bcache.rm ctx), running := bcache.running.erase ctx }.ops :=
      sound.budget.ended member rfl rfl rfl rfl rfl
    exact ended.cleared rfl header rfl rfl
  · exact ⟨_, rfl, sound.shown, sound.budget.ended member rfl rfl rfl rfl rfl, sound.calm, fewer,
      sound.distinct.erase ctx⟩

theorem acquire (sound : bcache.Sound sblock view) (outside : ¬sblock.InLog blockNo) :
    ∃ bp first, bcache.acquire blockNo = .ok (bp, first) ∧
      bcache.Holding view blockNo bp first := by
  obtain ⟨bp, volume, acquired, got⟩ :=
    Volume.cacheAcquire_spec sound.shown.wellFormed (sound.shown.free blockNo)
  refine ⟨bp, { bcache with volume := volume, held := bp :: bcache.held }, ?_, ?_⟩
  · unfold Bcache.acquire
    rw [acquired]
    rfl
  · exact ⟨got, got.data (sound.shown.served blockNo outside), rfl, rfl, rfl⟩

end Bcache.Sound

namespace Bcache.Holding

variable {sblock : SuperBlock} {view : BlockNo → BlockData} {bcache first : Bcache}
  {blockNo : BlockNo} {ctx : CtxId} {bp : Addr}

theorem release (holding : bcache.Holding view blockNo bp first)
    (sound : bcache.Sound sblock view) (outside : ¬sblock.InLog blockNo) :
    ∃ after, first.release bp = .ok after ∧ after.Sound sblock view ∧ after.log = bcache.log ∧
      after.volume.header = bcache.volume.header ∧ after.rm = bcache.rm ∧
      after.running = bcache.running := by
  have got := holding.got
  have data : (first.volume.block bp).data = view blockNo := holding.data
  have released := Volume.cacheRelease_held got.member got.locked
  have settled : first.volume.setBlock bp
      { first.volume.block bp with acquired := false, lock := freeLock } =
        first.volume.settle bp bcache.volume.header (view blockNo)
          (first.volume.block bp).pinned := by
    unfold Volume.settle
    rw [← got.header, ← data]
  have stored : (first.volume.block bp).pinned = true ∨
      first.volume.disk blockNo = view blockNo := by
    rcases (sound.shown.served blockNo outside).stored with pin | written
    · exact Or.inl (got.pinned_self sound.shown.wellFormed pin)
    · right
      rw [got.disk]
      exact written
  have shown := sound.shown.settle got id stored sound.shown.admits (fun _ listed => Or.inl listed)
  rw [Function.update_eq_self] at shown
  rw [settled] at released
  refine ⟨{ first with
    volume := first.volume.settle bp bcache.volume.header (view blockNo)
      (first.volume.block bp).pinned
    held := first.held.erase bp }, ?_, ?_, holding.log, rfl, holding.rm, holding.running⟩
  · unfold Bcache.release
    rw [released]
    rfl
  · constructor
    · exact shown
    · exact sound.budget.frame (congrArg LogVars.mx holding.log)
        (congrArg LogVars.mu holding.log) rfl holding.rm holding.running
    · change first.log.committing = false
      rw [holding.log]
      exact sound.calm
    · change first.log.outstanding = first.running.length
      rw [holding.log, holding.running]
      exact sound.outstanding
    · change first.running.Nodup
      rw [holding.running]
      exact sound.distinct

/-- The block gets new data, is synced under an operation that can pay for it, and is
released. -/
theorem put (holding : bcache.Holding view blockNo bp first) (sound : bcache.Sound sblock view)
    (outside : ¬sblock.InLog blockNo) (member : ctx ∈ bcache.running) {synced : Synced}
    (paid : cacheSync bcache.log bcache.volume.header (bcache.rm ctx) blockNo = .ok synced)
    (data : BlockData) :
    ∃ second third after, first.store bp data = .ok second ∧
      second.sync (some ctx) bp = .ok third ∧ third.release bp = .ok after ∧
      after.Sound sblock (Function.update view blockNo data) ∧ after.log = synced.log ∧
      after.volume.header = synced.header ∧ after.rm ctx = synced.rm ∧
      after.running = bcache.running := by
  have got := holding.got
  have stored : first.store bp data = .ok
      { first with
        volume := first.volume.setBlock bp { first.volume.block bp with data := data } } := by
    unfold Bcache.store
    rw [if_pos got.member]
  have block : (first.volume.setBlock bp { first.volume.block bp with data := data }).block bp =
      { first.volume.block bp with data := data } := by
    rw [Volume.setBlock_block, if_pos rfl]
  have written := paid
  rw [← holding.log, ← got.header, ← holding.rm, ← got.number] at written
  have logged : Bcache.sync
      { first with
        volume := first.volume.setBlock bp { first.volume.block bp with data := data } }
      (some ctx) bp = .ok
        { first with
          volume := Volume.setBlock { first.volume with header := synced.header } bp
            { first.volume.block bp with
              data := data, pinned := (first.volume.block bp).pinned || synced.added }
          log := synced.log
          rm := Function.update first.rm ctx synced.rm } := by
    unfold Bcache.sync
    simp only [Volume.setBlock_order, got.member, if_true, block]
    change (cacheSync first.log first.volume.header (first.rm ctx)
      (first.volume.block bp).blockNo >>= _) = _
    rw [written]
    simp only [ok_bind, Volume.setBlock, Function.update_idem]
    rfl
  have locked : ((Volume.setBlock { first.volume with header := synced.header } bp
      { first.volume.block bp with
        data := data, pinned := (first.volume.block bp).pinned || synced.added }).block bp).lock =
          heldLock := by
    rw [Volume.setBlock_block, if_pos rfl]
    exact got.locked
  have freed := Volume.cacheRelease_held (by exact got.member) locked
  refine ⟨_, _, { first with
    volume := first.volume.settle bp synced.header data
      ((first.volume.block bp).pinned || synced.added)
    log := synced.log
    rm := Function.update first.rm ctx synced.rm
    held := first.held.erase bp }, stored, logged, ?_, ?_, rfl, rfl, Function.update_self _ _ _,
    holding.running⟩
  · unfold Bcache.release
    simp only
    rw [freed]
    simp only [ok_bind, Volume.settle, Volume.setBlock_block, if_true]
    simp only [Volume.setBlock, Function.update_idem]
    rfl
  · obtain ⟨calm, outstanding⟩ : synced.log.committing = bcache.log.committing ∧
        synced.log.outstanding = bcache.log.outstanding := by
      obtain ⟨-, -, ⟨-, rfl⟩ | ⟨-, -, -, rfl⟩⟩ := cacheSync_ok paid
      · exact ⟨rfl, rfl⟩
      · exact ⟨rfl, rfl⟩
    constructor
    · exact sound.shown.synced got outside sound.budget.capacity paid data
    · apply sound.budget.synced member sound.distinct paid
      · rfl
      · rfl
      · change Function.update first.rm ctx synced.rm = Function.update bcache.rm ctx synced.rm
        rw [holding.rm]
      · exact holding.running
    · exact calm.trans sound.calm
    · change synced.log.outstanding = first.running.length
      rw [outstanding, holding.running]
      exact sound.outstanding
    · change first.running.Nodup
      rw [holding.running]
      exact sound.distinct

end Bcache.Holding

end LabKernel.Fs
