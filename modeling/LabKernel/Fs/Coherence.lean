/-
Cached blocks, the device and the log.

A block that no caller holds has the content it was last released with. It is on the device
too unless it is pinned, so a miss reads what an eviction has dropped. A commit writes that
content to the log before it writes it to its place, and callers that hold a listed
block meanwhile have nothing open to change it under.
-/

import LabKernel.Fs.Engagement

set_option autoImplicit false

namespace LabKernel.Fs

open Common Transition

/-- The content of a block: what it was last released with, or what recovery has left. -/
def contentIn (start : Disk) (history : List Access) : Disk :=
  history.foldl (fun content access =>
    match access with
    | .returned .. => content
    | .released _ blockNo data => Function.update content blockNo data) start

theorem contentIn_returned (start : Disk) (history : List Access) (thread : Tid)
    (blockNo : BlockNo) (data : BlockData) :
    contentIn start (history ++ [.returned thread blockNo data]) = contentIn start history := by
  unfold contentIn
  rw [List.foldl_append]
  rfl

theorem contentIn_released (start : Disk) (history : List Access) (thread : Tid)
    (blockNo : BlockNo) (data : BlockData) :
    contentIn start (history ++ [.released thread blockNo data]) =
      Function.update (contentIn start history) blockNo data := by
  unfold contentIn
  rw [List.foldl_append]
  rfl

/-- A caller holds the block. -/
def System.Lent (state : System) (addr : Addr) : Prop :=
  ∃ hold ∈ state.held, hold.inner = false ∧ hold.addr = addr

/-- How many entries of the header a commit has written to the log when a round begins. -/
def Round.logged (numBlocks : Nat) (round : Round) : Nat :=
  if round.installing then numBlocks else round.tail

def Use.logged (numBlocks : Nat) : Use → Nat
  | .caller => 0
  | .source round | .target round _ => round.logged numBlocks

def Release.logged (numBlocks : Nat) : Release → Nat
  | .caller => 0
  | .source round _ | .target round => round.next.logged numBlocks

/-- The entries of the header that the commit a thread is in has written to the log. -/
def Place.logged (numBlocks : Nat) : Place → Nat
  | .outside => 0
  | .locking use _ _ | .asleep use _ _ => use.logged numBlocks
  | .unlocking release _ => release.logged numBlocks
  | .first round | .second round _ | .copying round _ _ | .writing round _ _ =>
      round.logged numBlocks
  | .releasing round _ _ | .releasingLast round _ => round.next.logged numBlocks

theorem Place.inner_of_logged {place : Place} {numBlocks index : Nat}
    (logged : index < place.logged numBlocks) : place.Inner := by
  cases place with
  | outside => cases logged
  | locking use blockNo addr =>
      cases use with
      | caller => cases logged
      | source round => trivial
      | target round src => trivial
  | asleep use blockNo addr =>
      cases use with
      | caller => cases logged
      | source round => trivial
      | target round src => trivial
  | unlocking release addr =>
      cases release with
      | caller => cases logged
      | source round dst => trivial
      | target round => trivial
  | first round => trivial
  | second round src => trivial
  | copying round src dst => trivial
  | writing round src dst => trivial
  | releasing round src dst => trivial
  | releasingLast round dst => trivial

/-- An entry of the header is in the log as it was last released, and so is every cached
copy of it. -/
def System.Saved (sblock : SuperBlock) (content : Disk) (state : System) (index : Nat) : Prop :=
  state.disk (sblock.logBlock index) = content (state.op.header.entry index) ∧
    ∀ addr ∈ state.cache.order,
      (state.block addr).blockNo = state.op.header.entry index →
      (state.block addr).data = content (state.op.header.entry index)

/-- What the blocks in memory, on the device and in the log have to do with each other. -/
structure Coherent (sblock : SuperBlock) (start : Disk) (state : System) : Prop where
  settled : ∀ addr ∈ state.cache.order, ¬sblock.InLog (state.block addr).blockNo →
    ¬state.Lent addr →
      (state.block addr).data = contentIn start state.history (state.block addr).blockNo
  dirtied : ∀ addr, state.dirty addr ≠ none → state.Lent addr
  clean : ∀ addr ∈ state.cache.order, ¬sblock.InLog (state.block addr).blockNo →
    (state.block addr).pinned = false → state.dirty addr = none →
      (state.block addr).data = state.disk (state.block addr).blockNo
  stored : ∀ blockNo, ¬sblock.InLog blockNo →
    (∀ addr ∈ state.cache.order, (state.block addr).blockNo ≠ blockNo) →
      state.disk blockNo = contentIn start state.history blockNo
  pinned : ∀ blockNo, state.op.header.Lists blockNo → ∃ addr ∈ state.cache.order,
    (state.block addr).blockNo = blockNo ∧ (state.block addr).pinned = true
  mirrored : ∀ addr ∈ state.cache.order, ∀ index < sblock.logMx,
    (state.block addr).blockNo = sblock.logBlock index →
      (∃ thread round src, state.place thread = .writing round src addr) ∨
        (state.block addr).data = state.disk (sblock.logBlock index)
  logged : ∀ thread index, index < (state.place thread).logged state.op.header.numBlocks →
    index < sblock.logMx → state.Saved sblock (contentIn start state.history) index
  copied : ∀ thread round src dst, state.place thread = .writing round src dst →
    (state.block dst).data = (state.block src).data

namespace Orderly

variable {sblock : SuperBlock} {state : System} {thread : Tid}

theorem wellFormed (orderly : Orderly sblock state) : state.cache.WellFormed := by
  obtain ⟨owner, locks⟩ := orderly.locks
  exact locks.resident.wellFormed

theorem cached (orderly : Orderly sblock state) {hold : Hold} (member : hold ∈ state.held) :
    hold.addr ∈ state.cache.order := by
  obtain ⟨owner, locks⟩ := orderly.locks
  exact locks.touched_cached (Locks.touches_hold member)

theorem not_lent (orderly : Orderly sblock state) {hold : Hold} (member : hold ∈ state.held)
    (inner : hold.inner = true) : ¬state.Lent hold.addr := by
  rintro ⟨other, present, outer, same⟩
  obtain ⟨owner, locks⟩ := orderly.locks
  rw [locks.hold_unique present member same, inner] at outer
  cases outer

theorem same_node (orderly : Orderly sblock state) {hold : Hold} (member : hold ∈ state.held)
    {addr : Addr} (present : addr ∈ state.cache.order)
    (number : (state.block addr).blockNo = hold.blockNo) : addr = hold.addr := by
  apply orderly.wellFormed.unique addr present hold.addr (orderly.cached member)
  exact number.trans (orderly.number member).symm

/-- The entry that a round copies is listed, lies outside the log, and its slot is in it. -/
theorem round_bounds (orderly : Orderly sblock state) {round : Round}
    (runs : state.Runs thread round) :
    round.tail < sblock.logMx ∧ ¬sblock.InLog (state.op.header.entry round.tail) ∧
      sblock.InLog (sblock.logBlock round.tail) := by
  have bound : round.tail < sblock.logMx := Nat.lt_of_lt_of_le runs.2 orderly.engaged.fits
  refine ⟨bound, ?_, sblock.logBlock_inLog bound⟩
  exact orderly.engaged.outside _ (LogHeader.lists_entry runs.2 (SuperBlock.tail_within bound).2)

theorem logged_le (orderly : Orderly sblock state) (thread : Tid) :
    (state.place thread).logged state.op.header.numBlocks ≤ state.op.header.numBlocks := by
  have rounds : ∀ round : Round, round.tail ≤ state.op.header.numBlocks →
      round.logged state.op.header.numBlocks ≤ state.op.header.numBlocks := by
    intro round bound
    unfold Round.logged
    split
    · exact Nat.le_refl _
    · exact bound
  have proper := orderly.engaged.proper thread
  cases located : state.place thread with
  | outside => exact Nat.zero_le _
  | locking use blockNo addr =>
      rw [located] at proper
      cases use with
      | caller => exact Nat.zero_le _
      | source round => exact rounds round (Nat.le_of_lt proper.1.2)
      | target round src => exact rounds round (Nat.le_of_lt proper.1.2)
  | asleep use blockNo addr =>
      rw [located] at proper
      cases use with
      | caller => exact Nat.zero_le _
      | source round => exact rounds round (Nat.le_of_lt proper.1.2)
      | target round src => exact rounds round (Nat.le_of_lt proper.1.2)
  | unlocking release addr =>
      rw [located] at proper
      cases release with
      | caller => exact Nat.zero_le _
      | source round dst => exact rounds round.next proper.1.2
      | target round => exact rounds round.next proper.2
  | first round =>
      rw [located] at proper
      exact rounds round proper.2
  | second round src =>
      rw [located] at proper
      exact rounds round (Nat.le_of_lt proper.1.2)
  | copying round src dst =>
      rw [located] at proper
      exact rounds round (Nat.le_of_lt proper.1.2)
  | writing round src dst =>
      rw [located] at proper
      exact rounds round (Nat.le_of_lt proper.1.2)
  | releasing round src dst =>
      rw [located] at proper
      exact rounds round.next proper.1.2
  | releasingLast round dst =>
      rw [located] at proper
      exact rounds round.next proper.1.2

theorem lists_logged (orderly : Orderly sblock state) {index : Nat}
    (logged : index < (state.place thread).logged state.op.header.numBlocks) :
    state.op.header.Lists (state.op.header.entry index) := by
  have listed := Nat.lt_of_lt_of_le logged (orderly.logged_le thread)
  have bound := Nat.lt_of_lt_of_le listed orderly.engaged.fits
  exact LogHeader.lists_entry listed (SuperBlock.tail_within bound).2

end Orderly

/-! ### Steps that alter no block -/

/-- The blocks are as they were, and so are the device but for the header, what was released, the
header in memory, and the blocks that are lent. -/
structure Unaltered (sblock : SuperBlock) (start : Disk) (state after : System) : Prop where
  order : ∀ addr, addr ∈ after.cache.order ↔ addr ∈ state.cache.order
  numbers : ∀ addr, (after.block addr).blockNo = (state.block addr).blockNo
  pins : ∀ addr, (after.block addr).pinned = (state.block addr).pinned
  data : ∀ addr, (after.block addr).data = (state.block addr).data
  disk : ∀ blockNo, blockNo ≠ sblock.headerBlock → after.disk blockNo = state.disk blockNo
  content : contentIn start after.history = contentIn start state.history
  lent : ∀ addr, state.Lent addr → after.Lent addr
  dirty : after.dirty = state.dirty
  header : after.op.header = state.op.header

namespace Unaltered

variable (sblock : SuperBlock) (start : Disk) {state : System}

theorem of_op {op : OpState} (header : op.header = state.op.header) :
    Unaltered sblock start state { state with op := op } :=
  ⟨fun _ => Iff.rfl, fun _ => rfl, fun _ => rfl, fun _ => rfl, fun _ _ => rfl, rfl, fun _ => id,
    rfl, header⟩

theorem goto (thread : Tid) (next : Place) :
    Unaltered sblock start state (state.goto thread next) :=
  ⟨fun _ => Iff.rfl, fun _ => rfl, fun _ => rfl, fun _ => rfl, fun _ _ => rfl, rfl, fun _ => id,
    rfl, rfl⟩

theorem setBlock {addr : Addr} {block : Block}
    (number : block.blockNo = (state.block addr).blockNo)
    (pinned : block.pinned = (state.block addr).pinned)
    (data : block.data = (state.block addr).data) :
    Unaltered sblock start state (state.setBlock addr block) :=
  ⟨fun _ => Iff.rfl, System.setBlock_keeps Block.blockNo number,
    System.setBlock_keeps Block.pinned pinned, System.setBlock_keeps Block.data data,
    fun _ _ => rfl, rfl, fun _ => id, rfl, rfl⟩

theorem writeHeader (data : BlockData) :
    Unaltered sblock start state (state.write sblock.headerBlock data) :=
  ⟨fun _ => Iff.rfl, fun _ => rfl, fun _ => rfl, fun _ => rfl,
    fun _ elsewhere => Function.update_of_ne elsewhere _ _, rfl, fun _ => id, rfl, rfl⟩

theorem grant (state : System) (thread : Tid) (use : Use) (blockNo : BlockNo) (addr : Addr) :
    Unaltered sblock start state (state.grant thread use blockNo addr) := by
  have lent : ∀ hold : Hold, ∀ node, state.Lent node →
      ∃ other ∈ hold :: state.held, other.inner = false ∧ other.addr = node := by
    rintro hold node ⟨other, member, outer, same⟩
    exact ⟨other, List.mem_cons_of_mem hold member, outer, same⟩
  cases use with
  | caller =>
      exact ⟨fun _ => Iff.rfl, fun _ => rfl, fun _ => rfl, fun _ => rfl, fun _ _ => rfl,
        contentIn_returned _ _ _ _ _, lent _, rfl, rfl⟩
  | source round =>
      exact ⟨fun _ => Iff.rfl, fun _ => rfl, fun _ => rfl, fun _ => rfl, fun _ _ => rfl, rfl,
        lent _, rfl, rfl⟩
  | target round src =>
      exact ⟨fun _ => Iff.rfl, fun _ => rfl, fun _ => rfl, fun _ => rfl, fun _ _ => rfl, rfl,
        lent _, rfl, rfl⟩

variable {sblock start} {after last : System}

theorem trans (first : Unaltered sblock start state after)
    (second : Unaltered sblock start after last) : Unaltered sblock start state last := by
  constructor
  · exact fun addr => (second.order addr).trans (first.order addr)
  · exact fun addr => (second.numbers addr).trans (first.numbers addr)
  · exact fun addr => (second.pins addr).trans (first.pins addr)
  · exact fun addr => (second.data addr).trans (first.data addr)
  · exact fun blockNo elsewhere => (second.disk blockNo elsewhere).trans (first.disk blockNo elsewhere)
  · exact second.content.trans first.content
  · exact fun addr lent => second.lent addr (first.lent addr lent)
  · exact second.dirty.trans first.dirty
  · exact second.header.trans first.header

end Unaltered

theorem System.writing_iff {state after : System} {thread : Tid} {next : Place}
    (place : after.place = Function.update state.place thread next)
    (before : ∀ round src dst, state.place thread ≠ .writing round src dst)
    (leaves : ∀ round src dst, next ≠ .writing round src dst) :
    ∀ other round src dst, after.place other = .writing round src dst ↔
      state.place other = .writing round src dst := by
  intro other round src dst
  rw [place]
  by_cases mover : other = thread
  · rw [mover, Function.update_self]
    exact iff_of_false (leaves round src dst) (before round src dst)
  · rw [Function.update_of_ne mover]

theorem System.logged_le_of_move {state after : System} {thread : Tid} {next : Place}
    {numBlocks : Nat} (place : after.place = Function.update state.place thread next)
    (round : next.logged numBlocks ≤ (state.place thread).logged numBlocks) (other : Tid) :
    (after.place other).logged numBlocks ≤ (state.place other).logged numBlocks := by
  rw [place]
  by_cases mover : other = thread
  · rw [mover, Function.update_self]
    exact round
  · rw [Function.update_of_ne mover]

theorem System.spares_pinned {state : System} {addr : Addr}
    (pin : (state.block addr).pinned = true) : state.cache.Spares addr := by
  left
  change (!(state.block addr).pinned && _) = false
  rw [pin]
  rfl

/-! ### Coherence -/

namespace Coherent

variable {sblock : SuperBlock} {start : Disk} {state after : System} {thread : Tid}

/-- A step that alters no block, while no thread gets further with its round or begins to
write. -/
theorem carry (coherent : Coherent sblock start state)
    (same : Unaltered sblock start state after)
    (rounds : ∀ thread, (after.place thread).logged state.op.header.numBlocks ≤
      (state.place thread).logged state.op.header.numBlocks)
    (moves : ∀ thread round src dst, state.place thread = .writing round src dst →
      after.place thread = .writing round src dst)
    (copied : ∀ thread round src dst, after.place thread = .writing round src dst →
      (state.block dst).data = (state.block src).data) : Coherent sblock start after := by
  obtain ⟨order, numbers, pins, data, disk, content, lent, dirty, header⟩ := same
  have away : ∀ blockNo, ¬sblock.InLog blockNo → after.disk blockNo = state.disk blockNo := by
    intro blockNo outside
    apply disk
    intro same
    subst same
    exact outside sblock.headerBlock_inLog
  constructor
  · intro addr member outside unlent
    rw [numbers] at outside ⊢
    rw [data, content]
    exact coherent.settled addr ((order addr).mp member) outside
      (fun before => unlent (lent addr before))
  · intro addr set
    rw [dirty] at set
    exact lent addr (coherent.dirtied addr set)
  · intro addr member outside unpinned clean
    rw [numbers] at outside ⊢
    rw [pins] at unpinned
    rw [dirty] at clean
    rw [data, away _ outside]
    exact coherent.clean addr ((order addr).mp member) outside unpinned clean
  · intro blockNo outside absent
    rw [away _ outside, content]
    apply coherent.stored blockNo outside
    intro addr member
    rw [← numbers]
    exact absent addr ((order addr).mpr member)
  · intro blockNo listed
    rw [header] at listed
    obtain ⟨addr, member, number, pinned⟩ := coherent.pinned blockNo listed
    exact ⟨addr, (order addr).mpr member, (numbers addr).trans number, (pins addr).trans pinned⟩
  · intro addr member index bound number
    rw [numbers] at number
    rw [data, disk _ (sblock.logBlock_ne_headerBlock bound)]
    rcases coherent.mirrored addr ((order addr).mp member) index bound number with
      ⟨thread, round, src, located⟩ | same
    · exact Or.inl ⟨thread, round, src, moves _ _ _ _ located⟩
    · exact Or.inr same
  · intro thread index logged bound
    rw [header] at logged
    obtain ⟨onDisk, cached⟩ := coherent.logged thread index
      (Nat.lt_of_lt_of_le logged (rounds thread)) bound
    unfold System.Saved
    rw [header, content, disk _ (sblock.logBlock_ne_headerBlock bound)]
    constructor
    · exact onDisk
    · intro addr member number
      rw [numbers] at number
      rw [data]
      exact cached addr ((order addr).mp member) number
  · intro thread round src dst located
    rw [data, data]
    exact copied thread round src dst located

theorem walked (coherent : Coherent sblock start state) (thread : Tid) (next : Place)
    (same : Unaltered sblock start state after)
    (place : after.place = Function.update state.place thread next)
    (round : next.logged state.op.header.numBlocks ≤
      (state.place thread).logged state.op.header.numBlocks)
    (before : ∀ round src dst, state.place thread ≠ .writing round src dst)
    (leaves : ∀ round src dst, next ≠ .writing round src dst) : Coherent sblock start after := by
  have writing := System.writing_iff place before leaves
  apply coherent.carry same (System.logged_le_of_move place round)
  · intro other round src dst located
    exact (writing other round src dst).mpr located
  · intro other round src dst located
    exact coherent.copied other round src dst ((writing other round src dst).mp located)

theorem granted (coherent : Coherent sblock start state) {use : Use} {blockNo : BlockNo}
    {addr : Addr} (waits : state.place thread = .locking use blockNo addr ∨
      state.place thread = .asleep use blockNo addr) :
    Coherent sblock start (state.grant thread use blockNo addr) := by
  have before : ∀ round src dst, state.place thread ≠ .writing round src dst := by
    intro round src dst located
    rcases waits with waits | waits
    · rw [waits] at located
      cases located
    · rw [waits] at located
      cases located
  have rounds : (state.place thread).logged state.op.header.numBlocks =
      use.logged state.op.header.numBlocks := by
    rcases waits with waits | waits
    · rw [waits]
      rfl
    · rw [waits]
      rfl
  have same := Unaltered.grant sblock start state thread use blockNo addr
  cases use with
  | caller =>
      apply coherent.walked thread .outside same
      · rfl
      · exact Nat.zero_le _
      · exact before
      · exact fun _ _ _ => nofun
  | source round =>
      apply coherent.walked thread (.second round addr) same
      · rfl
      · exact Nat.le_of_eq rounds.symm
      · exact before
      · exact fun _ _ _ => nofun
  | target round src =>
      apply coherent.walked thread (.copying round src addr) same
      · rfl
      · exact Nat.le_of_eq rounds.symm
      · exact before
      · exact fun _ _ _ => nofun

theorem relocked (coherent : Coherent sblock start state) (addr : Addr) (lock : Semaphore) :
    Coherent sblock start (state.setBlock addr { state.block addr with lock := lock }) := by
  refine coherent.carry (Unaltered.setBlock sblock start rfl rfl rfl) ?_ ?_ ?_
  · exact fun _ => Nat.le_refl _
  · exact fun _ _ _ _ => id
  · exact coherent.copied

/-- A caller stores to a block under a running operation. -/
theorem wrote (coherent : Coherent sblock start state) (orderly : Orderly sblock state)
    {hold : Hold} {ctx : CtxId} (data : BlockData) (member : hold ∈ state.held)
    (outer : hold.inner = false) (running : state.op.phase ctx = .running)
    (outside : ¬sblock.InLog hold.blockNo) :
    Coherent sblock start
      { state.setBlock hold.addr { state.block hold.addr with data := data } with
        dirty := Function.update state.dirty hold.addr (some ctx) } := by
  have quiet := orderly.engaged.not_inner running
  have lent : state.Lent hold.addr := ⟨hold, member, outer, rfl⟩
  have others : ∀ other, other ≠ hold.addr → (state.setBlock hold.addr
      { state.block hold.addr with data := data }).block other = state.block other := by
    intro other different
    rw [System.setBlock_block, if_neg different]
  have numbers : ∀ other, ((state.setBlock hold.addr
      { state.block hold.addr with data := data }).block other).blockNo =
        (state.block other).blockNo := System.setBlock_keeps Block.blockNo rfl
  constructor
  · intro addr present outside' unlent
    have different : addr ≠ hold.addr := by
      intro same
      subst same
      exact unlent lent
    change ((state.setBlock hold.addr _).block addr).data = contentIn start state.history
      ((state.setBlock hold.addr _).block addr).blockNo
    change ¬sblock.InLog ((state.setBlock hold.addr _).block addr).blockNo at outside'
    rw [others addr different] at outside' ⊢
    exact coherent.settled addr present outside' unlent
  · intro addr set
    by_cases same : addr = hold.addr
    · rw [same]
      exact lent
    · change Function.update state.dirty hold.addr (some ctx) addr ≠ none at set
      rw [Function.update_of_ne same] at set
      exact coherent.dirtied addr set
  · intro addr present outside' unpinned clean
    change Function.update state.dirty hold.addr (some ctx) addr = none at clean
    have different : addr ≠ hold.addr := by
      intro same
      subst same
      rw [Function.update_self] at clean
      cases clean
    rw [Function.update_of_ne different] at clean
    change ((state.setBlock hold.addr _).block addr).data = state.disk
      ((state.setBlock hold.addr _).block addr).blockNo
    change ¬sblock.InLog ((state.setBlock hold.addr _).block addr).blockNo at outside'
    change ((state.setBlock hold.addr _).block addr).pinned = false at unpinned
    rw [others addr different] at outside' unpinned ⊢
    exact coherent.clean addr present outside' unpinned clean
  · intro blockNo outside' absent
    apply coherent.stored blockNo outside'
    intro addr present
    rw [← numbers]
    exact absent addr present
  · intro blockNo listed
    obtain ⟨addr, present, number, pinned⟩ := coherent.pinned blockNo listed
    have pins : ∀ other, ((state.setBlock hold.addr { state.block hold.addr with
        data := data }).block other).pinned = (state.block other).pinned :=
      System.setBlock_keeps Block.pinned rfl
    exact ⟨addr, present, (numbers addr).trans number, (pins addr).trans pinned⟩
  · intro addr present index bound number
    have different : addr ≠ hold.addr := by
      intro same
      subst same
      apply outside
      rw [← orderly.number member, ← numbers]
      exact number ▸ sblock.logBlock_inLog bound
    change (∃ thread round src, state.place thread = .writing round src addr) ∨
      ((state.setBlock hold.addr _).block addr).data = state.disk (sblock.logBlock index)
    change ((state.setBlock hold.addr _).block addr).blockNo = _ at number
    rw [others addr different] at number ⊢
    exact coherent.mirrored addr present index bound number
  · intro thread index logged bound
    exact absurd (Place.inner_of_logged logged) (quiet thread)
  · intro thread round src dst located
    refine absurd ?_ (quiet thread)
    change state.place thread = _ at located
    rw [located]
    trivial

theorem pins (coherent : Coherent sblock start state) (orderly : Orderly sblock state)
    {hold : Hold} (member : hold ∈ state.held) :
    ((state.block hold.addr).pinned || decide (state.op.header.search
      (state.block hold.addr).blockNo = state.op.header.numBlocks)) = true := by
  rw [Bool.or_eq_true, decide_eq_true_iff]
  rcases Nat.lt_or_eq_of_le (LogHeader.search_le state.op.header
    (state.block hold.addr).blockNo) with within | absent
  · left
    have bound := Nat.lt_of_lt_of_le within orderly.engaged.fits
    have listed := LogHeader.lists_entry within (SuperBlock.tail_within bound).2
    rw [LogHeader.entry_search within] at listed
    obtain ⟨addr, present, number, pinned⟩ := coherent.pinned _ listed
    rw [← orderly.wellFormed.unique addr present hold.addr (orderly.cached member) number]
    exact pinned
  · exact Or.inr absent

/-- A caller syncs a block: it is pinned now, and its number is listed. -/
theorem synced (coherent : Coherent sblock start state) (orderly : Orderly sblock state)
    {hold : Hold} {ctx : CtxId} (member : hold ∈ state.held)
    (taken : opStep state.op (.sync hold.thread ctx (state.block hold.addr).blockNo) =
      .ok after.op)
    (order : after.cache.order = state.cache.order)
    (numbers : ∀ addr, (after.block addr).blockNo = (state.block addr).blockNo)
    (data : ∀ addr, (after.block addr).data = (state.block addr).data)
    (others : ∀ addr, addr ≠ hold.addr → after.block addr = state.block addr)
    (pinned : (after.block hold.addr).pinned = true)
    (disk : after.disk = state.disk) (history : after.history = state.history)
    (place : after.place = state.place) (held : after.held = state.held)
    (dirty : ∀ addr, after.dirty addr ≠ none → state.dirty addr ≠ none)
    (kept : ∀ addr, addr ≠ hold.addr → after.dirty addr = state.dirty addr) :
    Coherent sblock start after := by
  obtain ⟨_, running, synced, paid, same⟩ := OpState.sync_ok taken
  have quiet := orderly.engaged.not_inner running
  have header : after.op.header = synced.header := by rw [same]; rfl
  have lent : ∀ addr, after.Lent addr ↔ state.Lent addr := by
    intro addr
    unfold System.Lent
    rw [held]
  have present := orderly.cached member
  constructor
  · intro addr cached outside unlent
    rw [order] at cached
    rw [numbers] at outside ⊢
    rw [data, history]
    exact coherent.settled addr cached outside (fun before => unlent ((lent addr).mpr before))
  · intro addr set
    exact (lent addr).mpr (coherent.dirtied addr (dirty addr set))
  · intro addr cached outside unpinned clean
    have different : addr ≠ hold.addr := by
      intro same
      subst same
      rw [pinned] at unpinned
      cases unpinned
    rw [order] at cached
    rw [kept addr different] at clean
    rw [disk]
    rw [others addr different] at outside unpinned ⊢
    exact coherent.clean addr cached outside unpinned clean
  · intro blockNo outside absent
    rw [disk, history]
    apply coherent.stored blockNo outside
    intro addr cached
    rw [← numbers]
    exact absent addr (order ▸ cached)
  · intro blockNo listed
    rw [order]
    have already : state.op.header.Lists blockNo ∨ blockNo = (state.block hold.addr).blockNo := by
      rw [header] at listed
      obtain ⟨_, _, ⟨_, rfl⟩ | ⟨_, slot, _, rfl⟩⟩ := cacheSync_ok paid
      · exact Or.inl listed
      · exact (LogHeader.lists_push slot).mp listed
    rcases already with before | new
    · obtain ⟨addr, cached, number, pin⟩ := coherent.pinned blockNo before
      refine ⟨addr, cached, (numbers addr).trans number, ?_⟩
      by_cases here : addr = hold.addr
      · rw [here]
        exact pinned
      · rw [others addr here]
        exact pin
    · exact ⟨hold.addr, present, (numbers hold.addr).trans new.symm, pinned⟩
  · intro addr cached index bound number
    rw [order] at cached
    rw [numbers] at number
    rw [place, data, disk]
    exact coherent.mirrored addr cached index bound number
  · intro thread index logged bound
    rw [place] at logged
    exact absurd (Place.inner_of_logged logged) (quiet thread)
  · intro thread round src dst located
    rw [place] at located
    rw [data, data]
    exact coherent.copied thread round src dst located

theorem flushed (coherent : Coherent sblock start state) (orderly : Orderly sblock state)
    {hold : Hold} (member : hold ∈ state.held) (outside : ¬sblock.InLog hold.blockNo) :
    Coherent sblock start
      (state.write (state.block hold.addr).blockNo (state.block hold.addr).data) := by
  have here := orderly.number member
  rw [here]
  have disk : ∀ blockNo, blockNo ≠ hold.blockNo →
      (state.write hold.blockNo (state.block hold.addr).data).disk blockNo = state.disk blockNo :=
    fun blockNo different => Function.update_of_ne different _ _
  have slots : ∀ index < sblock.logMx, sblock.logBlock index ≠ hold.blockNo := by
    rintro index bound same
    exact outside (same ▸ sblock.logBlock_inLog bound)
  constructor
  · exact coherent.settled
  · exact coherent.dirtied
  · intro addr present away unpinned clean
    change (state.block addr).data = (state.write _ _).disk (state.block addr).blockNo
    by_cases same : (state.block addr).blockNo = hold.blockNo
    · rw [same, orderly.same_node member present same]
      exact (Function.update_self hold.blockNo _ state.disk).symm
    · rw [disk _ same]
      exact coherent.clean addr present away unpinned clean
  · intro blockNo away absent
    rw [disk]
    · exact coherent.stored blockNo away absent
    · intro same
      subst same
      exact absent hold.addr (orderly.cached member) here
  · exact coherent.pinned
  · intro addr present index bound number
    rw [disk _ (slots index bound)]
    exact coherent.mirrored addr present index bound number
  · intro thread index logged bound
    obtain ⟨onDisk, cached⟩ := coherent.logged thread index logged bound
    refine ⟨?_, cached⟩
    rw [disk _ (slots index bound)]
    exact onDisk
  · exact coherent.copied

/-- A caller passes a block to `cache_release`; what it holds is the content from now on. -/
theorem released (coherent : Coherent sblock start state) (orderly : Orderly sblock state)
    {hold : Hold} (member : hold ∈ state.held) (clean : state.dirty hold.addr = none)
    (outside : state.place hold.thread = .outside) :
    Coherent sblock start
      ((state.drop hold.thread .caller hold.addr (state.held.erase hold)).record
        (.released hold.thread hold.blockNo (state.block hold.addr).data)) := by
  obtain ⟨owner, locks⟩ := orderly.locks
  generalize same : (state.drop hold.thread .caller hold.addr (state.held.erase hold)).record
    (.released hold.thread hold.blockNo (state.block hold.addr).data) = after
  have content : contentIn start after.history = Function.update
      (contentIn start state.history) hold.blockNo (state.block hold.addr).data := by
    rw [← same]
    exact contentIn_released _ _ _ _ _
  have numbers : ∀ addr, (after.block addr).blockNo = (state.block addr).blockNo := by
    rw [← same]
    exact System.setBlock_keeps Block.blockNo rfl
  have pins : ∀ addr, (after.block addr).pinned = (state.block addr).pinned := by
    rw [← same]
    exact System.setBlock_keeps Block.pinned rfl
  have data : ∀ addr, (after.block addr).data = (state.block addr).data := by
    rw [← same]
    exact System.setBlock_keeps Block.data rfl
  have order : after.cache.order = state.cache.order := by rw [← same]; rfl
  have dirty : after.dirty = state.dirty := by rw [← same]; rfl
  have disk : after.disk = state.disk := by rw [← same]; rfl
  have header : after.op.header = state.op.header := by rw [← same]; rfl
  have held : after.held = state.held.erase hold := by rw [← same]; rfl
  have place : after.place =
      Function.update state.place hold.thread (.unlocking .caller hold.addr) := by
    rw [← same]
    rfl
  have lent : ∀ addr, state.Lent addr → addr ≠ hold.addr → after.Lent addr := by
    rintro addr ⟨other, present, outer, rfl⟩ different
    refine ⟨other, ?_, outer, rfl⟩
    rw [held]
    refine (List.mem_erase_of_ne ?_).mpr present
    intro same
    subst same
    exact different rfl
  have places := System.writing_iff place (by rw [outside]; exact nofun) (fun _ _ _ => nofun)
  constructor
  · intro addr present away unlent
    rw [order] at present
    rw [numbers] at away ⊢
    rw [data, content]
    by_cases here : addr = hold.addr
    · rw [here, orderly.number member, Function.update_self]
    · rw [Function.update_of_ne (fun number => here (orderly.same_node member present number))]
      exact coherent.settled addr present away (fun before => unlent (lent addr before here))
  · intro addr set
    rw [dirty] at set
    apply lent addr (coherent.dirtied addr set)
    intro same
    subst same
    exact set clean
  · intro addr present away unpinned undirtied
    rw [order] at present
    rw [numbers] at away ⊢
    rw [pins] at unpinned
    rw [dirty] at undirtied
    rw [data, disk]
    exact coherent.clean addr present away unpinned undirtied
  · intro blockNo away absent
    simp only [order, numbers] at absent
    have different : blockNo ≠ hold.blockNo := by
      intro same
      subst same
      exact absent hold.addr (orderly.cached member) (orderly.number member)
    rw [disk, content, Function.update_of_ne different]
    exact coherent.stored blockNo away absent
  · intro blockNo listed
    rw [header] at listed
    obtain ⟨addr, present, number, pinned⟩ := coherent.pinned blockNo listed
    exact ⟨addr, order ▸ present, (numbers addr).trans number, (pins addr).trans pinned⟩
  · intro addr present index bound number
    rw [order] at present
    rw [numbers] at number
    rw [data, disk]
    simp only [places]
    exact coherent.mirrored addr present index bound number
  · intro thread index logged bound
    rw [header, place] at logged
    have mover : thread ≠ hold.thread := by
      intro same
      subst same
      rw [Function.update_self] at logged
      cases logged
    rw [Function.update_of_ne mover] at logged
    obtain ⟨onDisk, cached⟩ := coherent.logged thread index logged bound
    -- Nothing was stored to a saved block while it was lent.
    have unchanged : contentIn start after.history (state.op.header.entry index) =
        contentIn start state.history (state.op.header.entry index) := by
      rw [content]
      by_cases here : state.op.header.entry index = hold.blockNo
      · rw [here, Function.update_self, ← here]
        exact cached hold.addr (orderly.cached member) ((orderly.number member).trans here.symm)
      · rw [Function.update_of_ne here]
    unfold System.Saved
    rw [header, disk, unchanged, order]
    constructor
    · exact onDisk
    · intro addr present number
      rw [numbers] at number
      rw [data]
      exact cached addr present number
  · intro thread round src dst located
    rw [data, data]
    exact coherent.copied thread round src dst ((places thread round src dst).mp located)

theorem writing_unique (orderly : Orderly sblock state) {other : Tid} {round : Round}
    {src dst : Addr} (inner : (state.place thread).Inner)
    (located : state.place other = .writing round src dst) : other = thread := by
  refine orderly.engaged.inner_unique ?_ inner
  rw [located]
  trivial

/-- `memmove` in a round of `write_log`: the slot of the log is behind in memory until it is
written. -/
theorem copied_out (coherent : Coherent sblock start state) (orderly : Orderly sblock state)
    {round : Round} {src dst : Addr} (located : state.place thread = .copying round src dst)
    (logging : round.installing = false) :
    Coherent sblock start ((state.setBlock dst
      { state.block dst with data := (state.block src).data }).goto thread
        (.writing round src dst)) := by
  have proper := orderly.engaged.proper thread
  rw [located] at proper
  obtain ⟨runs, source, target⟩ := proper
  obtain ⟨bound, away, inLog⟩ := orderly.round_bounds runs
  have srcNumber := orderly.number source
  have dstNumber := orderly.number target
  simp only [Round.source, Round.target, logging, Bool.false_eq_true, if_false] at srcNumber dstNumber
  have inner : (state.place thread).Inner := by
    rw [located]
    trivial
  have distinct : src ≠ dst := by
    intro same
    subst same
    rw [srcNumber] at dstNumber
    exact away (dstNumber ▸ inLog)
  generalize same : (state.setBlock dst
    { state.block dst with data := (state.block src).data }).goto thread
      (.writing round src dst) = after
  have others : ∀ addr, addr ≠ dst → after.block addr = state.block addr := by
    intro addr different
    rw [← same]
    exact Function.update_of_ne different _ _
  have numbers : ∀ addr, (after.block addr).blockNo = (state.block addr).blockNo := by
    rw [← same]
    exact System.setBlock_keeps Block.blockNo rfl
  have pins : ∀ addr, (after.block addr).pinned = (state.block addr).pinned := by
    rw [← same]
    exact System.setBlock_keeps Block.pinned rfl
  have here : (after.block dst).data = (state.block src).data := by
    rw [← same]
    change ((state.setBlock dst _).block dst).data = _
    rw [System.setBlock_block, if_pos rfl]
  have frame : after.cache.order = state.cache.order ∧ after.dirty = state.dirty ∧
      after.disk = state.disk ∧ after.op = state.op ∧ after.held = state.held ∧
      after.history = state.history ∧
      after.place = Function.update state.place thread (.writing round src dst) := by
    rw [← same]
    exact ⟨rfl, rfl, rfl, rfl, rfl, rfl, rfl⟩
  obtain ⟨order, dirty, disk, op, held, history, place⟩ := frame
  have outside : ∀ addr, ¬sblock.InLog (state.block addr).blockNo → addr ≠ dst := by
    rintro addr elsewhere rfl
    rw [dstNumber] at elsewhere
    exact elsewhere inLog
  have lent : ∀ addr, after.Lent addr ↔ state.Lent addr := by
    intro addr
    unfold System.Lent
    rw [held]
  constructor
  · intro addr present elsewhere unlent
    rw [numbers] at elsewhere ⊢
    rw [order] at present
    rw [others addr (outside addr elsewhere), history]
    exact coherent.settled addr present elsewhere (fun before => unlent ((lent addr).mpr before))
  · intro addr set
    rw [dirty] at set
    exact (lent addr).mpr (coherent.dirtied addr set)
  · intro addr present elsewhere unpinned clean
    rw [numbers] at elsewhere ⊢
    rw [order] at present
    rw [pins] at unpinned
    rw [dirty] at clean
    rw [others addr (outside addr elsewhere), disk]
    exact coherent.clean addr present elsewhere unpinned clean
  · intro blockNo elsewhere absent
    simp only [order, numbers] at absent
    rw [disk, history]
    exact coherent.stored blockNo elsewhere absent
  · intro blockNo listed
    rw [op] at listed
    obtain ⟨addr, present, number, pinned⟩ := coherent.pinned blockNo listed
    exact ⟨addr, order ▸ present, (numbers addr).trans number, (pins addr).trans pinned⟩
  · intro addr present index bound number
    rw [order] at present
    rw [numbers] at number
    by_cases slot : addr = dst
    · refine Or.inl ⟨thread, round, src, ?_⟩
      rw [place, Function.update_self, slot]
    · rw [others addr slot, disk]
      apply (coherent.mirrored addr present index bound number).imp_left
      rintro ⟨other, round', src', writing⟩
      rw [writing_unique orderly inner writing, located] at writing
      cases writing
  · intro other index logged bound
    rw [op] at logged
    have before : index < (state.place other).logged state.op.header.numBlocks := by
      refine Nat.lt_of_lt_of_le logged (System.logged_le_of_move place ?_ other)
      rw [located]
      exact Nat.le_refl _
    obtain ⟨onDisk, cached⟩ := coherent.logged other index before bound
    unfold System.Saved
    rw [op, disk, history, order]
    constructor
    · exact onDisk
    · intro addr present number
      rw [numbers] at number
      have elsewhere : addr ≠ dst := by
        apply outside
        rw [number]
        exact orderly.engaged.outside _ (orderly.lists_logged before)
      rw [others addr elsewhere]
      exact cached addr present number
  · intro other round' src' dst' writing
    rw [place] at writing
    by_cases mover : other = thread
    · rw [mover, Function.update_self] at writing
      cases writing
      rw [here, others src distinct]
    · rw [Function.update_of_ne mover] at writing
      exact absurd (writing_unique orderly inner writing) mover

/-- `memmove` in a round of `install_trans`: both blocks had the content of the entry. -/
theorem copied_in (coherent : Coherent sblock start state) (orderly : Orderly sblock state)
    {round : Round} {src dst : Addr} (located : state.place thread = .copying round src dst)
    (installing : round.installing = true) :
    Coherent sblock start ((state.setBlock dst
      { state.block dst with data := (state.block src).data }).goto thread
        (.writing round src dst)) := by
  have proper := orderly.engaged.proper thread
  rw [located] at proper
  obtain ⟨runs, source, target⟩ := proper
  obtain ⟨bound, _, _⟩ := orderly.round_bounds runs
  have srcNumber := orderly.number source
  have dstNumber := orderly.number target
  simp only [Round.source, Round.target, installing, if_true] at srcNumber dstNumber
  have inner : (state.place thread).Inner := by
    rw [located]
    trivial
  have saved := coherent.logged thread round.tail (by
    rw [located]
    change round.tail < round.logged _
    unfold Round.logged
    rw [installing, if_pos rfl]
    exact runs.2) bound
  have mirrored : (state.block src).data = state.disk (sblock.logBlock round.tail) := by
    apply (coherent.mirrored src (orderly.cached source) round.tail bound srcNumber).resolve_left
    rintro ⟨other, round', src', writing⟩
    rw [writing_unique orderly inner writing, located] at writing
    cases writing
  have equal : (state.block src).data = (state.block dst).data := by
    rw [mirrored, saved.1]
    exact (saved.2 dst (orderly.cached target) dstNumber).symm
  have stored : Unaltered sblock start state
      (state.setBlock dst { state.block dst with data := (state.block src).data }) :=
    Unaltered.setBlock sblock start rfl rfl equal
  apply coherent.carry (stored.trans (Unaltered.goto sblock start thread _))
  · apply System.logged_le_of_move rfl
    rw [located]
    exact Nat.le_refl _
  · intro other round' src' dst' writing
    rw [writing_unique orderly inner writing, located] at writing
    cases writing
  · intro other round' src' dst' writing
    change Function.update state.place thread _ other = _ at writing
    by_cases mover : other = thread
    · rw [mover, Function.update_self] at writing
      cases writing
      exact equal.symm
    · rw [Function.update_of_ne mover] at writing
      exact coherent.copied other round' src' dst' writing

theorem saves (coherent : Coherent sblock start state) (orderly : Orderly sblock state)
    {round : Round} {src dst : Addr} {index : Nat}
    (located : state.place thread = .writing round src dst) (small : index < sblock.logMx)
    (logged : index < round.next.logged state.op.header.numBlocks) :
    Function.update state.disk (state.block dst).blockNo (state.block dst).data
        (sblock.logBlock index) = contentIn start state.history (state.op.header.entry index) ∧
      ∀ addr ∈ state.cache.order, (state.block addr).blockNo = state.op.header.entry index →
        (state.block addr).data = contentIn start state.history (state.op.header.entry index) := by
  have proper := orderly.engaged.proper thread
  rw [located] at proper
  obtain ⟨runs, source, target⟩ := proper
  obtain ⟨bound, away, inLog⟩ := orderly.round_bounds runs
  have srcNumber := orderly.number source
  have dstNumber := orderly.number target
  have earlier : index < round.logged state.op.header.numBlocks →
      state.Saved sblock (contentIn start state.history) index := by
    intro before
    apply coherent.logged thread index _ small
    rw [located]
    exact before
  unfold Round.logged at logged earlier
  change index < if round.installing = true then _ else round.tail + 1 at logged
  cases installing : round.installing with
  | true =>
      rw [installing, if_pos rfl] at logged
      simp only [installing, if_true] at earlier
      simp only [Round.target, installing, if_true] at dstNumber
      refine ⟨?_, (earlier logged).2⟩
      rw [Function.update_of_ne]
      · exact (earlier logged).1
      · rw [dstNumber]
        intro equal
        exact away (equal ▸ sblock.logBlock_inLog small)
  | false =>
      simp only [installing, Bool.false_eq_true, if_false] at logged earlier
      simp only [Round.source, Round.target, installing, Bool.false_eq_true, if_false]
        at srcNumber dstNumber
      have settled := coherent.settled src (orderly.cached source) (by rw [srcNumber]; exact away)
        (orderly.not_lent source rfl)
      rw [srcNumber] at settled
      by_cases last : index = round.tail
      · subst last
        constructor
        · rw [dstNumber, Function.update_self, coherent.copied thread round src dst located]
          exact settled
        · intro addr present number
          have node := orderly.wellFormed.unique addr present src (orderly.cached source)
            (number.trans srcNumber.symm)
          rw [node]
          exact settled
      · have saved := earlier (by omega)
        refine ⟨?_, saved.2⟩
        rw [dstNumber, Function.update_of_ne]
        · exact saved.1
        · intro equal
          exact last (SuperBlock.logBlock_injective small bound equal)

theorem written (coherent : Coherent sblock start state) (orderly : Orderly sblock state)
    {round : Round} {src dst : Addr} (located : state.place thread = .writing round src dst) :
    Coherent sblock start ((state.write (state.block dst).blockNo (state.block dst).data).goto
      thread (.releasing round src dst)) := by
  have proper := orderly.engaged.proper thread
  rw [located] at proper
  obtain ⟨runs, source, target⟩ := proper
  obtain ⟨bound, away, inLog⟩ := orderly.round_bounds runs
  have inner : (state.place thread).Inner := by
    rw [located]
    trivial
  generalize same : (state.write (state.block dst).blockNo (state.block dst).data).goto
    thread (.releasing round src dst) = after
  have frame : after.cache = state.cache ∧ after.dirty = state.dirty ∧
      after.disk = Function.update state.disk (state.block dst).blockNo (state.block dst).data ∧
      after.op = state.op ∧ after.held = state.held ∧ after.history = state.history ∧
      after.place = Function.update state.place thread (.releasing round src dst) := by
    rw [← same]
    exact ⟨rfl, rfl, rfl, rfl, rfl, rfl, rfl⟩
  obtain ⟨cache, dirty, disk, op, held, history, place⟩ := frame
  have blocks : after.block = state.block := by
    unfold System.block
    rw [cache]
  have lent : after.Lent = state.Lent := by
    unfold System.Lent
    rw [held]
  constructor
  · rw [cache, blocks, lent, history]
    exact coherent.settled
  · rw [dirty, lent]
    exact coherent.dirtied
  · intro addr present elsewhere unpinned clean
    rw [cache] at present
    rw [blocks] at elsewhere unpinned ⊢
    rw [dirty] at clean
    rw [disk]
    by_cases number : (state.block addr).blockNo = (state.block dst).blockNo
    · rw [number, Function.update_self, orderly.wellFormed.unique addr present dst
        (orderly.cached target) number]
    · rw [Function.update_of_ne number]
      exact coherent.clean addr present elsewhere unpinned clean
  · intro blockNo elsewhere absent
    rw [cache, blocks] at absent
    rw [disk, history, Function.update_of_ne]
    · exact coherent.stored blockNo elsewhere absent
    · intro equal
      exact absent dst (orderly.cached target) equal.symm
  · rw [op, cache, blocks]
    exact coherent.pinned
  · intro addr present index small number
    right
    rw [cache] at present
    rw [blocks] at number ⊢
    rw [disk, ← number]
    by_cases slot : addr = dst
    · rw [slot, Function.update_self]
    · have elsewhere : (state.block addr).blockNo ≠ (state.block dst).blockNo :=
        fun equal => slot (orderly.wellFormed.unique addr present dst (orderly.cached target) equal)
      rw [Function.update_of_ne elsewhere, number]
      apply (coherent.mirrored addr present index small number).resolve_left
      rintro ⟨other, round', src', writing⟩
      rw [writing_unique orderly inner writing, located] at writing
      cases writing
      exact slot rfl
  · intro other index logged small
    rw [op, place] at logged
    unfold System.Saved
    rw [op, cache, blocks, history]
    by_cases mover : other = thread
    · rw [mover, Function.update_self] at logged
      rw [disk]
      exact coherent.saves orderly located small logged
    · rw [Function.update_of_ne mover] at logged
      exact absurd (orderly.engaged.inner_unique (Place.inner_of_logged logged) inner) mover
  · intro other round' src' dst' writing
    rw [place] at writing
    by_cases mover : other = thread
    · rw [mover, Function.update_self] at writing
      cases writing
    · rw [Function.update_of_ne mover] at writing
      exact absurd (writing_unique orderly inner writing) mover

theorem evicted (coherent : Coherent sblock start state) {addr : Addr}
    (member : addr ∈ state.cache.order) (outside : ¬sblock.InLog (state.block addr).blockNo)
    (unspared : ¬state.cache.Spares addr) (untouched : ¬state.Touches addr) :
    state.disk (state.block addr).blockNo =
      contentIn start state.history (state.block addr).blockNo := by
  have free : ¬state.Lent addr := by
    rintro ⟨hold, holds, _, rfl⟩
    exact untouched (Locks.touches_hold holds)
  have unpinned : (state.block addr).pinned = false := by
    rw [← Bool.not_eq_true]
    intro pin
    exact unspared (System.spares_pinned pin)
  have clean : state.dirty addr = none := by
    by_contra set
    exact free (coherent.dirtied addr set)
  rw [← coherent.clean addr member outside unpinned clean]
  exact coherent.settled addr member outside free

/-- The section of an acquire that misses: the new block is as on the device, and what is
evicted was there too. -/
theorem missed (coherent : Coherent sblock start state) (orderly : Orderly sblock state)
    {use : Use} {blockNo : BlockNo} {chunk : Addr} (missing : state.cache.find blockNo = none)
    (fresh : chunk ∉ state.cache.evict)
    (spares : ∀ addr, state.Touches addr → state.cache.Spares addr)
    (rounds : use.logged state.op.header.numBlocks ≤
      (state.place thread).logged state.op.header.numBlocks)
    (before : ∀ round src dst, state.place thread ≠ .writing round src dst)
    (cache : after.cache = (state.cache.acquireSection chunk blockNo state.disk).2)
    (place : after.place = Function.update state.place thread (.locking use blockNo chunk))
    (op : after.op = state.op) (disk : after.disk = state.disk) (held : after.held = state.held)
    (dirty : after.dirty = state.dirty) (history : after.history = state.history) :
    Coherent sblock start after := by
  have wellFormed := orderly.wellFormed
  have nodes : ∀ addr ∈ after.cache.order,
      (addr = chunk ∧ after.block addr = .loaded blockNo (state.disk blockNo)) ∨
        (addr ≠ chunk ∧ addr ∈ state.cache.evict ∧ after.block addr = state.block addr) := by
    intro addr member
    unfold System.block
    rw [cache] at member ⊢
    exact BlockCache.section_missed missing fresh member
  have kept : ∀ addr ∈ state.cache.order, state.cache.Spares addr →
      addr ∈ after.cache.order ∧ after.block addr = state.block addr := by
    intro addr member spared
    unfold System.block
    rw [cache]
    exact wellFormed.section_keeps state.disk fresh member (fun _ => spared)
  have lent : after.Lent = state.Lent := by
    unfold System.Lent
    rw [held]
  have older : ∀ addr ∈ state.cache.evict, addr ∈ state.cache.order :=
    fun addr member => state.cache.evict_sublist.subset member
  obtain ⟨owner, locks⟩ := orderly.locks
  have stays : ∀ addr, state.Touches addr → addr ∈ after.cache.order ∧
      after.block addr = state.block addr :=
    fun addr touched => kept addr (locks.touched_cached touched) (spares addr touched)
  have absent : ∀ addr ∈ state.cache.order, (state.block addr).blockNo ≠ blockNo :=
    fun addr member => BlockCache.find_none missing member
  have places := System.writing_iff place before (fun _ _ _ => nofun)
  constructor
  · intro addr member outside free
    rw [lent] at free
    rw [history]
    rcases nodes addr member with ⟨_, loaded⟩ | ⟨_, left, same⟩
    · rw [loaded] at outside ⊢
      exact coherent.stored blockNo outside absent
    · rw [same] at outside ⊢
      exact coherent.settled addr (older addr left) outside free
  · rw [dirty, lent]
    exact coherent.dirtied
  · intro addr member outside unpinned clean
    rw [dirty] at clean
    rw [disk]
    rcases nodes addr member with ⟨_, loaded⟩ | ⟨_, left, same⟩
    · rw [loaded]
      rfl
    · rw [same] at outside unpinned ⊢
      exact coherent.clean addr (older addr left) outside unpinned clean
  · intro other outside gone
    rw [disk, history]
    by_cases was : ∀ addr ∈ state.cache.order, (state.block addr).blockNo ≠ other
    · exact coherent.stored other outside was
    · simp only [not_forall, not_not] at was
      obtain ⟨addr, member, number⟩ := was
      have unspared : ¬state.cache.Spares addr := by
        intro spared
        obtain ⟨still, same⟩ := kept addr member spared
        exact gone addr still (same ▸ number)
      rw [← number] at outside ⊢
      exact coherent.evicted member outside unspared
        (fun touched => unspared (spares addr touched))
  · intro other listed
    rw [op] at listed
    obtain ⟨addr, member, number, pin⟩ := coherent.pinned other listed
    obtain ⟨still, same⟩ := kept addr member (System.spares_pinned pin)
    exact ⟨addr, still, same ▸ number, same ▸ pin⟩
  · intro addr member index bound number
    rw [disk]
    simp only [places]
    rcases nodes addr member with ⟨_, loaded⟩ | ⟨_, left, same⟩
    · right
      rw [loaded] at number ⊢
      change blockNo = _ at number
      rw [← number]
      rfl
    · rw [same] at number ⊢
      exact coherent.mirrored addr (older addr left) index bound number
  · intro other index logged bound
    rw [op] at logged
    have earlier : index < (state.place other).logged state.op.header.numBlocks :=
      Nat.lt_of_lt_of_le logged (System.logged_le_of_move place rounds other)
    obtain ⟨onDisk, cached⟩ := coherent.logged other index earlier bound
    unfold System.Saved
    rw [op, disk, history]
    constructor
    · exact onDisk
    · intro addr member number
      rcases nodes addr member with ⟨_, loaded⟩ | ⟨_, left, same⟩
      · obtain ⟨node, present, numbered, _⟩ := coherent.pinned _ (orderly.lists_logged earlier)
        rw [loaded] at number
        exact absurd (numbered.trans number.symm) (absent node present)
      · rw [same] at number ⊢
        exact cached addr (older addr left) number
  · intro other round src dst writing
    have located := (places other round src dst).mp writing
    have proper := orderly.engaged.proper other
    rw [located] at proper
    obtain ⟨_, source, target⟩ := proper
    rw [(stays dst (Locks.touches_hold target)).2, (stays src (Locks.touches_hold source)).2]
    exact coherent.copied other round src dst located

theorem sought (coherent : Coherent sblock start state) (orderly : Orderly sblock state)
    {use : Use} {blockNo : BlockNo} {chunk : Addr}
    (enters : state.Enters sblock thread use blockNo) (fresh : chunk ∉ state.cache.evict)
    (spares : state.cache.find blockNo = none →
      ∀ addr, state.Touches addr → state.cache.Spares addr) :
    Coherent sblock start ({ state with
      cache := (state.cache.acquireSection chunk blockNo state.disk).2 }.goto thread
        (.locking use blockNo (state.cache.acquireSection chunk blockNo state.disk).1)) := by
  have rounds : use.logged state.op.header.numBlocks ≤
      (state.place thread).logged state.op.header.numBlocks := by
    cases enters with
    | caller blockNo idle => exact Nat.zero_le _
    | source round located within =>
        rw [located]
        exact Nat.le_refl _
    | target round src located =>
        rw [located]
        exact Nat.le_refl _
  have before : ∀ round src dst, state.place thread ≠ .writing round src dst := by
    intro round src dst writing
    cases enters with
    | caller blockNo idle =>
        rw [idle.2] at writing
        cases writing
    | source round located within =>
        rw [located] at writing
        cases writing
    | target round src located =>
        rw [located] at writing
        cases writing
  cases found : state.cache.find blockNo with
  | some addr =>
      have wellFormed := orderly.wellFormed
      rcases (wellFormed.fetched blockNo state.disk fresh).outcome with
        ⟨_, heap, nodes⟩ | ⟨missing, _⟩
      · refine coherent.walked thread (.locking use blockNo _) ?_ rfl rounds before
          (fun _ _ _ => nofun)
        exact ⟨nodes, fun other => congrArg Block.blockNo (congrFun heap other),
          fun other => congrArg Block.pinned (congrFun heap other),
          fun other => congrArg Block.data (congrFun heap other), fun _ _ => rfl, rfl, fun _ => id,
          rfl, rfl⟩
      · rw [found] at missing
        cases missing
  | none =>
      apply coherent.missed orderly found fresh (spares found) rounds before
      · rfl
      · rw [BlockCache.acquireSection_miss found]
        rfl
      · rfl
      · rfl
      · rfl
      · rfl
      · rfl

/-- A commit ends: nothing is listed, and nobody is inside a commit. -/
theorem finished (coherent : Coherent sblock start state) (orderly : Orderly sblock state)
    (taken : opStep state.op (.commitReturn thread) = .ok after.op)
    (cache : after.cache = state.cache) (dirty : after.dirty = state.dirty)
    (disk : ∀ blockNo, blockNo ≠ sblock.headerBlock → after.disk blockNo = state.disk blockNo)
    (held : after.held = state.held) (history : after.history = state.history)
    (place : after.place = Function.update state.place thread .outside)
    (before : ∀ round src dst, state.place thread ≠ .writing round src dst) :
    Coherent sblock start after := by
  obtain ⟨ctx, commits, same⟩ := OpState.commitReturn_ok taken
  have alone : ∀ other, other ≠ thread → ¬(state.place other).Inner := by
    intro other different inner
    obtain ⟨ctx', commits'⟩ := orderly.engaged.commits_of_inner inner
    refine different (orderly.engaged.grouping.single other thread ?_ ?_)
    · rw [commits']
      trivial
    · rw [commits]
      trivial
  have blocks : after.block = state.block := by
    unfold System.block
    rw [cache]
  have lent : after.Lent = state.Lent := by
    unfold System.Lent
    rw [held]
  have away : ∀ blockNo, ¬sblock.InLog blockNo → after.disk blockNo = state.disk blockNo := by
    intro blockNo outside
    apply disk
    intro same
    subst same
    exact outside sblock.headerBlock_inLog
  constructor
  · rw [cache, blocks, lent, history]
    exact coherent.settled
  · rw [dirty, lent]
    exact coherent.dirtied
  · intro addr present elsewhere unpinned clean
    rw [cache] at present
    rw [blocks] at elsewhere unpinned ⊢
    rw [dirty] at clean
    rw [away _ elsewhere]
    exact coherent.clean addr present elsewhere unpinned clean
  · intro blockNo elsewhere absent
    rw [cache, blocks] at absent
    rw [away _ elsewhere, history]
    exact coherent.stored blockNo elsewhere absent
  · rw [same]
    rintro blockNo ⟨index, within, _⟩
    cases within
  · intro addr present index bound number
    rw [cache] at present
    rw [blocks] at number ⊢
    rw [disk _ (sblock.logBlock_ne_headerBlock bound)]
    refine Or.inr ((coherent.mirrored addr present index bound number).resolve_left ?_)
    rintro ⟨other, round, src, writing⟩
    by_cases mover : other = thread
    · exact before round src addr (mover ▸ writing)
    · apply alone other mover
      rw [writing]
      trivial
  · intro other index logged bound
    rw [place] at logged
    by_cases mover : other = thread
    · rw [mover, Function.update_self] at logged
      cases logged
    · rw [Function.update_of_ne mover] at logged
      exact absurd (Place.inner_of_logged logged) (alone other mover)
  · intro other round src dst writing
    rw [place] at writing
    by_cases mover : other = thread
    · rw [mover, Function.update_self] at writing
      cases writing
    · rw [Function.update_of_ne mover] at writing
      refine absurd ?_ (alone other mover)
      rw [writing]
      trivial

end Coherent

end LabKernel.Fs
