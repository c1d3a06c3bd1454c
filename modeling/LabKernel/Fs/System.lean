/-
The block cache as threads use it.

The section of `cache_acquire` under the cache lock is one step, taking the sleep lock of
the block another one, and `cache_release` clears the flag in one step and posts in the
next. A commit goes through the same steps, once for every block it acquires. The
memory of a block that was evicted stays where it is until `kalloc` hands
it out again, and whoever still has its address goes on using it.
-/

import LabKernel.Fs.Cache
import LabKernel.Fs.Operation

set_option autoImplicit false

namespace LabKernel.Fs

open Common Transition

/-! ### Threads -/

/-- One round of `write_log`, or of `install_trans` in a commit. -/
structure Round where
  installing : Bool
  tail : Nat
  deriving DecidableEq, Repr

def Round.source (sblock : SuperBlock) (header : LogHeader) (round : Round) : BlockNo :=
  if round.installing then sblock.logBlock round.tail else header.entry round.tail

def Round.target (sblock : SuperBlock) (header : LogHeader) (round : Round) : BlockNo :=
  if round.installing then header.entry round.tail else sblock.logBlock round.tail

def Round.next (round : Round) : Round := { round with tail := round.tail + 1 }

/-- What a block is acquired for: a caller, or a commit that has `src` already or not. -/
inductive Use where
  | caller
  | source (round : Round)
  | target (round : Round) (src : Addr)
  deriving DecidableEq, Repr

/-- Which block is released. The target of a round goes last. -/
inductive Release where
  | caller
  | source (round : Round) (dst : Addr)
  | target (round : Round)
  deriving DecidableEq, Repr

inductive Place where
  | outside
  | locking (use : Use) (blockNo : BlockNo) (addr : Addr)
  | asleep (use : Use) (blockNo : BlockNo) (addr : Addr)
  | unlocking (release : Release) (addr : Addr)
  | first (round : Round)
  | second (round : Round) (src : Addr)
  | copying (round : Round) (src dst : Addr)
  | writing (round : Round) (src dst : Addr)
  | releasing (round : Round) (src dst : Addr)
  | releasingLast (round : Round) (dst : Addr)
  deriving DecidableEq, Repr

/-- Where a thread goes when `cache_release` returns. -/
def Release.after : Release → Place
  | .caller => .outside
  | .source round dst => .releasingLast round dst
  | .target round => .first round.next

/-- A block that `cache_acquire` has returned and that was not passed to `cache_release`. -/
structure Hold where
  thread : Tid
  blockNo : BlockNo
  addr : Addr
  inner : Bool
  deriving DecidableEq, Repr

/-- What callers see: a call of `cache_acquire` returned a block with this content, and a
block with this content was passed to `cache_release`. -/
inductive Access where
  | returned (thread : Tid) (blockNo : BlockNo) (data : BlockData)
  | released (thread : Tid) (blockNo : BlockNo) (data : BlockData)

/-- The log with its threads, the cache, the device, and where the threads are. `held` lists
the blocks in use, `dirty` the operation that a block was last stored to under and not
synced since, and `history` what callers saw, in order. -/
structure System where
  op : OpState
  cache : BlockCache
  disk : Disk
  place : Tid → Place
  held : List Hold
  dirty : Addr → Option CtxId
  history : List Access

/-- After `init_bcache` has left this cache and this device. -/
def System.initial (sblock : SuperBlock) (header : LogHeader) (cache : BlockCache) (disk : Disk) :
    System :=
  { op := OpState.initial sblock header.blockNo
    cache := cache
    disk := disk
    place := fun _ => .outside
    held := []
    dirty := fun _ => none
    history := [] }

namespace System

variable (state : System)

def block (addr : Addr) : Block := state.cache.heap addr

def setBlock (addr : Addr) (block : Block) : System :=
  { state with cache := { state.cache with heap := Function.update state.cache.heap addr block } }

def goto (thread : Tid) (place : Place) : System :=
  { state with place := Function.update state.place thread place }

def record (access : Access) : System := { state with history := state.history ++ [access] }

def write (blockNo : BlockNo) (data : BlockData) : System :=
  { state with disk := Function.update state.disk blockNo data }

/-- The section of `cache_acquire`; `chunk` is what `kalloc` returns on a miss. -/
def seek (thread : Tid) (use : Use) (blockNo : BlockNo) (chunk : Addr) : Except Stop System :=
  if chunk ∈ state.cache.evict then .error .blocks
  else
    let fetched := state.cache.acquireSection chunk blockNo state.disk
    .ok ({ state with cache := fetched.2 }.goto thread (.locking use blockNo fetched.1))

/-- `cache_acquire` has the lock and returns. -/
def grant (thread : Tid) (use : Use) (blockNo : BlockNo) (addr : Addr) : System :=
  match use with
  | .caller =>
      ({ state with held := ⟨thread, blockNo, addr, false⟩ :: state.held }.goto thread
        .outside).record (.returned thread blockNo (state.block addr).data)
  | .source round =>
      { state with held := ⟨thread, blockNo, addr, true⟩ :: state.held }.goto thread
        (.second round addr)
  | .target round src =>
      { state with held := ⟨thread, blockNo, addr, true⟩ :: state.held }.goto thread
        (.copying round src addr)

/-- `unalertable_acquire_sleeplock`, up to its return or its sleep. -/
def lock (thread : Tid) : Except Stop System :=
  match state.place thread with
  | .locking use blockNo addr =>
      let waited := waitSem thread (state.block addr).lock
      let locked := state.setBlock addr { state.block addr with lock := waited.2 }
      if waited.1 then .ok (locked.grant thread use blockNo addr)
      else .ok (locked.goto thread (.asleep use blockNo addr))
  | _ => .error .blocks

/-- A thread that a post has taken off the sleep list returns from its wait. -/
def wake (thread : Tid) : Except Stop System :=
  match state.place thread with
  | .asleep use blockNo addr =>
      if thread ∈ (state.block addr).lock.sleeplist then .error .blocks
      else .ok (state.grant thread use blockNo addr)
  | _ => .error .blocks

/-- The first half of `cache_release`. -/
def drop (thread : Tid) (release : Release) (addr : Addr) (held : List Hold) : System :=
  ({ state with held := held }.setBlock addr { state.block addr with acquired := false }).goto
    thread (.unlocking release addr)

/-- What is held when a commit passes a block to `cache_release`. -/
def heldWithout (thread : Tid) (addr : Addr) : List Hold :=
  state.held.eraseP (fun hold => hold.thread = thread ∧ hold.addr = addr ∧ hold.inner = true)

/-- The second half of `cache_release`. -/
def unlock (thread : Tid) : Except Stop System :=
  match state.place thread with
  | .unlocking release addr =>
      match postSem (state.block addr).lock with
      | none => .error .assertion
      | some (_, lock) =>
          .ok ((state.setBlock addr { state.block addr with lock := lock }).goto thread
            release.after)
  | _ => .error .blocks

def Idle (thread : Tid) : Prop := state.op.pc thread = .idle ∧ state.place thread = .outside

instance (thread : Tid) : Decidable (state.Idle thread) := inferInstanceAs (Decidable (_ ∧ _))

def acquire (thread : Tid) (blockNo : BlockNo) (chunk : Addr) : Except Stop System :=
  if state.Idle thread then state.seek thread .caller blockNo chunk else .error .blocks

def store (hold : Hold) (ctx : CtxId) (data : BlockData) : Except Stop System :=
  if state.Idle hold.thread ∧ hold ∈ state.held ∧ hold.inner = false then
    .ok { state.setBlock hold.addr { state.block hold.addr with data := data } with
      dirty := Function.update state.dirty hold.addr (some ctx) }
  else .error .blocks

/-- `cache_sync` under an operation. -/
def sync (hold : Hold) (ctx : CtxId) : Except Stop System :=
  if state.Idle hold.thread ∧ hold ∈ state.held ∧ hold.inner = false then
    let block := state.block hold.addr
    match state.op.sync hold.thread ctx block.blockNo with
    | .error reason => .error reason
    | .ok op =>
        let added := decide (state.op.header.search block.blockNo = state.op.header.numBlocks)
        .ok { state.setBlock hold.addr { block with pinned := block.pinned || added } with
          op := op
          dirty := if state.dirty hold.addr = some ctx then
            Function.update state.dirty hold.addr none else state.dirty }
  else .error .blocks

/-- `cache_sync` without an operation. -/
def flush (hold : Hold) : Except Stop System :=
  if state.Idle hold.thread ∧ hold ∈ state.held ∧ hold.inner = false then
    .ok (state.write (state.block hold.addr).blockNo (state.block hold.addr).data)
  else .error .blocks

def release (hold : Hold) : Except Stop System :=
  if state.Idle hold.thread ∧ hold ∈ state.held ∧ hold.inner = false then
    .ok ((state.drop hold.thread .caller hold.addr (state.held.erase hold)).record
      (.released hold.thread hold.blockNo (state.block hold.addr).data))
  else .error .blocks

/-- A section of `cache_begin_op` or of `cache_end_op`. -/
def operate (action : OpAction) (thread : Tid) : Except Stop System :=
  if state.place thread = .outside then
    match opStep state.op action with
    | .error reason => .error reason
    | .ok op => .ok { state with op := op }
  else .error .blocks

/-- The end of `commit`: `header.num_blocks = 0` and, when there was anything to commit,
`write_header`. -/
def commitEnd (sblock : SuperBlock) (thread : Tid) (written : Bool) : Except Stop System :=
  match state.op.commitReturn thread with
  | .error reason => .error reason
  | .ok op =>
      let after := { state with op := op }.goto thread .outside
      .ok (if written then after.write sblock.headerBlock op.header.toBlock else after)

def commit (sblock : SuperBlock) (thread : Tid) (chunk : Addr) : Except Stop System :=
  let header := state.op.header
  match state.place thread with
  | .outside =>
      match state.op.pc thread with
      | .committing _ =>
          if 0 < header.numBlocks then .ok (state.goto thread (.first ⟨false, 0⟩))
          else state.commitEnd sblock thread false
      | _ => .error .blocks
  | .first round =>
      if round.tail < header.numBlocks then
        if round.tail < logMaxSize then
          state.seek thread (.source round) (round.source sblock header) chunk
        else .error .outOfBounds
      else if round.installing then state.commitEnd sblock thread true
      else .ok ((state.write sblock.headerBlock header.toBlock).goto thread (.first ⟨true, 0⟩))
  | .second round src => state.seek thread (.target round src) (round.target sblock header) chunk
  | .copying round src dst =>
      .ok ((state.setBlock dst { state.block dst with data := (state.block src).data }).goto thread
        (.writing round src dst))
  | .writing round src dst =>
      .ok ((state.write (state.block dst).blockNo (state.block dst).data).goto thread
        (.releasing round src dst))
  | .releasing round src dst =>
      .ok (state.drop thread (.source round dst) src (state.heldWithout thread src))
  | .releasingLast round dst =>
      .ok (state.drop thread (.target round) dst (state.heldWithout thread dst))
  | _ => .error .blocks

end System

inductive Action where
  | acquire (thread : Tid) (blockNo : BlockNo) (chunk : Addr)
  | lock (thread : Tid)
  | wake (thread : Tid)
  | store (hold : Hold) (ctx : CtxId) (data : BlockData)
  | sync (hold : Hold) (ctx : CtxId)
  | flush (hold : Hold)
  | release (hold : Hold)
  | unlock (thread : Tid)
  | beginOp (thread : Tid) (ctx : CtxId)
  | beginTry (thread : Tid)
  | beginSleep (thread : Tid)
  | beginWake (thread : Tid)
  | endOp (thread : Tid) (ctx : CtxId)
  | endSleep (thread : Tid)
  | endWake (thread : Tid)
  | commitDone (thread : Tid)
  | commit (thread : Tid) (chunk : Addr)

def systemStep (sblock : SuperBlock) (state : System) : Action → Except Stop System
  | .acquire thread blockNo chunk => state.acquire thread blockNo chunk
  | .lock thread => state.lock thread
  | .wake thread => state.wake thread
  | .store hold ctx data => state.store hold ctx data
  | .sync hold ctx => state.sync hold ctx
  | .flush hold => state.flush hold
  | .release hold => state.release hold
  | .unlock thread => state.unlock thread
  | .beginOp thread ctx => state.operate (.beginOp thread ctx) thread
  | .beginTry thread => state.operate (.beginTry thread) thread
  | .beginSleep thread => state.operate (.beginSleep thread) thread
  | .beginWake thread => state.operate (.beginWake thread) thread
  | .endOp thread ctx => state.operate (.endOp thread ctx) thread
  | .endSleep thread => state.operate (.endSleep thread) thread
  | .endWake thread => state.operate (.endWake thread) thread
  | .commitDone thread => state.operate (.commitDone thread) thread
  | .commit thread chunk => state.commit sblock thread chunk

/-! ### What each step can do -/

/-- The number that the section of a step looks up. -/
def System.sought (sblock : SuperBlock) (state : System) : Action → Option BlockNo
  | .acquire _ blockNo _ => some blockNo
  | .commit thread _ =>
      match state.place thread with
      | .first round =>
          if round.tail < state.op.header.numBlocks then
            some (round.source sblock state.op.header)
          else none
      | .second round _ => some (round.target sblock state.op.header)
      | _ => none
  | _ => none

/-- Where a thread comes from when it enters the section of `cache_acquire`. -/
inductive System.Enters (sblock : SuperBlock) (state : System) (thread : Tid) :
    Use → BlockNo → Prop
  | caller (blockNo : BlockNo) (idle : state.Idle thread) : Enters sblock state thread .caller blockNo
  | source (round : Round) (located : state.place thread = .first round)
      (within : round.tail < state.op.header.numBlocks) :
      Enters sblock state thread (.source round) (round.source sblock state.op.header)
  | target (round : Round) (src : Addr) (located : state.place thread = .second round src) :
      Enters sblock state thread (.target round src) (round.target sblock state.op.header)

def OpAction.thread : OpAction → Tid
  | .beginOp thread _ | .beginTry thread | .beginSleep thread | .beginWake thread
  | .sync thread _ _ | .endOp thread _ | .endSleep thread | .endWake thread
  | .commitReturn thread | .commitDone thread => thread

/-- Sections of `cache_begin_op` and `cache_end_op` that touch neither cache nor header. -/
def OpAction.Apart : OpAction → Prop
  | .sync .. | .commitReturn _ => False
  | _ => True

inductive System.Outcome (sblock : SuperBlock) (state : System) : Action → System → Prop
  | operated {action : Action} (part : OpAction) (op : OpState) (apart : part.Apart)
      (outside : state.place part.thread = .outside)
      (taken : opStep state.op part = .ok op) :
      Outcome sblock state action { state with op := op }
  | sought {action : Action} (thread : Tid) (use : Use) (blockNo : BlockNo) (chunk : Addr)
      (asked : state.sought sblock action = some blockNo)
      (enters : state.Enters sblock thread use blockNo) (fresh : chunk ∉ state.cache.evict) :
      Outcome sblock state action
        ({ state with cache := (state.cache.acquireSection chunk blockNo state.disk).2 }.goto thread
          (.locking use blockNo (state.cache.acquireSection chunk blockNo state.disk).1))
  | locked (thread : Tid) (use : Use) (blockNo : BlockNo) (addr : Addr)
      (located : state.place thread = .locking use blockNo addr)
      (free : (waitSem thread (state.block addr).lock).1 = true) :
      Outcome sblock state (.lock thread) ((state.setBlock addr { state.block addr with
        lock := (waitSem thread (state.block addr).lock).2 }).grant thread use blockNo addr)
  | slept (thread : Tid) (use : Use) (blockNo : BlockNo) (addr : Addr)
      (located : state.place thread = .locking use blockNo addr)
      (taken : (waitSem thread (state.block addr).lock).1 = false) :
      Outcome sblock state (.lock thread) ((state.setBlock addr { state.block addr with
        lock := (waitSem thread (state.block addr).lock).2 }).goto thread (.asleep use blockNo addr))
  | woken (thread : Tid) (use : Use) (blockNo : BlockNo) (addr : Addr)
      (located : state.place thread = .asleep use blockNo addr)
      (posted : thread ∉ (state.block addr).lock.sleeplist) :
      Outcome sblock state (.wake thread) (state.grant thread use blockNo addr)
  | stored (hold : Hold) (ctx : CtxId) (data : BlockData) (idle : state.Idle hold.thread)
      (member : hold ∈ state.held) (outer : hold.inner = false) :
      Outcome sblock state (.store hold ctx data)
        { state.setBlock hold.addr { state.block hold.addr with data := data } with
          dirty := Function.update state.dirty hold.addr (some ctx) }
  | synced (hold : Hold) (ctx : CtxId) (op : OpState) (idle : state.Idle hold.thread)
      (member : hold ∈ state.held) (outer : hold.inner = false)
      (taken : opStep state.op (.sync hold.thread ctx (state.block hold.addr).blockNo) = .ok op) :
      Outcome sblock state (.sync hold ctx)
        { state.setBlock hold.addr { state.block hold.addr with
            pinned := (state.block hold.addr).pinned || decide (state.op.header.search
              (state.block hold.addr).blockNo = state.op.header.numBlocks) } with
          op := op
          dirty := if state.dirty hold.addr = some ctx then
            Function.update state.dirty hold.addr none else state.dirty }
  | flushed (hold : Hold) (member : hold ∈ state.held) (outer : hold.inner = false) :
      Outcome sblock state (.flush hold)
        (state.write (state.block hold.addr).blockNo (state.block hold.addr).data)
  | released (hold : Hold) (idle : state.Idle hold.thread) (member : hold ∈ state.held)
      (outer : hold.inner = false) :
      Outcome sblock state (.release hold)
        ((state.drop hold.thread .caller hold.addr (state.held.erase hold)).record
          (.released hold.thread hold.blockNo (state.block hold.addr).data))
  | unlocked (thread : Tid) (release : Release) (addr : Addr) (woken : Option Tid)
      (lock : Semaphore) (located : state.place thread = .unlocking release addr)
      (posted : postSem (state.block addr).lock = some (woken, lock)) :
      Outcome sblock state (.unlock thread)
        ((state.setBlock addr { state.block addr with lock := lock }).goto thread release.after)
  | started (thread : Tid) (ctx : CtxId) (chunk : Addr) (outside : state.place thread = .outside)
      (commits : state.op.pc thread = .committing ctx) (listed : 0 < state.op.header.numBlocks) :
      Outcome sblock state (.commit thread chunk) (state.goto thread (.first ⟨false, 0⟩))
  | logged (thread : Tid) (round : Round) (chunk : Addr)
      (located : state.place thread = .first round) (logging : round.installing = false)
      (complete : state.op.header.numBlocks ≤ round.tail) :
      Outcome sblock state (.commit thread chunk)
        ((state.write sblock.headerBlock state.op.header.toBlock).goto thread (.first ⟨true, 0⟩))
  | copied (thread : Tid) (round : Round) (src dst chunk : Addr)
      (located : state.place thread = .copying round src dst) :
      Outcome sblock state (.commit thread chunk)
        ((state.setBlock dst { state.block dst with data := (state.block src).data }).goto thread
          (.writing round src dst))
  | written (thread : Tid) (round : Round) (src dst chunk : Addr)
      (located : state.place thread = .writing round src dst) :
      Outcome sblock state (.commit thread chunk)
        ((state.write (state.block dst).blockNo (state.block dst).data).goto thread
          (.releasing round src dst))
  | dropped (thread : Tid) (release : Release) (addr chunk : Addr)
      (located : (∃ round dst, state.place thread = .releasing round addr dst ∧
          release = .source round dst) ∨
        (∃ round, state.place thread = .releasingLast round addr ∧ release = .target round)) :
      Outcome sblock state (.commit thread chunk)
        (state.drop thread release addr (state.heldWithout thread addr))
  | finished (thread : Tid) (op : OpState) (chunk : Addr) (written : Bool)
      (located : (state.place thread = .outside ∧ written = false ∧
          state.op.header.numBlocks = 0) ∨
        (∃ round, state.place thread = .first round ∧ round.installing = true ∧
          state.op.header.numBlocks ≤ round.tail ∧ written = true))
      (taken : opStep state.op (.commitReturn thread) = .ok op) :
      Outcome sblock state (.commit thread chunk)
        (if written then ({ state with op := op }.goto thread .outside).write sblock.headerBlock
          op.header.toBlock else { state with op := op }.goto thread .outside)

namespace System

variable {sblock : SuperBlock} {state after : System} {thread : Tid}

theorem seek_ok {use : Use} {blockNo : BlockNo} {chunk : Addr}
    (taken : state.seek thread use blockNo chunk = .ok after) :
    chunk ∉ state.cache.evict ∧ after =
      { state with cache := (state.cache.acquireSection chunk blockNo state.disk).2 }.goto thread
        (.locking use blockNo (state.cache.acquireSection chunk blockNo state.disk).1) := by
  unfold seek at taken
  split at taken
  · cases taken
  · rename_i fresh
    cases taken
    exact ⟨fresh, rfl⟩

theorem operate_ok {action : OpAction} (taken : state.operate action thread = .ok after) :
    state.place thread = .outside ∧ ∃ op, opStep state.op action = .ok op ∧
      after = { state with op := op } := by
  unfold operate at taken
  split at taken
  · rename_i outside
    split at taken
    · cases taken
    · rename_i op returned
      cases taken
      exact ⟨outside, op, returned, rfl⟩
  · cases taken

theorem commitEnd_ok {written : Bool} (taken : state.commitEnd sblock thread written = .ok after) :
    ∃ op, opStep state.op (.commitReturn thread) = .ok op ∧
      after = if written then ({ state with op := op }.goto thread .outside).write
        sblock.headerBlock op.header.toBlock else { state with op := op }.goto thread .outside := by
  unfold commitEnd at taken
  split at taken
  · cases taken
  · rename_i op returned
    cases taken
    exact ⟨op, returned, rfl⟩

theorem operate_outcome {action : Action} (part : OpAction) (apart : part.Apart)
    (taken : state.operate part part.thread = .ok after) :
    Outcome sblock state action after := by
  obtain ⟨outside, op, returned, rfl⟩ := operate_ok taken
  exact .operated part op apart outside returned

theorem lock_outcome (taken : state.lock thread = .ok after) :
    Outcome sblock state (.lock thread) after := by
  unfold lock at taken
  split at taken
  · rename_i use blockNo addr located
    simp only at taken
    split at taken
    · rename_i free
      cases taken
      exact .locked thread use blockNo addr located free
    · rename_i busy
      cases taken
      exact .slept thread use blockNo addr located (Bool.not_eq_true _ ▸ busy)
  · cases taken

theorem commit_outcome {chunk : Addr} (taken : state.commit sblock thread chunk = .ok after) :
    Outcome sblock state (.commit thread chunk) after := by
  unfold commit at taken
  simp only at taken
  split at taken
  · rename_i outside
    split at taken
    · rename_i ctx commits
      split at taken
      · rename_i listed
        cases taken
        exact .started thread ctx chunk outside commits listed
      · rename_i empty
        obtain ⟨op, returned, rfl⟩ := commitEnd_ok taken
        exact .finished thread op chunk false (Or.inl ⟨outside, rfl, by omega⟩) returned
    · cases taken
  · rename_i round located
    split at taken
    · rename_i within
      split at taken
      · obtain ⟨fresh, rfl⟩ := seek_ok taken
        refine .sought thread (.source round) _ chunk ?_ (.source round located within) fresh
        simp only [sought, located, within, if_true]
      · cases taken
    · rename_i complete
      split at taken
      · rename_i installing
        obtain ⟨op, returned, rfl⟩ := commitEnd_ok taken
        exact .finished thread op chunk true
          (Or.inr ⟨round, located, installing, Nat.le_of_not_lt complete, rfl⟩) returned
      · rename_i logging
        cases taken
        exact .logged thread round chunk located (Bool.not_eq_true _ ▸ logging)
          (Nat.le_of_not_lt complete)
  · rename_i round src located
    obtain ⟨fresh, rfl⟩ := seek_ok taken
    refine .sought thread (.target round src) _ chunk ?_ (.target round src located) fresh
    simp only [sought, located]
  · rename_i round src dst located
    cases taken
    exact .copied thread round src dst chunk located
  · rename_i round src dst located
    cases taken
    exact .written thread round src dst chunk located
  · rename_i round src dst located
    cases taken
    exact .dropped thread (.source round dst) src chunk (Or.inl ⟨round, dst, located, rfl⟩)
  · rename_i round dst located
    cases taken
    exact .dropped thread (.target round) dst chunk (Or.inr ⟨round, located, rfl⟩)
  · cases taken

theorem step_outcome {action : Action} (taken : systemStep sblock state action = .ok after) :
    Outcome sblock state action after := by
  cases action with
  | acquire thread blockNo chunk =>
      change state.acquire thread blockNo chunk = .ok after at taken
      unfold acquire at taken
      split at taken
      · rename_i idle
        obtain ⟨fresh, rfl⟩ := seek_ok taken
        exact .sought thread .caller blockNo chunk rfl (.caller blockNo idle) fresh
      · cases taken
  | lock thread => exact lock_outcome taken
  | wake thread =>
      change state.wake thread = .ok after at taken
      unfold wake at taken
      split at taken
      · rename_i use blockNo addr located
        split at taken
        · cases taken
        · rename_i posted
          cases taken
          exact .woken thread use blockNo addr located posted
      · cases taken
  | store hold ctx data =>
      change state.store hold ctx data = .ok after at taken
      unfold store at taken
      split at taken
      · rename_i allowed
        cases taken
        exact .stored hold ctx data allowed.1 allowed.2.1 allowed.2.2
      · cases taken
  | sync hold ctx =>
      change state.sync hold ctx = .ok after at taken
      unfold sync at taken
      split at taken
      · rename_i allowed
        simp only at taken
        split at taken
        · cases taken
        · rename_i op returned
          cases taken
          exact .synced hold ctx op allowed.1 allowed.2.1 allowed.2.2 returned
      · cases taken
  | flush hold =>
      change state.flush hold = .ok after at taken
      unfold flush at taken
      split at taken
      · rename_i allowed
        cases taken
        exact .flushed hold allowed.2.1 allowed.2.2
      · cases taken
  | release hold =>
      change state.release hold = .ok after at taken
      unfold release at taken
      split at taken
      · rename_i allowed
        cases taken
        exact .released hold allowed.1 allowed.2.1 allowed.2.2
      · cases taken
  | unlock thread =>
      change state.unlock thread = .ok after at taken
      unfold unlock at taken
      split at taken
      · rename_i release addr located
        split at taken
        · cases taken
        · rename_i woken lock posted
          cases taken
          exact .unlocked thread release addr woken lock located posted
      · cases taken
  | beginOp thread ctx => exact operate_outcome (.beginOp thread ctx) trivial taken
  | beginTry thread => exact operate_outcome (.beginTry thread) trivial taken
  | beginSleep thread => exact operate_outcome (.beginSleep thread) trivial taken
  | beginWake thread => exact operate_outcome (.beginWake thread) trivial taken
  | endOp thread ctx => exact operate_outcome (.endOp thread ctx) trivial taken
  | endSleep thread => exact operate_outcome (.endSleep thread) trivial taken
  | endWake thread => exact operate_outcome (.endWake thread) trivial taken
  | commitDone thread => exact operate_outcome (.commitDone thread) trivial taken
  | commit thread chunk => exact commit_outcome taken

end System

end LabKernel.Fs
