/-
Atomic operations of `cache.c`: `cache_begin_op`, `cache_sync` and `cache_end_op` by
any number of threads.

Each section under `log.lock` is one step. Waiting goes through `log.sem` and
`log.outstandingsem`: a thread takes the semaphore's own lock inside its section,
leaves the section, and sleeps in a step of its own. The commit a thread runs is open
until it returns; what it does to cache and device is the subject of other modules.
-/

import LabKernel.Common.Sem
import LabKernel.Fs.Defines
import LabKernel.Lib.Transition

set_option autoImplicit false

namespace LabKernel.Fs

open Common Transition

/-! ### Sections under the log lock -/

def opMaxNumBlocks : Nat := 10

/-- `struct LOG` without its lock and semaphores. -/
structure LogVars where
  outstanding : Int
  committing : Bool
  mu : Int
  mx : Nat
  deriving DecidableEq, Repr

/-- The test of `cache_begin_op`, in 64 bits. -/
def LogVars.full (log : LogVars) (header : LogHeader) : Bool :=
  (log.mx : Int) < ((header.numBlocks : Int) + log.mu + opMaxNumBlocks) % 2 ^ 64

def LogVars.beginOp (log : LogVars) : LogVars :=
  { log with outstanding := log.outstanding + 1, mu := log.mu + opMaxNumBlocks }

def LogVars.endOp (log : LogVars) (rm : Nat) : LogVars :=
  { log with outstanding := log.outstanding - 1, mu := log.mu - rm }

/-- The search loop of `cache_sync`: an index that lists the number, or the count. -/
def LogHeader.search (header : LogHeader) (blockNo : BlockNo) : Nat :=
  (List.range header.numBlocks).findIdx (fun index => header.entry index = blockNo)

/-- What `cache_sync` leaves: the log, the header, the remaining budget of the operation,
and whether the number was new, in which case the block is pinned. -/
structure Synced where
  log : LogVars
  header : LogHeader
  rm : Nat
  added : Bool

/-- `cache_sync` under an operation. -/
def cacheSync (log : LogVars) (header : LogHeader) (rm : Nat) (blockNo : BlockNo) :
    Except Stop Synced :=
  if log.mx ≤ header.numBlocks then .error .panicLogFull
  else if log.outstanding < 1 then .error .panicOutstanding
  else
    let index := header.search blockNo
    if within : index < logMaxSize then
      let written := Function.update header.blockNo ⟨index, within⟩ blockNo
      if index = header.numBlocks then
        if 0 < rm then
          .ok
            { log := { log with mu := log.mu - 1 }
              header := { numBlocks := header.numBlocks + 1, blockNo := written }
              rm := rm - 1
              added := true }
        else .error .panicBudget
      else .ok { log := log, header := { header with blockNo := written }, rm := rm, added := false }
    else .error .outOfBounds

/-! ### The threads -/

abbrev CtxId := Nat

/-- Where a thread is. In `beginLocked` and `endLocked` it has released `log.lock` and holds
the lock of the semaphore it is about to wait on. -/
inductive Pc where
  | idle
  | beginning (ctx : CtxId)
  | beginLocked (ctx : CtxId)
  | beginAsleep (ctx : CtxId)
  | endLocked (ctx : CtxId)
  | endAsleep (ctx : CtxId)
  | committing (ctx : CtxId)
  | committed (ctx : CtxId)
  deriving DecidableEq, Repr

inductive Event where
  | began (ctx : CtxId)
  | synced (ctx : CtxId) (blockNo : BlockNo)
  | commitStarted (listed : List BlockNo)
  | commitReturned
  | ended (ctx : CtxId)
  deriving DecidableEq, Repr

/-- How a context is in use. Its owner may sync and end it while it is running. -/
inductive Phase where
  | unused
  | starting
  | running
  | ending
  deriving DecidableEq, Repr

/-- The log, the header and the threads. `opened` and `history` record the operations begun
and not ended, and what has happened, in order. -/
structure OpState where
  log : LogVars
  header : LogHeader
  sem : Semaphore
  semLock : Option Tid
  outstandingSem : Semaphore
  outstandingLock : Option Tid
  rm : CtxId → Nat
  phase : CtxId → Phase
  pc : Tid → Pc
  opened : List CtxId
  history : List Event

/-- After `init_bcache`: the header is empty, whatever numbers it holds behind its count. -/
def OpState.initial (sblock : SuperBlock) (blockNo : Fin logMaxSize → BlockNo) : OpState :=
  { log := { outstanding := 0, committing := false, mu := 0, mx := sblock.logMx }
    header := { numBlocks := 0, blockNo := blockNo }
    sem := initSem 0
    semLock := none
    outstandingSem := initSem 0
    outstandingLock := none
    rm := fun _ => 0
    phase := fun _ => .unused
    pc := fun _ => .idle
    opened := []
    history := [] }

def OpState.goto (state : OpState) (thread : Tid) (pc : Pc) : OpState :=
  { state with pc := Function.update state.pc thread pc }

def OpState.setPhase (state : OpState) (ctx : CtxId) (phase : Phase) : OpState :=
  { state with phase := Function.update state.phase ctx phase }

def OpState.record (state : OpState) (event : Event) : OpState :=
  { state with history := state.history ++ [event] }

def LogHeader.listing (header : LogHeader) : List BlockNo :=
  (List.range header.numBlocks).map header.entry

inductive OpAction where
  | beginOp (thread : Tid) (ctx : CtxId)
  | beginTry (thread : Tid)
  | beginSleep (thread : Tid)
  | beginWake (thread : Tid)
  | sync (thread : Tid) (ctx : CtxId) (blockNo : BlockNo)
  | endOp (thread : Tid) (ctx : CtxId)
  | endSleep (thread : Tid)
  | endWake (thread : Tid)
  | commitReturn (thread : Tid)
  | commitDone (thread : Tid)
  deriving DecidableEq, Repr

namespace OpState

variable (state : OpState) (thread : Tid)

/-- A call of `cache_begin_op` on a context that is not in use. -/
def beginOp (ctx : CtxId) : Except Stop OpState :=
  if state.pc thread = .idle ∧ state.phase ctx = .unused then
    .ok ((state.setPhase ctx .starting).goto thread (.beginning ctx))
  else .error .blocks

/-- One round of the loop of `cache_begin_op`. -/
def beginTry : Except Stop OpState :=
  match state.pc thread with
  | .beginning ctx =>
      if state.log.committing || state.log.full state.header then
        if state.semLock = none then
          .ok ({ state with semLock := some thread }.goto thread (.beginLocked ctx))
        else .error .blocks
      else
        .ok (({ state with
          log := state.log.beginOp
          rm := Function.update state.rm ctx opMaxNumBlocks
          opened := ctx :: state.opened }.setPhase ctx .running).goto thread .idle |>.record
            (.began ctx))
  | _ => .error .blocks

/-- `prelocked_unalertable_wait_sem(&log.sem)`, up to sleeping. -/
def beginSleep : Except Stop OpState :=
  match state.pc thread with
  | .beginLocked ctx =>
      let waited := waitSem thread state.sem
      .ok ({ state with sem := waited.2, semLock := none }.goto thread
        (if waited.1 then .beginning ctx else .beginAsleep ctx))
  | _ => .error .blocks

/-- A thread that a post has taken off the sleep list of `log.sem` returns from its wait. -/
def beginWake : Except Stop OpState :=
  match state.pc thread with
  | .beginAsleep ctx =>
      if thread ∉ state.sem.sleeplist ∧ state.semLock = none then
        .ok (state.goto thread (.beginning ctx))
      else .error .blocks
  | _ => .error .blocks

/-- `cache_sync` of a block with this number under a running context. -/
def sync (ctx : CtxId) (blockNo : BlockNo) : Except Stop OpState :=
  if state.pc thread = .idle ∧ state.phase ctx = .running then
    match cacheSync state.log state.header (state.rm ctx) blockNo with
    | .error reason => .error reason
    | .ok synced =>
        .ok ({ state with
          log := synced.log
          header := synced.header
          rm := Function.update state.rm ctx synced.rm }.record (.synced ctx blockNo))
  else .error .blocks

/-- The first section of `cache_end_op`. -/
def endOp (ctx : CtxId) : Except Stop OpState :=
  if state.pc thread = .idle ∧ state.phase ctx = .running then
    let closed :=
      { state with
        log := state.log.endOp (state.rm ctx)
        opened := state.opened.erase ctx }.setPhase ctx .ending
    if closed.log.committing then .error .panicCommitting
    else if closed.log.outstanding = 0 then
      .ok ({ closed with log := { closed.log with committing := true } }.goto thread
        (.committing ctx) |>.record (.commitStarted closed.header.listing))
    else if closed.semLock = none ∧ closed.outstandingLock = none then
      match postAllSem closed.sem with
      | none => .error .assertion
      | some (_, _, sem) =>
          .ok ({ closed with sem := sem, outstandingLock := some thread }.goto thread
            (.endLocked ctx))
    else .error .blocks
  else .error .blocks

def finish (ctx : CtxId) : OpState :=
  ((state.setPhase ctx .unused).goto thread .idle).record (.ended ctx)

/-- `prelocked_unalertable_wait_sem(&log.outstandingsem)`, up to sleeping. -/
def endSleep : Except Stop OpState :=
  match state.pc thread with
  | .endLocked ctx =>
      let waited := waitSem thread state.outstandingSem
      let slept := { state with outstandingSem := waited.2, outstandingLock := none }
      .ok (if waited.1 then slept.finish thread ctx else slept.goto thread (.endAsleep ctx))
  | _ => .error .blocks

def endWake : Except Stop OpState :=
  match state.pc thread with
  | .endAsleep ctx =>
      if thread ∉ state.outstandingSem.sleeplist ∧ state.outstandingLock = none then
        .ok (state.finish thread ctx)
      else .error .blocks
  | _ => .error .blocks

/-- `commit` returns; if there was anything to commit it has cleared the count. -/
def commitReturn : Except Stop OpState :=
  match state.pc thread with
  | .committing ctx =>
      .ok ({ state with header := { state.header with numBlocks := 0 } }.goto thread
        (.committed ctx) |>.record .commitReturned)
  | _ => .error .blocks

/-- The last section of `cache_end_op`. -/
def commitDone : Except Stop OpState :=
  match state.pc thread with
  | .committed ctx =>
      if state.semLock = none ∧ state.outstandingLock = none then
        match postAllSem state.outstandingSem, postAllSem state.sem with
        | some (_, _, outstandingSem), some (_, _, sem) =>
            .ok ({ state with
              log := { state.log with committing := false }
              outstandingSem := outstandingSem
              sem := sem }.finish thread ctx)
        | _, _ => .error .assertion
      else .error .blocks
  | _ => .error .blocks

end OpState

def opStep (state : OpState) : OpAction → Except Stop OpState
  | .beginOp thread ctx => state.beginOp thread ctx
  | .beginTry thread => state.beginTry thread
  | .beginSleep thread => state.beginSleep thread
  | .beginWake thread => state.beginWake thread
  | .sync thread ctx blockNo => state.sync thread ctx blockNo
  | .endOp thread ctx => state.endOp thread ctx
  | .endSleep thread => state.endSleep thread
  | .endWake thread => state.endWake thread
  | .commitReturn thread => state.commitReturn thread
  | .commitDone thread => state.commitDone thread

/-! ### Syncing -/

def LogHeader.push (header : LogHeader) (blockNo : BlockNo) : LogHeader :=
  { numBlocks := header.numBlocks + 1
    blockNo := fun index => if index.val = header.numBlocks then blockNo else header.blockNo index }

theorem LogHeader.search_le (header : LogHeader) (blockNo : BlockNo) :
    header.search blockNo ≤ header.numBlocks := by
  have bound : header.search blockNo ≤ (List.range header.numBlocks).length :=
    List.findIdx_le_length
  rwa [List.length_range] at bound

theorem LogHeader.entry_search {header : LogHeader} {blockNo : BlockNo}
    (found : header.search blockNo < header.numBlocks) :
    header.entry (header.search blockNo) = blockNo := by
  unfold search at found ⊢
  have inside := found.trans_eq (@List.length_range header.numBlocks).symm
  have hit := List.findIdx_getElem (w := inside)
  simpa only [List.getElem_range, decide_eq_true_eq] using hit

theorem LogHeader.not_lists_of_search {header : LogHeader} {blockNo : BlockNo}
    (missing : header.search blockNo = header.numBlocks) : ¬header.Lists blockNo := by
  rintro ⟨index, within, number⟩
  have absent := List.findIdx_eq_length.mp (missing.trans List.length_range.symm) index.val
    (List.mem_range.mpr within)
  rw [← header.blockNo_eq_entry index.isLt, number] at absent
  simp at absent

/-- A sync that returns found its number listed and changed nothing, or listed a new number
and paid for it. -/
theorem cacheSync_ok {log : LogVars} {header : LogHeader} {rm : Nat} {blockNo : BlockNo}
    {synced : Synced} (returned : cacheSync log header rm blockNo = .ok synced) :
    1 ≤ log.outstanding ∧ header.numBlocks < log.mx ∧
      ((header.Lists blockNo ∧
          synced = { log := log, header := header, rm := rm, added := false }) ∨
        (¬header.Lists blockNo ∧ header.numBlocks < logMaxSize ∧ 0 < rm ∧ synced =
          { log := { log with mu := log.mu - 1 }, header := header.push blockNo
            rm := rm - 1, added := true })) := by
  unfold cacheSync at returned
  by_cases logFull : log.mx ≤ header.numBlocks
  · rw [if_pos logFull] at returned
    cases returned
  rw [if_neg logFull] at returned
  by_cases nobody : log.outstanding < 1
  · rw [if_pos nobody] at returned
    cases returned
  rw [if_neg nobody] at returned
  by_cases within : header.search blockNo < logMaxSize
  · simp only [dif_pos within] at returned
    refine ⟨by omega, by omega, ?_⟩
    by_cases added : header.search blockNo = header.numBlocks
    · rw [if_pos added] at returned
      by_cases budget : 0 < rm
      · rw [if_pos budget] at returned
        cases returned
        refine Or.inr ⟨LogHeader.not_lists_of_search added, added ▸ within, budget, ?_⟩
        have same : Function.update header.blockNo ⟨header.search blockNo, within⟩ blockNo =
            (header.push blockNo).blockNo := by
          funext index
          rw [Function.update_apply]
          simp only [LogHeader.push, Fin.ext_iff, added]
        rw [same]
        rfl
      · rw [if_neg budget] at returned
        cases returned
    · rw [if_neg added] at returned
      cases returned
      have found : header.search blockNo < header.numBlocks := by
        have bound := header.search_le blockNo
        omega
      have listed : header.blockNo ⟨header.search blockNo, within⟩ = blockNo := by
        rw [header.blockNo_eq_entry within, LogHeader.entry_search found]
      refine Or.inl ⟨⟨⟨header.search blockNo, within⟩, found, listed⟩, ?_⟩
      have same : Function.update header.blockNo ⟨header.search blockNo, within⟩ blockNo =
          header.blockNo := by
        rw [Function.update_eq_self_iff, listed]
      rw [same]
  · rw [dif_neg within] at returned
    cases returned

theorem LogHeader.lists_push {header : LogHeader} {blockNo other : BlockNo}
    (slot : header.numBlocks < logMaxSize) :
    (header.push blockNo).Lists other ↔ header.Lists other ∨ other = blockNo := by
  constructor
  · rintro ⟨index, within, number⟩
    simp only [push] at within number
    by_cases last : index.val = header.numBlocks
    · rw [if_pos last] at number
      exact Or.inr number.symm
    · rw [if_neg last] at number
      exact Or.inl ⟨index, by omega, number⟩
  · rintro (⟨index, within, number⟩ | rfl)
    · refine ⟨index, Nat.lt_succ_of_lt within, ?_⟩
      simp only [push]
      rw [if_neg (Nat.ne_of_lt within)]
      exact number
    · exact ⟨⟨header.numBlocks, slot⟩, Nat.lt_succ_self _, if_pos rfl⟩

theorem LogHeader.Distinct.push {header : LogHeader} (distinct : header.Distinct)
    {blockNo : BlockNo} (fresh : ¬header.Lists blockNo) : (header.push blockNo).Distinct := by
  intro left right leftWithin rightWithin same
  simp only [LogHeader.push] at leftWithin rightWithin same
  by_cases leftLast : left.val = header.numBlocks <;>
    by_cases rightLast : right.val = header.numBlocks
  · exact Fin.ext (leftLast.trans rightLast.symm)
  · rw [if_pos leftLast, if_neg rightLast] at same
    exact absurd ⟨right, by omega, same.symm⟩ fresh
  · rw [if_neg leftLast, if_pos rightLast] at same
    exact absurd ⟨left, by omega, same⟩ fresh
  · rw [if_neg leftLast, if_neg rightLast] at same
    exact distinct left right (by omega) (by omega) same

/-! ### What each step can do -/

namespace OpState

variable {state after : OpState} {thread : Tid} {ctx : CtxId} {blockNo : BlockNo}

theorem beginOp_ok (taken : state.beginOp thread ctx = .ok after) :
    state.pc thread = .idle ∧ state.phase ctx = .unused ∧
      after = (state.setPhase ctx .starting).goto thread (.beginning ctx) := by
  unfold beginOp at taken
  split at taken
  · rename_i free
    cases taken
    exact ⟨free.1, free.2, rfl⟩
  · cases taken

theorem beginTry_ok (taken : state.beginTry thread = .ok after) :
    ∃ ctx, state.pc thread = .beginning ctx ∧
      ((state.semLock = none ∧
          after = { state with semLock := some thread }.goto thread (.beginLocked ctx)) ∨
        (state.log.committing = false ∧ state.log.full state.header = false ∧
          after = (({ state with
            log := state.log.beginOp
            rm := Function.update state.rm ctx opMaxNumBlocks
            opened := ctx :: state.opened }.setPhase ctx .running).goto thread .idle).record
              (.began ctx))) := by
  unfold beginTry at taken
  split at taken
  · rename_i ctx located
    split at taken
    · split at taken
      · rename_i unlocked
        cases taken
        exact ⟨ctx, located, Or.inl ⟨unlocked, rfl⟩⟩
      · cases taken
    · rename_i room
      rw [Bool.or_eq_true, not_or, Bool.not_eq_true, Bool.not_eq_true] at room
      cases taken
      exact ⟨ctx, located, Or.inr ⟨room.1, room.2, rfl⟩⟩
  · cases taken

theorem beginSleep_ok (taken : state.beginSleep thread = .ok after) :
    ∃ ctx, state.pc thread = .beginLocked ctx ∧
      after = { state with sem := (waitSem thread state.sem).2, semLock := none }.goto thread
        (if (waitSem thread state.sem).1 then .beginning ctx else .beginAsleep ctx) := by
  unfold beginSleep at taken
  split at taken
  · rename_i ctx located
    cases taken
    exact ⟨ctx, located, rfl⟩
  · cases taken

theorem beginWake_ok (taken : state.beginWake thread = .ok after) :
    ∃ ctx, state.pc thread = .beginAsleep ctx ∧ thread ∉ state.sem.sleeplist ∧
      after = state.goto thread (.beginning ctx) := by
  unfold beginWake at taken
  split at taken
  · rename_i ctx located
    split at taken
    · rename_i woken
      cases taken
      exact ⟨ctx, located, woken.1, rfl⟩
    · cases taken
  · cases taken

theorem sync_ok (taken : state.sync thread ctx blockNo = .ok after) :
    state.pc thread = .idle ∧ state.phase ctx = .running ∧
      ∃ synced, cacheSync state.log state.header (state.rm ctx) blockNo = .ok synced ∧
        after = { state with
          log := synced.log
          header := synced.header
          rm := Function.update state.rm ctx synced.rm }.record (.synced ctx blockNo) := by
  unfold sync at taken
  split at taken
  · rename_i running
    cases returned : cacheSync state.log state.header (state.rm ctx) blockNo with
    | error reason =>
        rw [returned] at taken
        cases taken
    | ok synced =>
        rw [returned] at taken
        cases taken
        exact ⟨running.1, running.2, synced, rfl, rfl⟩
  · cases taken

/-- The state in which `cache_end_op` decides whether to commit or to wait. -/
def closing (state : OpState) (ctx : CtxId) : OpState :=
  { state with
    log := state.log.endOp (state.rm ctx)
    opened := state.opened.erase ctx }.setPhase ctx .ending

theorem endOp_ok (taken : state.endOp thread ctx = .ok after) :
    state.pc thread = .idle ∧ state.phase ctx = .running ∧ state.log.committing = false ∧
      ((state.log.outstanding - 1 = 0 ∧
          after = ({ state.closing ctx with
            log := { (state.closing ctx).log with committing := true } }.goto thread
              (.committing ctx)).record (.commitStarted state.header.listing)) ∨
        (state.semLock = none ∧ state.outstandingLock = none ∧ ∃ count woken sem,
          postAllSem state.sem = some (count, woken, sem) ∧
          after = { state.closing ctx with sem := sem, outstandingLock := some thread }.goto thread
            (.endLocked ctx))) := by
  unfold endOp at taken
  split at taken
  · rename_i running
    change (if state.log.committing = true then _ else if state.log.outstanding - 1 = 0 then _ else
      if state.semLock = none ∧ state.outstandingLock = none then _ else _) = _ at taken
    split at taken
    · cases taken
    · rename_i idle
      rw [Bool.not_eq_true] at idle
      refine ⟨running.1, running.2, idle, ?_⟩
      split at taken
      · rename_i last
        cases taken
        exact Or.inl ⟨last, rfl⟩
      · split at taken
        · rename_i unlocked
          split at taken
          · cases taken
          · rename_i count woken sem posted
            cases taken
            exact Or.inr ⟨unlocked.1, unlocked.2, count, woken, sem, posted, rfl⟩
        · cases taken
  · cases taken

theorem endSleep_ok (taken : state.endSleep thread = .ok after) :
    ∃ ctx, state.pc thread = .endLocked ctx ∧
      (((waitSem thread state.outstandingSem).1 = true ∧
          after = { state with
            outstandingSem := (waitSem thread state.outstandingSem).2
            outstandingLock := none }.finish thread ctx) ∨
        ((waitSem thread state.outstandingSem).1 = false ∧
          after = { state with
            outstandingSem := (waitSem thread state.outstandingSem).2
            outstandingLock := none }.goto thread (.endAsleep ctx))) := by
  unfold endSleep at taken
  split at taken
  · rename_i ctx located
    refine ⟨ctx, located, ?_⟩
    cases granted : (waitSem thread state.outstandingSem).1 with
    | true =>
        simp only [granted, if_true] at taken
        cases taken
        exact Or.inl ⟨rfl, rfl⟩
    | false =>
        simp only [granted, Bool.false_eq_true, if_false] at taken
        cases taken
        exact Or.inr ⟨rfl, rfl⟩
  · cases taken

theorem endWake_ok (taken : state.endWake thread = .ok after) :
    ∃ ctx, state.pc thread = .endAsleep ctx ∧ thread ∉ state.outstandingSem.sleeplist ∧
      after = state.finish thread ctx := by
  unfold endWake at taken
  split at taken
  · rename_i ctx located
    split at taken
    · rename_i woken
      cases taken
      exact ⟨ctx, located, woken.1, rfl⟩
    · cases taken
  · cases taken

theorem commitReturn_ok (taken : state.commitReturn thread = .ok after) :
    ∃ ctx, state.pc thread = .committing ctx ∧
      after = ({ state with header := { state.header with numBlocks := 0 } }.goto thread
        (.committed ctx)).record .commitReturned := by
  unfold commitReturn at taken
  split at taken
  · rename_i ctx located
    cases taken
    exact ⟨ctx, located, rfl⟩
  · cases taken

theorem commitDone_ok (taken : state.commitDone thread = .ok after) :
    ∃ ctx, state.pc thread = .committed ctx ∧ state.semLock = none ∧
      state.outstandingLock = none ∧ ∃ count woken outstandingSem count' woken' sem,
        postAllSem state.outstandingSem = some (count, woken, outstandingSem) ∧
        postAllSem state.sem = some (count', woken', sem) ∧
        after = { state with
          log := { state.log with committing := false }
          outstandingSem := outstandingSem
          sem := sem }.finish thread ctx := by
  unfold commitDone at taken
  split at taken
  · rename_i ctx located
    split at taken
    · rename_i unlocked
      split at taken
      · rename_i count woken outstandingSem count' woken' sem posted posted'
        cases taken
        exact ⟨ctx, located, unlocked.1, unlocked.2, count, woken, outstandingSem, count', woken',
          sem, posted, posted', rfl⟩
      · cases taken
    · cases taken
  · cases taken

end OpState

/-! ### Contexts and the threads that use them -/

def Pc.ctx? : Pc → Option CtxId
  | .idle => none
  | .beginning ctx | .beginLocked ctx | .beginAsleep ctx => some ctx
  | .endLocked ctx | .endAsleep ctx | .committing ctx | .committed ctx => some ctx

def Pc.phase : Pc → Phase
  | .idle => .unused
  | .beginning _ | .beginLocked _ | .beginAsleep _ => .starting
  | .endLocked _ | .endAsleep _ | .committing _ | .committed _ => .ending

/-- A context that a call is working on is in the phase of that call, and no second call
works on it. -/
structure Control (pc : Tid → Pc) (phase : CtxId → Phase) : Prop where
  phased : ∀ thread ctx, (pc thread).ctx? = some ctx → phase ctx = (pc thread).phase
  owned : ∀ left right ctx, (pc left).ctx? = some ctx → (pc right).ctx? = some ctx → left = right

theorem Pc.phase_of_ctx {pc : Pc} {ctx : CtxId} (used : pc.ctx? = some ctx) :
    pc.phase = .starting ∨ pc.phase = .ending := by
  cases pc with
  | idle => cases used
  | beginning _ | beginLocked _ | beginAsleep _ => exact Or.inl rfl
  | endLocked _ | endAsleep _ | committing _ | committed _ => exact Or.inr rfl

/-- One thread moves, and at most the context it works on changes its phase. -/
theorem Control.move {pc : Tid → Pc} {phase : CtxId → Phase} (control : Control pc phase)
    {thread : Tid} {ctx : CtxId} {next : Pc} {changed : Phase}
    (alone : ∀ other, other ≠ thread → (pc other).ctx? ≠ some ctx)
    (moved : next.ctx? = none ∨ (next.ctx? = some ctx ∧ changed = next.phase)) :
    Control (Function.update pc thread next) (Function.update phase ctx changed) := by
  have used (other : Tid) (current : CtxId)
      (member : (Function.update pc thread next other).ctx? = some current) :
      (other = thread ∧ current = ctx ∧ changed = next.phase) ∨
        (other ≠ thread ∧ current ≠ ctx ∧ (pc other).ctx? = some current) := by
    by_cases same : other = thread
    · subst same
      rw [Function.update_self] at member
      rcases moved with gone | ⟨stays, phased⟩
      · rw [gone] at member
        cases member
      · rw [stays] at member
        exact Or.inl ⟨rfl, (Option.some.inj member).symm, phased⟩
    · rw [Function.update_of_ne same] at member
      refine Or.inr ⟨same, ?_, member⟩
      intro equal
      rw [equal] at member
      exact alone other same member
  constructor
  · intro other current member
    rcases used other current member with ⟨rfl, rfl, phased⟩ | ⟨different, elsewhere, before⟩
    · rw [Function.update_self, Function.update_self]
      exact phased
    · rw [Function.update_of_ne different, Function.update_of_ne elsewhere]
      exact control.phased other current before
  · intro left right current leftUses rightUses
    rcases used left current leftUses with ⟨leftThread, leftCtx, _⟩ | ⟨_, leftElse, leftBefore⟩ <;>
      rcases used right current rightUses with
        ⟨rightThread, rightCtx, _⟩ | ⟨_, rightElse, rightBefore⟩
    · exact leftThread.trans rightThread.symm
    · exact absurd leftCtx rightElse
    · exact absurd rightCtx leftElse
    · exact control.owned left right current leftBefore rightBefore

/-- Nobody works on a context that is unused or running. -/
theorem Control.nobody {pc : Tid → Pc} {phase : CtxId → Phase} (control : Control pc phase)
    {ctx : CtxId} (quiet : phase ctx = .unused ∨ phase ctx = .running) (thread : Tid) :
    (pc thread).ctx? ≠ some ctx := by
  intro used
  have phased := control.phased thread ctx used
  rcases Pc.phase_of_ctx used with starting | ending <;> rcases quiet with quiet | quiet <;>
    rw [quiet] at phased <;> simp_all

theorem Control.nobody_else {pc : Tid → Pc} {phase : CtxId → Phase} (control : Control pc phase)
    {thread : Tid} {ctx : CtxId} (used : (pc thread).ctx? = some ctx) (other : Tid)
    (different : other ≠ thread) : (pc other).ctx? ≠ some ctx :=
  fun also => different (control.owned other thread ctx also used)

/-- The list of opened operations names the running contexts, each once. -/
structure Tracked (state : OpState) : Prop where
  control : Control state.pc state.phase
  unrepeated : state.opened.Nodup
  running : ∀ ctx, ctx ∈ state.opened ↔ state.phase ctx = .running

namespace Tracked

variable {state after : OpState} {thread : Tid} {ctx : CtxId}

/-- A thread goes on within its call, or returns from it without a change of the phase. -/
theorem goto (tracked : Tracked state) {pc next : Pc} (located : state.pc thread = pc)
    (pcs : after.pc = Function.update state.pc thread next) (phases : after.phase = state.phase)
    (opened : after.opened = state.opened) (used : pc.ctx? = some ctx)
    (stays : next.ctx? = some ctx) (same : pc.phase = next.phase) : Tracked after := by
  subst located
  have phased := tracked.control.phased thread ctx used
  have moved := tracked.control.move (tracked.control.nobody_else used)
    (Or.inr ⟨stays, phased.trans same⟩)
  rw [Function.update_eq_self, ← pcs, ← phases] at moved
  constructor
  · exact moved
  · rw [opened]
    exact tracked.unrepeated
  · rw [opened, phases]
    exact tracked.running

theorem rephase (tracked : Tracked state) {next : Pc} {changed : Phase}
    (alone : ∀ other, other ≠ thread → (state.pc other).ctx? ≠ some ctx)
    (moved : next.ctx? = none ∨ (next.ctx? = some ctx ∧ changed = next.phase))
    (pcs : after.pc = Function.update state.pc thread next)
    (phases : after.phase = Function.update state.phase ctx changed)
    (opened : after.opened = state.opened.erase ctx) (stopped : changed ≠ .running) :
    Tracked after := by
  constructor
  · rw [pcs, phases]
    exact tracked.control.move alone moved
  · rw [opened]
    exact tracked.unrepeated.erase ctx
  · intro other
    rw [opened, phases, tracked.unrepeated.mem_erase_iff, tracked.running]
    by_cases same : other = ctx
    · subst same
      rw [Function.update_self]
      constructor
      · intro both
        exact absurd rfl both.1
      · intro still
        exact absurd still stopped
    · rw [Function.update_of_ne same]
      exact and_iff_right same

theorem begun (tracked : Tracked state) (located : state.pc thread = .beginning ctx)
    (pcs : after.pc = Function.update state.pc thread .idle)
    (phases : after.phase = Function.update state.phase ctx .running)
    (opened : after.opened = ctx :: state.opened) : Tracked after := by
  have used : (state.pc thread).ctx? = some ctx := by
    rw [located]
    rfl
  have starting : state.phase ctx = .starting := by
    rw [tracked.control.phased thread ctx used, located]
    rfl
  constructor
  · rw [pcs, phases]
    exact tracked.control.move (tracked.control.nobody_else used) (Or.inl rfl)
  · rw [opened, List.nodup_cons]
    refine ⟨?_, tracked.unrepeated⟩
    rw [tracked.running, starting]
    intro impossible
    cases impossible
  · intro other
    rw [opened, phases, List.mem_cons, tracked.running]
    by_cases same : other = ctx
    · subst same
      rw [Function.update_self]
      exact iff_of_true (Or.inl rfl) rfl
    · rw [Function.update_of_ne same]
      exact or_iff_right same

theorem initial (sblock : SuperBlock) (blockNo : Fin logMaxSize → BlockNo) :
    Tracked (OpState.initial sblock blockNo) := by
  constructor
  · constructor
    · intro thread ctx used
      cases used
    · intro left right ctx used
      cases used
  · exact List.nodup_nil
  · intro ctx
    constructor
    · intro member
      cases member
    · intro running
      cases running

/-- The finished context was ending, so it is not among the opened ones. -/
theorem finish (tracked : Tracked state) {pc : Pc} (located : state.pc thread = pc)
    (pcs : after.pc = Function.update state.pc thread .idle)
    (phases : after.phase = Function.update state.phase ctx .unused)
    (opened : after.opened = state.opened) (used : pc.ctx? = some ctx)
    (ending : pc.phase = .ending) : Tracked after := by
  subst located
  have absent : ctx ∉ state.opened := by
    rw [tracked.running, tracked.control.phased thread ctx used, ending]
    intro impossible
    cases impossible
  refine tracked.rephase (tracked.control.nobody_else used) (Or.inl rfl) pcs phases ?_ nofun
  rw [opened, List.erase_of_not_mem absent]

theorem step (tracked : Tracked state) {action : OpAction}
    (taken : opStep state action = .ok after) : Tracked after := by
  cases action with
  | beginOp thread ctx =>
      obtain ⟨_, unused, rfl⟩ := OpState.beginOp_ok taken
      have absent : ctx ∉ state.opened := by
        rw [tracked.running, unused]
        intro impossible
        cases impossible
      exact tracked.rephase (fun other _ => tracked.control.nobody (Or.inl unused) other)
        (Or.inr ⟨rfl, rfl⟩) rfl rfl (List.erase_of_not_mem absent).symm nofun
  | beginTry thread =>
      obtain ⟨ctx, located, ⟨_, rfl⟩ | ⟨_, _, rfl⟩⟩ := OpState.beginTry_ok taken
      · exact tracked.goto located rfl rfl rfl rfl rfl rfl
      · exact tracked.begun located rfl rfl rfl
  | beginSleep thread =>
      obtain ⟨ctx, located, rfl⟩ := OpState.beginSleep_ok taken
      refine tracked.goto located rfl rfl rfl rfl ?_ ?_
      · split <;> rfl
      · split <;> rfl
  | beginWake thread =>
      obtain ⟨ctx, located, _, rfl⟩ := OpState.beginWake_ok taken
      exact tracked.goto located rfl rfl rfl rfl rfl rfl
  | sync thread ctx blockNo =>
      obtain ⟨_, _, synced, _, rfl⟩ := OpState.sync_ok taken
      exact ⟨tracked.control, tracked.unrepeated, tracked.running⟩
  | endOp thread ctx =>
      obtain ⟨_, running, _, ⟨_, rfl⟩ | ⟨_, _, _, _, _, _, rfl⟩⟩ := OpState.endOp_ok taken
      · exact tracked.rephase (fun other _ => tracked.control.nobody (Or.inr running) other)
          (Or.inr ⟨rfl, rfl⟩) rfl rfl rfl nofun
      · exact tracked.rephase (fun other _ => tracked.control.nobody (Or.inr running) other)
          (Or.inr ⟨rfl, rfl⟩) rfl rfl rfl nofun
  | endSleep thread =>
      obtain ⟨ctx, located, ⟨_, rfl⟩ | ⟨_, rfl⟩⟩ := OpState.endSleep_ok taken
      · exact tracked.finish located rfl rfl rfl rfl rfl
      · exact tracked.goto located rfl rfl rfl rfl rfl rfl
  | endWake thread =>
      obtain ⟨ctx, located, _, rfl⟩ := OpState.endWake_ok taken
      exact tracked.finish located rfl rfl rfl rfl rfl
  | commitReturn thread =>
      obtain ⟨ctx, located, rfl⟩ := OpState.commitReturn_ok taken
      exact tracked.goto located rfl rfl rfl rfl rfl rfl
  | commitDone thread =>
      obtain ⟨ctx, located, _, _, _, _, _, _, _, _, _, _, rfl⟩ := OpState.commitDone_ok taken
      exact tracked.finish located rfl rfl rfl rfl rfl

end Tracked

end LabKernel.Fs
