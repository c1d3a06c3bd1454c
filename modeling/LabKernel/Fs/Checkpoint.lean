/-
Group commit: the operation that ends last commits for all that ended before it.

The first half is about who may commit and who sleeps on `log.outstandingsem`.
The second half follows the recorded history: what an ended operation synced stays
listed until a commit has taken it over, and only then does its `cache_end_op`
return.
-/

import LabKernel.Fs.Operation
import LabKernel.Lib.History

set_option autoImplicit false

namespace LabKernel.Fs

open Common Transition

/-! ### Committers and sleepers -/

/-- The thread is between setting `log.committing` and clearing it. -/
def Pc.Commits : Pc → Prop
  | .committing _ | .committed _ => True
  | _ => False

structure Grouping (state : OpState) : Prop where
  outstanding : state.log.outstanding = (state.opened.length : Int)
  balanced : state.outstandingSem.Balanced
  spent : state.outstandingSem.val ≤ 0
  asleep : ∀ thread, thread ∈ state.outstandingSem.sleeplist →
    ∃ ctx, state.pc thread = .endAsleep ctx
  locked : ∀ thread ctx, state.pc thread = .endLocked ctx → state.outstandingLock = some thread
  flagged : ∀ thread, (state.pc thread).Commits → state.log.committing = true
  single : ∀ left right, (state.pc left).Commits → (state.pc right).Commits → left = right
  closed : state.log.committing = true → state.opened = []

namespace Grouping

variable {state after : OpState} {thread : Tid}

theorem nobody_commits (grouping : Grouping state) (idle : state.log.committing = false)
    (other : Tid) : ¬(state.pc other).Commits := by
  intro commits
  have flag := grouping.flagged other commits
  rw [idle] at flag
  cases flag

theorem awake (grouping : Grouping state) {pc : Pc} (located : state.pc thread = pc)
    (elsewhere : ∀ ctx, pc ≠ .endAsleep ctx) : thread ∉ state.outstandingSem.sleeplist := by
  intro member
  obtain ⟨ctx, sleeps⟩ := grouping.asleep thread member
  exact elsewhere ctx (located.symm.trans sleeps)

/-- A thread that does not sleep on `log.outstandingsem` moves; the others keep sleeping. -/
theorem others_asleep (grouping : Grouping state) {next : Pc}
    (awake : thread ∉ state.outstandingSem.sleeplist) :
    ∀ other, other ∈ state.outstandingSem.sleeplist →
      ∃ ctx, Function.update state.pc thread next other = .endAsleep ctx := by
  intro other member
  have different : other ≠ thread := fun same => awake (same ▸ member)
  rw [Function.update_of_ne different]
  exact grouping.asleep other member

theorem commits_before {next : Pc} (calm : next.Commits → (state.pc thread).Commits)
    (other : Tid) (commits : (Function.update state.pc thread next other).Commits) :
    (state.pc other).Commits := by
  by_cases same : other = thread
  · rw [same, Function.update_self] at commits
    rw [same]
    exact calm commits
  · rwa [Function.update_of_ne same] at commits

theorem locked_before (grouping : Grouping state) {next : Pc} {other : Tid} {ctx : CtxId}
    (located : Function.update state.pc thread next other = .endLocked ctx)
    (unlocked : ∀ ctx, next ≠ .endLocked ctx) :
    other ≠ thread ∧ state.outstandingLock = some other := by
  have different : other ≠ thread := by
    intro same
    rw [same, Function.update_self] at located
    exact unlocked ctx located
  rw [Function.update_of_ne different] at located
  exact ⟨different, grouping.locked other ctx located⟩

/-- A step that leaves `log.outstandingsem` and `log.committing` alone. -/
theorem quiet (grouping : Grouping state) {next : Pc}
    (pcs : after.pc = Function.update state.pc thread next)
    (awake : thread ∉ state.outstandingSem.sleeplist)
    (calm : next.Commits → (state.pc thread).Commits) (unlocked : ∀ ctx, next ≠ .endLocked ctx)
    (outstanding : after.log.outstanding = (after.opened.length : Int))
    (committing : after.log.committing = state.log.committing)
    (opened : state.log.committing = true → after.opened = state.opened)
    (sem : after.outstandingSem = state.outstandingSem)
    (lock : after.outstandingLock = state.outstandingLock) : Grouping after := by
  constructor
  · exact outstanding
  · rw [sem]
    exact grouping.balanced
  · rw [sem]
    exact grouping.spent
  · rw [sem, pcs]
    exact grouping.others_asleep awake
  · intro other ctx located
    rw [pcs] at located
    rw [lock]
    exact (grouping.locked_before located unlocked).2
  · intro other commits
    rw [pcs] at commits
    rw [committing]
    exact grouping.flagged other (commits_before calm other commits)
  · intro left right leftCommits rightCommits
    rw [pcs] at leftCommits rightCommits
    exact grouping.single left right (commits_before calm left leftCommits)
      (commits_before calm right rightCommits)
  · intro flag
    rw [committing] at flag
    rw [opened flag]
    exact grouping.closed flag

/-- The last operation to end finds nobody else outstanding and becomes the committer. -/
theorem last (grouping : Grouping state) {ctx : CtxId} (located : state.pc thread = .idle)
    (idle : state.log.committing = false) (member : ctx ∈ state.opened)
    (zero : state.log.outstanding - 1 = 0)
    (pcs : after.pc = Function.update state.pc thread (.committing ctx))
    (outstanding : after.log.outstanding = state.log.outstanding - 1)
    (committing : after.log.committing = true) (opened : after.opened = state.opened.erase ctx)
    (sem : after.outstandingSem = state.outstandingSem)
    (lock : after.outstandingLock = state.outstandingLock) : Grouping after := by
  have empty : after.opened = [] := by
    have counted := grouping.outstanding
    have erased := List.length_erase_of_mem member
    rw [opened, ← List.length_eq_zero_iff]
    omega
  have only (other : Tid) (commits : (after.pc other).Commits) : other = thread := by
    by_contra different
    rw [pcs, Function.update_of_ne different] at commits
    exact grouping.nobody_commits idle other commits
  constructor
  · rw [outstanding, zero, empty]
    rfl
  · rw [sem]
    exact grouping.balanced
  · rw [sem]
    exact grouping.spent
  · rw [sem, pcs]
    exact grouping.others_asleep (grouping.awake located nofun)
  · intro other current waits
    rw [pcs] at waits
    rw [lock]
    exact (grouping.locked_before waits nofun).2
  · intro other commits
    exact committing
  · intro left right leftCommits rightCommits
    exact (only left leftCommits).trans (only right rightCommits).symm
  · intro _
    exact empty

/-- An operation that ends earlier takes the lock of `log.outstandingsem`. -/
theorem waits (grouping : Grouping state) {ctx : CtxId} (located : state.pc thread = .idle)
    (idle : state.log.committing = false) (member : ctx ∈ state.opened)
    (free : state.outstandingLock = none)
    (pcs : after.pc = Function.update state.pc thread (.endLocked ctx))
    (outstanding : after.log.outstanding = state.log.outstanding - 1)
    (committing : after.log.committing = state.log.committing)
    (opened : after.opened = state.opened.erase ctx)
    (sem : after.outstandingSem = state.outstandingSem)
    (lock : after.outstandingLock = some thread) : Grouping after := by
  have nobody (other : Tid) : ¬(after.pc other).Commits := by
    rw [pcs]
    intro commits
    exact grouping.nobody_commits idle other (commits_before False.elim other commits)
  constructor
  · have counted := grouping.outstanding
    have erased := List.length_erase_of_mem member
    have positive := List.length_pos_of_mem member
    rw [outstanding, opened, erased]
    omega
  · rw [sem]
    exact grouping.balanced
  · rw [sem]
    exact grouping.spent
  · rw [sem, pcs]
    exact grouping.others_asleep (grouping.awake located nofun)
  · intro other current waits
    by_cases same : other = thread
    · rw [lock, same]
    · rw [pcs, Function.update_of_ne same] at waits
      have held := grouping.locked other current waits
      rw [free] at held
      cases held
  · intro other commits
    exact absurd commits (nobody other)
  · intro left right commits
    exact absurd commits (nobody left)
  · intro flag
    rw [committing, idle] at flag
    cases flag

/-- Nothing is ever left on `log.outstandingsem`, so its waiters sleep. -/
theorem must_sleep (grouping : Grouping state) (other : Tid) :
    waitSem other state.outstandingSem = (false,
      { val := state.outstandingSem.val - 1
        sleeplist := other :: state.outstandingSem.sleeplist }) := by
  have spent := grouping.spent
  unfold waitSem
  rw [if_neg (by omega)]

theorem sleeps (grouping : Grouping state) {ctx : CtxId}
    (located : state.pc thread = .endLocked ctx)
    (pcs : after.pc = Function.update state.pc thread (.endAsleep ctx))
    (log : after.log = state.log) (opened : after.opened = state.opened)
    (sem : after.outstandingSem = (waitSem thread state.outstandingSem).2) : Grouping after := by
  constructor
  · rw [log, opened]
    exact grouping.outstanding
  · rw [sem]
    exact grouping.balanced.wait thread
  · have spent := grouping.spent
    rw [sem, grouping.must_sleep]
    simp only
    omega
  · intro other member
    rw [sem, grouping.must_sleep] at member
    by_cases same : other = thread
    · exact ⟨ctx, by rw [pcs, same, Function.update_self]⟩
    · rw [pcs, Function.update_of_ne same]
      exact grouping.asleep other (List.mem_of_ne_of_mem same member)
  · intro other current waits
    rw [pcs] at waits
    have held := grouping.locked_before waits nofun
    rw [grouping.locked thread ctx located] at held
    exact absurd (Option.some.inj held.2).symm held.1
  · intro other commits
    rw [pcs] at commits
    rw [log]
    exact grouping.flagged other (commits_before False.elim other commits)
  · intro left right leftCommits rightCommits
    rw [pcs] at leftCommits rightCommits
    exact grouping.single left right (commits_before False.elim left leftCommits)
      (commits_before False.elim right rightCommits)
  · rw [log, opened]
    exact grouping.closed

/-- The commit is over: the committer was alone, and it wakes every sleeper. -/
theorem done (grouping : Grouping state) {ctx : CtxId}
    (located : state.pc thread = .committed ctx)
    (pcs : after.pc = Function.update state.pc thread .idle)
    (outstanding : after.log.outstanding = state.log.outstanding)
    (committing : after.log.committing = false) (opened : after.opened = state.opened)
    (sem : after.outstandingSem = { val := max state.outstandingSem.val 0, sleeplist := [] })
    (lock : after.outstandingLock = state.outstandingLock) : Grouping after := by
  have spent := grouping.spent
  have committer : (state.pc thread).Commits := by
    rw [located]
    trivial
  have nobody (other : Tid) : ¬(after.pc other).Commits := by
    rw [pcs]
    intro commits
    have same := grouping.single other thread (commits_before False.elim other commits) committer
    rw [same, Function.update_self] at commits
    exact commits
  constructor
  · rw [outstanding, opened]
    exact grouping.outstanding
  · rw [sem]
    unfold Semaphore.Balanced
    simp only [List.length_nil]
    omega
  · rw [sem]
    simp only
    omega
  · intro other member
    rw [sem] at member
    cases member
  · intro other current waits
    rw [pcs] at waits
    rw [lock]
    exact (grouping.locked_before waits nofun).2
  · intro other commits
    exact absurd commits (nobody other)
  · intro left right commits
    exact absurd commits (nobody left)
  · intro flag
    rw [committing] at flag
    cases flag

theorem initial (sblock : SuperBlock) (blockNo : Fin logMaxSize → BlockNo) :
    Grouping (OpState.initial sblock blockNo) := by
  constructor
  · rfl
  · exact Semaphore.Balanced.init (Int.le_refl 0)
  · exact Int.le_refl 0
  · intro other member
    cases member
  · intro other ctx located
    cases located
  · intro other commits
    cases commits
  · intro left right commits
    cases commits
  · intro flag
    cases flag

theorem step (grouping : Grouping state) (tracked : Tracked state) {action : OpAction}
    (taken : opStep state action = .ok after) : Grouping after := by
  cases action with
  | beginOp thread ctx =>
      obtain ⟨located, _, rfl⟩ := OpState.beginOp_ok taken
      exact grouping.quiet rfl (grouping.awake located nofun) False.elim nofun grouping.outstanding
        rfl (fun _ => rfl) rfl rfl
  | beginTry thread =>
      obtain ⟨ctx, located, ⟨_, rfl⟩ | ⟨idle, _, rfl⟩⟩ := OpState.beginTry_ok taken
      · exact grouping.quiet rfl (grouping.awake located nofun) False.elim nofun
          grouping.outstanding rfl (fun _ => rfl) rfl rfl
      · refine grouping.quiet rfl (grouping.awake located nofun) False.elim nofun ?_ rfl ?_ rfl rfl
        · have counted := grouping.outstanding
          change state.log.outstanding + 1 = ((ctx :: state.opened).length : Int)
          rw [List.length_cons]
          omega
        · intro flag
          rw [idle] at flag
          cases flag
  | beginSleep thread =>
      obtain ⟨ctx, located, rfl⟩ := OpState.beginSleep_ok taken
      refine grouping.quiet rfl (grouping.awake located nofun) ?_ ?_ grouping.outstanding rfl
        (fun _ => rfl) rfl rfl
      · split <;> exact False.elim
      · split <;> nofun
  | beginWake thread =>
      obtain ⟨ctx, located, _, rfl⟩ := OpState.beginWake_ok taken
      exact grouping.quiet rfl (grouping.awake located nofun) False.elim nofun grouping.outstanding
        rfl (fun _ => rfl) rfl rfl
  | sync thread ctx blockNo =>
      obtain ⟨located, _, synced, returned, rfl⟩ := OpState.sync_ok taken
      have log : synced.log.outstanding = state.log.outstanding ∧
          synced.log.committing = state.log.committing := by
        obtain ⟨_, _, ⟨_, rfl⟩ | ⟨_, _, _, rfl⟩⟩ := cacheSync_ok returned
        · exact ⟨rfl, rfl⟩
        · exact ⟨rfl, rfl⟩
      have pcs : state.pc = Function.update state.pc thread .idle :=
        (Function.update_eq_self_iff.mpr located.symm).symm
      exact grouping.quiet pcs (grouping.awake located nofun) False.elim nofun
        (log.1.trans grouping.outstanding) log.2 (fun _ => rfl) rfl rfl
  | endOp thread ctx =>
      obtain ⟨located, running, idle, ⟨zero, rfl⟩ | ⟨_, free, _, _, _, _, rfl⟩⟩ :=
        OpState.endOp_ok taken
      · exact grouping.last located idle ((tracked.running ctx).mpr running) zero rfl rfl rfl rfl
          rfl rfl
      · exact grouping.waits located idle ((tracked.running ctx).mpr running) free rfl rfl rfl rfl
          rfl rfl
  | endSleep thread =>
      obtain ⟨ctx, located, ⟨granted, _⟩ | ⟨_, rfl⟩⟩ := OpState.endSleep_ok taken
      · rw [grouping.must_sleep] at granted
        cases granted
      · exact grouping.sleeps located rfl rfl rfl rfl
  | endWake thread =>
      obtain ⟨ctx, located, awake, rfl⟩ := OpState.endWake_ok taken
      exact grouping.quiet rfl awake False.elim nofun grouping.outstanding rfl (fun _ => rfl) rfl
        rfl
  | commitReturn thread =>
      obtain ⟨ctx, located, rfl⟩ := OpState.commitReturn_ok taken
      refine grouping.quiet rfl (grouping.awake located nofun) ?_ nofun grouping.outstanding rfl
        (fun _ => rfl) rfl rfl
      rw [located]
      exact id
  | commitDone thread =>
      obtain ⟨ctx, located, _, _, _, _, outstandingSem, _, _, _, posted, _, rfl⟩ :=
        OpState.commitDone_ok taken
      rw [postAllSem_balanced grouping.balanced] at posted
      cases posted
      exact grouping.done located rfl rfl rfl rfl rfl rfl

end Grouping

/-! ### The history of an operation -/

def Event.ctx? : Event → Option CtxId
  | .began ctx | .synced ctx _ | .ended ctx => some ctx
  | .commitStarted _ | .commitReturned => none

/-- Since its last begin the operation has not ended, and every number it synced since then
is listed. -/
def Covered (ctx : CtxId) (history : List Event) (listed : BlockNo → Prop) : Prop :=
  ∃ earlier work, history = earlier ++ .began ctx :: work ∧
    (∀ event ∈ work, event ≠ .began ctx ∧ event ≠ .ended ctx) ∧
    ∀ blockNo, .synced ctx blockNo ∈ work → listed blockNo

/-- The last commit to start took over all numbers of the operation, which has done nothing
since. -/
def Captured (ctx : CtxId) (history : List Event) (listed : List BlockNo) : Prop :=
  ∃ before during, history = before ++ .commitStarted listed :: during ∧
    Covered ctx before (· ∈ listed) ∧
    ∀ event ∈ during, event.ctx? ≠ some ctx ∧ event.ctx? ≠ none

/-- A commit that took over all numbers of the operation has run to its end. -/
def Checkpointed (ctx : CtxId) (history : List Event) : Prop :=
  ∃ listed completed after, history = completed ++ .commitReturned :: after ∧
    Captured ctx completed listed ∧ ∀ event ∈ after, event.ctx? ≠ some ctx

theorem LogHeader.mem_listing {header : LogHeader} {blockNo : BlockNo}
    (listed : header.Lists blockNo) : blockNo ∈ header.listing := by
  obtain ⟨index, within, number⟩ := listed
  unfold listing
  rw [List.mem_map]
  refine ⟨index.val, List.mem_range.mpr within, ?_⟩
  rw [← header.blockNo_eq_entry index.isLt]
  exact number

section

variable {ctx : CtxId} {history : List Event} {listed : BlockNo → Prop} {event : Event}

private theorem forall_mem_concat {P : Event → Prop} {events : List Event}
    (all : ∀ event ∈ events, P event) (new : P event) : ∀ other ∈ events ++ [event], P other := by
  intro other member
  rcases List.mem_append.mp member with old | last
  · exact all other old
  · rw [List.mem_singleton.mp last]
    exact new

theorem Covered.mono {wider : BlockNo → Prop} (covered : Covered ctx history listed)
    (widen : ∀ blockNo, listed blockNo → wider blockNo) : Covered ctx history wider := by
  obtain ⟨earlier, work, split, open_, synced⟩ := covered
  exact ⟨earlier, work, split, open_, fun blockNo member => widen blockNo (synced blockNo member)⟩

theorem Covered.began (ctx : CtxId) (history : List Event) (listed : BlockNo → Prop) :
    Covered ctx (history ++ [.began ctx]) listed := by
  refine ⟨history, [], rfl, ?_, ?_⟩
  · intro event member
    cases member
  · intro blockNo member
    cases member

/-- The operation goes on: it is neither begun again nor ended, and what it syncs is listed. -/
theorem Covered.record (covered : Covered ctx history listed)
    (goes : event ≠ .began ctx ∧ event ≠ .ended ctx)
    (syncs : ∀ blockNo, event = .synced ctx blockNo → listed blockNo) :
    Covered ctx (history ++ [event]) listed := by
  obtain ⟨earlier, work, split, open_, synced⟩ := covered
  refine ⟨earlier, work ++ [event], ?_, forall_mem_concat open_ goes, ?_⟩
  · rw [split, List.append_assoc, List.cons_append]
  · intro blockNo member
    rcases List.mem_append.mp member with old | last
    · exact synced blockNo old
    · exact syncs blockNo (List.mem_singleton.mp last).symm

theorem Covered.other (covered : Covered ctx history listed) (other : event.ctx? ≠ some ctx) :
    Covered ctx (history ++ [event]) listed := by
  refine covered.record ⟨?_, ?_⟩ ?_
  · intro same
    exact other (congrArg Event.ctx? same)
  · intro same
    exact other (congrArg Event.ctx? same)
  · intro blockNo same
    exact absurd (congrArg Event.ctx? same) other

theorem Covered.capture {numbers : List BlockNo} (covered : Covered ctx history (· ∈ numbers)) :
    Captured ctx (history ++ [.commitStarted numbers]) numbers := by
  refine ⟨history, [], rfl, covered, ?_⟩
  intro event member
  cases member

theorem Captured.other {numbers : List BlockNo} (captured : Captured ctx history numbers)
    (other : event.ctx? ≠ some ctx) (work : event.ctx? ≠ none) :
    Captured ctx (history ++ [event]) numbers := by
  obtain ⟨before, during, split, covered, quiet⟩ := captured
  refine ⟨before, during ++ [event], ?_, covered, forall_mem_concat quiet ⟨other, work⟩⟩
  rw [split, List.append_assoc, List.cons_append]

theorem Captured.checkpoint {numbers : List BlockNo} (captured : Captured ctx history numbers) :
    Checkpointed ctx (history ++ [.commitReturned]) := by
  refine ⟨numbers, history, [], rfl, captured, ?_⟩
  intro event member
  cases member

theorem Checkpointed.other (checkpointed : Checkpointed ctx history)
    (other : event.ctx? ≠ some ctx) : Checkpointed ctx (history ++ [event]) := by
  obtain ⟨numbers, completed, after, split, captured, quiet⟩ := checkpointed
  refine ⟨numbers, completed, after ++ [event], ?_, captured, forall_mem_concat quiet other⟩
  rw [split, List.append_assoc, List.cons_append]

end

/-- Every end was checkpointed when it was recorded. -/
def Answered (before : List Event) (event : Event) : Prop :=
  ∀ ctx, event = .ended ctx → Checkpointed ctx before

/-! ### Waiting for the checkpoint -/

namespace OpState

/-- The operation has ended and its end has not been answered by a commit. -/
def Waiting (state : OpState) (ctx : CtxId) : Prop :=
  ∃ thread, state.pc thread = .endLocked ctx ∨
    (state.pc thread = .endAsleep ctx ∧ thread ∈ state.outstandingSem.sleeplist) ∨
    state.pc thread = .committing ctx

/-- The end of the operation is about to return. -/
def Released (state : OpState) (ctx : CtxId) : Prop :=
  ∃ thread, (state.pc thread = .endAsleep ctx ∧ thread ∉ state.outstandingSem.sleeplist) ∨
    state.pc thread = .committed ctx

/-- Before the commit, while it runs, and after it has returned. -/
structure Pending (state : OpState) (ctx : CtxId) : Prop where
  before : state.log.committing = false → Covered ctx state.history state.header.Lists
  running : ∀ thread current, state.pc thread = .committing current →
    Captured ctx state.history state.header.listing
  returned : ∀ thread current, state.pc thread = .committed current →
    Checkpointed ctx state.history

end OpState

structure Accounted (state : OpState) : Prop where
  covered : ∀ ctx, ctx ∈ state.opened → Covered ctx state.history state.header.Lists
  waiting : ∀ ctx, state.Waiting ctx → state.Pending ctx
  released : ∀ ctx, state.Released ctx → Checkpointed ctx state.history
  answered : History.Each Answered state.history

namespace Accounted

variable {state after : OpState} {thread : Tid} {ctx : CtxId}

/-- Wherever somebody is after a thread moved, if it is not where that thread went, they
were there before. -/
theorem pc_other {pc : Tid → Pc} {next target : Pc} {other : Tid}
    (located : Function.update pc thread next other = target) (different : target ≠ next) :
    other ≠ thread ∧ pc other = target := by
  have elsewhere : other ≠ thread := by
    intro same
    rw [same, Function.update_self] at located
    exact different located.symm
  rw [Function.update_of_ne elsewhere] at located
  exact ⟨elsewhere, located⟩

theorem pc_before {pc : Tid → Pc} {next target : Pc} {other : Tid}
    (located : Function.update pc thread next other = target) (ending : target.phase = .ending)
    (outside : next.phase ≠ .ending) : other ≠ thread ∧ pc other = target := by
  apply pc_other located
  intro same
  exact outside (same ▸ ending)

theorem waiting_before {next : Pc} (pcs : after.pc = Function.update state.pc thread next)
    (outside : next.phase ≠ .ending) (sem : after.outstandingSem = state.outstandingSem)
    (waiting : after.Waiting ctx) :
    state.Waiting ctx ∧ ∃ other, other ≠ thread ∧ (state.pc other).ctx? = some ctx := by
  obtain ⟨other, waits⟩ := waiting
  rw [pcs, sem] at waits
  rcases waits with locked | ⟨asleep, listed⟩ | commits
  · obtain ⟨different, before⟩ := pc_before locked rfl outside
    exact ⟨⟨other, Or.inl before⟩, other, different, congrArg Pc.ctx? before⟩
  · obtain ⟨different, before⟩ := pc_before asleep rfl outside
    exact ⟨⟨other, Or.inr (Or.inl ⟨before, listed⟩)⟩, other, different, congrArg Pc.ctx? before⟩
  · obtain ⟨different, before⟩ := pc_before commits rfl outside
    exact ⟨⟨other, Or.inr (Or.inr before)⟩, other, different, congrArg Pc.ctx? before⟩

theorem released_before {next : Pc} (pcs : after.pc = Function.update state.pc thread next)
    (outside : next.phase ≠ .ending) (sem : after.outstandingSem = state.outstandingSem)
    (released : after.Released ctx) :
    state.Released ctx ∧ ∃ other, other ≠ thread ∧ (state.pc other).ctx? = some ctx := by
  obtain ⟨other, returns⟩ := released
  rw [pcs, sem] at returns
  rcases returns with ⟨asleep, woken⟩ | committed
  · obtain ⟨different, before⟩ := pc_before asleep rfl outside
    exact ⟨⟨other, Or.inl ⟨before, woken⟩⟩, other, different, congrArg Pc.ctx? before⟩
  · obtain ⟨different, before⟩ := pc_before committed rfl outside
    exact ⟨⟨other, Or.inr before⟩, other, different, congrArg Pc.ctx? before⟩

/-- A step outside `cache_end_op` that records nothing. -/
theorem quiet (accounted : Accounted state) {next : Pc}
    (pcs : after.pc = Function.update state.pc thread next)
    (outside : next.phase ≠ .ending) (sem : after.outstandingSem = state.outstandingSem)
    (history : after.history = state.history) (header : after.header = state.header)
    (committing : after.log.committing = state.log.committing)
    (opened : after.opened = state.opened) : Accounted after := by
  constructor
  · rw [opened, history, header]
    exact accounted.covered
  · intro current waiting
    have pending := accounted.waiting current (waiting_before pcs outside sem waiting).1
    constructor
    · rw [committing, history, header]
      exact pending.before
    · intro other running located
      rw [pcs] at located
      rw [history, header]
      exact pending.running other running (pc_before located rfl outside).2
    · intro other running located
      rw [pcs] at located
      rw [history]
      exact pending.returned other running (pc_before located rfl outside).2
  · intro current released
    rw [history]
    exact accounted.released current (released_before pcs outside sem released).1
  · rw [history]
    exact accounted.answered

theorem recorded (accounted : Accounted state) {event : Event}
    (pcs : after.pc = Function.update state.pc thread .idle)
    (sem : after.outstandingSem = state.outstandingSem)
    (history : after.history = state.history ++ [event]) (of : event.ctx? = some ctx)
    (alone : ∀ other, other ≠ thread → (state.pc other).ctx? ≠ some ctx)
    (lists : ∀ blockNo, state.header.Lists blockNo → after.header.Lists blockNo)
    (header : ∀ other current, state.pc other = .committing current → after.header = state.header)
    (committing : after.log.committing = state.log.committing)
    (opened : ∀ current, current ∈ after.opened → current ≠ ctx → current ∈ state.opened)
    (own : ctx ∈ after.opened → Covered ctx after.history after.header.Lists)
    (answer : ∀ current, event = .ended current → Checkpointed current state.history) :
    Accounted after := by
  have outside : Pc.idle.phase ≠ .ending := nofun
  have elsewhere {current : CtxId} (different : current ≠ ctx) : event.ctx? ≠ some current := by
    rw [of]
    intro same
    exact different (Option.some.inj same).symm
  have foreign {current : CtxId}
      (used : ∃ other, other ≠ thread ∧ (state.pc other).ctx? = some current) :
      event.ctx? ≠ some current := by
    obtain ⟨other, different, uses⟩ := used
    apply elsewhere
    intro same
    exact alone other different (same ▸ uses)
  constructor
  · intro current member
    by_cases same : current = ctx
    · subst same
      exact own member
    · rw [history]
      exact ((accounted.covered current (opened current member same)).mono lists).other
        (elsewhere same)
  · intro current waiting
    obtain ⟨before, used⟩ := waiting_before pcs outside sem waiting
    have pending := accounted.waiting current before
    constructor
    · intro idle
      rw [committing] at idle
      rw [history]
      exact ((pending.before idle).mono lists).other (foreign used)
    · intro other running located
      rw [pcs] at located
      have commits := (pc_before located rfl outside).2
      rw [history, header other running commits]
      apply (pending.running other running commits).other (foreign used)
      rw [of]
      intro impossible
      cases impossible
    · intro other running located
      rw [pcs] at located
      rw [history]
      exact (pending.returned other running (pc_before located rfl outside).2).other (foreign used)
  · intro current released
    obtain ⟨before, used⟩ := released_before pcs outside sem released
    rw [history]
    exact (accounted.released current before).other (foreign used)
  · rw [history]
    exact accounted.answered.concat answer

/-- While nobody commits, an ended operation waits with everything it synced listed. -/
theorem waits (accounted : Accounted state) (grouping : Grouping state)
    (idle : state.log.committing = false) (member : ctx ∈ state.opened)
    (pcs : after.pc = Function.update state.pc thread (.endLocked ctx))
    (sem : after.outstandingSem = state.outstandingSem)
    (history : after.history = state.history) (header : after.header = state.header)
    (opened : after.opened = state.opened.erase ctx) : Accounted after := by
  have before {other : Tid} {target : Pc} (located : after.pc other = target)
      (different : target ≠ .endLocked ctx) : state.pc other = target := by
    rw [pcs] at located
    exact (pc_other located different).2
  have nobody {other : Tid} {target : Pc} (located : after.pc other = target)
      (different : target ≠ .endLocked ctx) : ¬target.Commits := by
    intro commits
    apply grouping.nobody_commits idle other
    rwa [before located different]
  constructor
  · intro current stillOpen
    rw [opened] at stillOpen
    rw [history, header]
    exact accounted.covered current (List.mem_of_mem_erase stillOpen)
  · intro current waiting
    have covered : Covered current state.history state.header.Lists := by
      by_cases same : current = ctx
      · rw [same]
        exact accounted.covered ctx member
      · apply (accounted.waiting current ?_).before idle
        obtain ⟨other, locked | ⟨asleep, listed⟩ | commits⟩ := waiting
        · exact ⟨other, Or.inl (before locked (fun equal => same (Pc.endLocked.inj equal)))⟩
        · rw [sem] at listed
          exact ⟨other, Or.inr (Or.inl ⟨before asleep nofun, listed⟩)⟩
        · exact ⟨other, Or.inr (Or.inr (before commits nofun))⟩
    constructor
    · intro _
      rw [history, header]
      exact covered
    · intro other running located
      exact absurd trivial (nobody located nofun)
    · intro other running located
      exact absurd trivial (nobody located nofun)
  · intro current released
    rw [history]
    apply accounted.released current
    obtain ⟨other, ⟨asleep, woken⟩ | committed⟩ := released
    · rw [sem] at woken
      exact ⟨other, Or.inl ⟨before asleep nofun, woken⟩⟩
    · exact ⟨other, Or.inr (before committed nofun)⟩
  · rw [history]
    exact accounted.answered

/-- Falling asleep changes nothing about who waits. -/
theorem sleeps (accounted : Accounted state) (grouping : Grouping state)
    (located : state.pc thread = .endLocked ctx)
    (pcs : after.pc = Function.update state.pc thread (.endAsleep ctx))
    (sem : after.outstandingSem = (waitSem thread state.outstandingSem).2)
    (log : after.log = state.log) (history : after.history = state.history)
    (header : after.header = state.header) (opened : after.opened = state.opened) :
    Accounted after := by
  rw [grouping.must_sleep] at sem
  have before {other : Tid} {target : Pc} (there : after.pc other = target)
      (different : target ≠ .endAsleep ctx) : state.pc other = target := by
    rw [pcs] at there
    exact (pc_other there different).2
  constructor
  · rw [opened, history, header]
    exact accounted.covered
  · intro current waiting
    have pending : state.Pending current := by
      apply accounted.waiting current
      obtain ⟨other, locked | ⟨asleep, listed⟩ | commits⟩ := waiting
      · exact ⟨other, Or.inl (before locked nofun)⟩
      · rw [pcs] at asleep
        by_cases same : other = thread
        · rw [same, Function.update_self] at asleep
          exact ⟨thread, Or.inl (located.trans (congrArg Pc.endLocked (Pc.endAsleep.inj asleep)))⟩
        · rw [Function.update_of_ne same] at asleep
          rw [sem] at listed
          exact ⟨other, Or.inr (Or.inl ⟨asleep, List.mem_of_ne_of_mem same listed⟩)⟩
      · exact ⟨other, Or.inr (Or.inr (before commits nofun))⟩
    constructor
    · rw [log, history, header]
      exact pending.before
    · intro other running there
      rw [history, header]
      exact pending.running other running (before there nofun)
    · intro other running there
      rw [history]
      exact pending.returned other running (before there nofun)
  · intro current released
    rw [history]
    apply accounted.released current
    obtain ⟨other, ⟨asleep, woken⟩ | committed⟩ := released
    · rw [sem, List.mem_cons, not_or] at woken
      rw [pcs, Function.update_of_ne woken.1] at asleep
      exact ⟨other, Or.inl ⟨asleep, woken.2⟩⟩
    · exact ⟨other, Or.inr (before committed nofun)⟩
  · rw [history]
    exact accounted.answered

/-- The last end starts the commit, which takes over what everybody waiting has synced. -/
theorem started (accounted : Accounted state) (grouping : Grouping state)
    (idle : state.log.committing = false) (member : ctx ∈ state.opened)
    (pcs : after.pc = Function.update state.pc thread (.committing ctx))
    (sem : after.outstandingSem = state.outstandingSem)
    (committing : after.log.committing = true)
    (history : after.history = state.history ++ [.commitStarted state.header.listing])
    (header : after.header = state.header) (opened : after.opened = []) : Accounted after := by
  have before {other : Tid} {target : Pc} (located : after.pc other = target)
      (different : target ≠ .committing ctx) : state.pc other = target := by
    rw [pcs] at located
    exact (pc_other located different).2
  constructor
  · intro current stillOpen
    rw [opened] at stillOpen
    cases stillOpen
  · intro current waiting
    have covered : Covered current state.history state.header.Lists := by
      by_cases same : current = ctx
      · rw [same]
        exact accounted.covered ctx member
      · apply (accounted.waiting current ?_).before idle
        obtain ⟨other, locked | ⟨asleep, listed⟩ | commits⟩ := waiting
        · exact ⟨other, Or.inl (before locked nofun)⟩
        · rw [sem] at listed
          exact ⟨other, Or.inr (Or.inl ⟨before asleep nofun, listed⟩)⟩
        · have running := before commits (fun equal => same (Pc.committing.inj equal))
          exact ⟨other, Or.inr (Or.inr running)⟩
    constructor
    · intro flag
      rw [committing] at flag
      cases flag
    · intro other running located
      rw [history, header]
      exact (covered.mono (fun _ => LogHeader.mem_listing)).capture
    · intro other running located
      apply absurd _ (grouping.nobody_commits idle other)
      rw [before located nofun]
      trivial
  · intro current released
    rw [history]
    refine (accounted.released current ?_).other nofun
    obtain ⟨other, ⟨asleep, woken⟩ | committed⟩ := released
    · rw [sem] at woken
      exact ⟨other, Or.inl ⟨before asleep nofun, woken⟩⟩
    · exact ⟨other, Or.inr (before committed nofun)⟩
  · rw [history]
    exact accounted.answered.concat nofun

theorem returned (accounted : Accounted state) (grouping : Grouping state)
    (located : state.pc thread = .committing ctx)
    (pcs : after.pc = Function.update state.pc thread (.committed ctx))
    (sem : after.outstandingSem = state.outstandingSem)
    (committing : after.log.committing = state.log.committing)
    (history : after.history = state.history ++ [.commitReturned])
    (opened : after.opened = state.opened) : Accounted after := by
  have committer : (state.pc thread).Commits := by
    rw [located]
    trivial
  have flag := grouping.flagged thread committer
  have before {other : Tid} {target : Pc} (there : after.pc other = target)
      (different : target ≠ .committed ctx) : other ≠ thread ∧ state.pc other = target := by
    rw [pcs] at there
    exact pc_other there different
  have checkpointed {current : CtxId} (waiting : state.Waiting current) :
      Checkpointed current after.history := by
    rw [history]
    exact ((accounted.waiting current waiting).running thread ctx located).checkpoint
  have waiting_still {current : CtxId} (waiting : after.Waiting current) :
      state.Waiting current := by
    obtain ⟨other, locked | ⟨asleep, listed⟩ | commits⟩ := waiting
    · exact ⟨other, Or.inl (before locked nofun).2⟩
    · rw [sem] at listed
      exact ⟨other, Or.inr (Or.inl ⟨(before asleep nofun).2, listed⟩)⟩
    · exact ⟨other, Or.inr (Or.inr (before commits nofun).2)⟩
  constructor
  · intro current stillOpen
    rw [opened, grouping.closed flag] at stillOpen
    cases stillOpen
  · intro current waiting
    constructor
    · intro idle
      rw [committing, flag] at idle
      cases idle
    · intro other running there
      obtain ⟨elsewhere, also⟩ := before there nofun
      apply absurd (grouping.single other thread _ committer) elsewhere
      rw [also]
      trivial
    · intro other running there
      exact checkpointed (waiting_still waiting)
  · intro current released
    obtain ⟨other, ⟨asleep, woken⟩ | committed⟩ := released
    · rw [sem] at woken
      rw [history]
      exact (accounted.released current ⟨other, Or.inl ⟨(before asleep nofun).2, woken⟩⟩).other nofun
    · by_cases same : current = ctx
      · rw [same]
        exact checkpointed ⟨thread, Or.inr (Or.inr located)⟩
      · have also := (before committed (fun equal => same (Pc.committed.inj equal))).2
        rw [history]
        exact (accounted.released current ⟨other, Or.inr also⟩).other nofun
  · rw [history]
    exact accounted.answered.concat nofun

/-- The committer wakes everybody who waits and returns. -/
theorem done (accounted : Accounted state) (grouping : Grouping state) (tracked : Tracked state)
    (located : state.pc thread = .committed ctx) (free : state.outstandingLock = none)
    (pcs : after.pc = Function.update state.pc thread .idle)
    (sem : after.outstandingSem.sleeplist = [])
    (history : after.history = state.history ++ [.ended ctx])
    (opened : after.opened = state.opened) : Accounted after := by
  have committer : (state.pc thread).Commits := by
    rw [located]
    trivial
  have outside : Pc.idle.phase ≠ .ending := nofun
  have before {other : Tid} {target : Pc} (there : after.pc other = target)
      (ending : target.phase = .ending) : other ≠ thread ∧ state.pc other = target := by
    rw [pcs] at there
    exact pc_before there ending outside
  have nobody {other : Tid} {target : Pc} (there : after.pc other = target)
      (ending : target.phase = .ending) : ¬target.Commits := by
    obtain ⟨elsewhere, also⟩ := before there ending
    intro commits
    exact elsewhere (grouping.single other thread (also ▸ commits) committer)
  constructor
  · intro current stillOpen
    rw [opened, grouping.closed (grouping.flagged thread committer)] at stillOpen
    cases stillOpen
  · intro current waiting
    obtain ⟨other, locked | ⟨asleep, listed⟩ | commits⟩ := waiting
    · have held := grouping.locked other current (before locked rfl).2
      rw [free] at held
      cases held
    · rw [sem] at listed
      cases listed
    · exact absurd trivial (nobody commits rfl)
  · intro current released
    obtain ⟨other, ⟨asleep, _⟩ | committed⟩ := released
    · obtain ⟨elsewhere, also⟩ := before asleep rfl
      have foreign : Event.ctx? (.ended ctx) ≠ some current := by
        intro same
        cases same
        exact tracked.control.nobody_else (congrArg Pc.ctx? located) other elsewhere
          (congrArg Pc.ctx? also)
      have checkpointed : Checkpointed current state.history := by
        by_cases listed : other ∈ state.outstandingSem.sleeplist
        · exact (accounted.waiting current ⟨other, Or.inr (Or.inl ⟨also, listed⟩)⟩).returned thread
            ctx located
        · exact accounted.released current ⟨other, Or.inl ⟨also, listed⟩⟩
      rw [history]
      exact checkpointed.other foreign
    · exact absurd trivial (nobody committed rfl)
  · rw [history]
    apply accounted.answered.concat
    intro current same
    cases same
    exact accounted.released ctx ⟨thread, Or.inr located⟩

theorem initial (sblock : SuperBlock) (blockNo : Fin logMaxSize → BlockNo) :
    Accounted (OpState.initial sblock blockNo) := by
  constructor
  · intro ctx member
    cases member
  · intro ctx waiting
    obtain ⟨thread, locked | ⟨asleep, _⟩ | commits⟩ := waiting
    · cases locked
    · cases asleep
    · cases commits
  · intro ctx released
    obtain ⟨thread, ⟨asleep, _⟩ | committed⟩ := released
    · cases asleep
    · cases committed
  · exact History.Each.nil

theorem synced (accounted : Accounted state) (grouping : Grouping state) (tracked : Tracked state)
    {blockNo : BlockNo} {result : Synced} (located : state.pc thread = .idle)
    (running : state.phase ctx = .running)
    (returned : cacheSync state.log state.header (state.rm ctx) blockNo = .ok result)
    (pcs : after.pc = state.pc) (sem : after.outstandingSem = state.outstandingSem)
    (history : after.history = state.history ++ [.synced ctx blockNo])
    (log : after.log = result.log) (header : after.header = result.header)
    (opened : after.opened = state.opened) : Accounted after := by
  have member := (tracked.running ctx).mpr running
  have idle : state.log.committing = false := by
    rw [← Bool.not_eq_true]
    intro flag
    rw [grouping.closed flag] at member
    cases member
  have effect : result.log.committing = state.log.committing ∧ result.header.Lists blockNo ∧
      ∀ other, state.header.Lists other → result.header.Lists other := by
    obtain ⟨_, _, ⟨listed, rfl⟩ | ⟨_, slot, _, rfl⟩⟩ := cacheSync_ok returned
    · exact ⟨rfl, listed, fun _ => id⟩
    · exact ⟨rfl, (LogHeader.lists_push slot).mpr (Or.inr rfl),
        fun _ listed => (LogHeader.lists_push slot).mpr (Or.inl listed)⟩
  have stays : after.pc = Function.update state.pc thread .idle :=
    pcs.trans (Function.update_eq_self_iff.mpr located.symm).symm
  refine accounted.recorded stays sem history rfl
    (fun other _ => tracked.control.nobody (Or.inr running) other) ?_ ?_ ?_ ?_ ?_ nofun
  · rw [header]
    exact effect.2.2
  · intro other current commits
    apply absurd _ (grouping.nobody_commits idle other)
    rw [commits]
    trivial
  · rw [log]
    exact effect.1
  · rw [opened]
    exact fun _ stillOpen _ => stillOpen
  · intro _
    rw [history, header]
    refine ((accounted.covered ctx member).mono effect.2.2).record ⟨nofun, nofun⟩ ?_
    intro number same
    cases same
    exact effect.2.1

theorem step (accounted : Accounted state) (grouping : Grouping state) (tracked : Tracked state)
    {action : OpAction} (taken : opStep state action = .ok after) : Accounted after := by
  have next := grouping.step tracked taken
  cases action with
  | beginOp thread ctx =>
      obtain ⟨_, _, rfl⟩ := OpState.beginOp_ok taken
      exact accounted.quiet rfl nofun rfl rfl rfl rfl rfl
  | beginTry thread =>
      obtain ⟨ctx, located, ⟨_, rfl⟩ | ⟨_, _, rfl⟩⟩ := OpState.beginTry_ok taken
      · exact accounted.quiet rfl nofun rfl rfl rfl rfl rfl
      · refine accounted.recorded rfl rfl rfl rfl
          (tracked.control.nobody_else (congrArg Pc.ctx? located)) (fun _ => id) (fun _ _ _ => rfl)
          rfl ?_ (fun _ => Covered.began ctx _ _) nofun
        intro current member different
        exact List.mem_of_ne_of_mem different member
  | beginSleep thread =>
      obtain ⟨ctx, _, rfl⟩ := OpState.beginSleep_ok taken
      refine accounted.quiet rfl ?_ rfl rfl rfl rfl rfl
      split <;> nofun
  | beginWake thread =>
      obtain ⟨ctx, _, _, rfl⟩ := OpState.beginWake_ok taken
      exact accounted.quiet rfl nofun rfl rfl rfl rfl rfl
  | sync thread ctx blockNo =>
      obtain ⟨located, running, result, returned, rfl⟩ := OpState.sync_ok taken
      exact accounted.synced grouping tracked located running returned rfl rfl rfl rfl rfl rfl
  | endOp thread ctx =>
      obtain ⟨_, running, idle, ⟨_, rfl⟩ | ⟨_, _, _, _, _, _, rfl⟩⟩ := OpState.endOp_ok taken
      · exact accounted.started grouping idle ((tracked.running ctx).mpr running) rfl rfl rfl rfl
          rfl (next.closed rfl)
      · exact accounted.waits grouping idle ((tracked.running ctx).mpr running) rfl rfl rfl rfl rfl
  | endSleep thread =>
      obtain ⟨ctx, located, ⟨granted, _⟩ | ⟨_, rfl⟩⟩ := OpState.endSleep_ok taken
      · rw [grouping.must_sleep] at granted
        cases granted
      · exact accounted.sleeps grouping located rfl rfl rfl rfl rfl rfl
  | endWake thread =>
      obtain ⟨ctx, located, awake, rfl⟩ := OpState.endWake_ok taken
      refine accounted.recorded rfl rfl rfl rfl
        (tracked.control.nobody_else (congrArg Pc.ctx? located)) (fun _ => id) (fun _ _ _ => rfl)
        rfl (fun _ member _ => member) ?_ ?_
      · intro member
        have running := (tracked.running ctx).mp member
        rw [tracked.control.phased thread ctx (congrArg Pc.ctx? located), located] at running
        cases running
      · intro current same
        cases same
        exact accounted.released ctx ⟨thread, Or.inl ⟨located, awake⟩⟩
  | commitReturn thread =>
      obtain ⟨ctx, located, rfl⟩ := OpState.commitReturn_ok taken
      exact accounted.returned grouping located rfl rfl rfl rfl rfl
  | commitDone thread =>
      obtain ⟨ctx, located, _, free, _, _, outstandingSem, _, _, _, posted, _, rfl⟩ :=
        OpState.commitDone_ok taken
      rw [postAllSem_balanced grouping.balanced] at posted
      cases posted
      exact accounted.done grouping tracked located free rfl rfl rfl rfl

end Accounted

theorem checkpoint_reachable {sblock : SuperBlock} {blockNo : Fin logMaxSize → BlockNo}
    {state : OpState} (reached : Reachable opStep (OpState.initial sblock blockNo) state) :
    Tracked state ∧ Grouping state ∧ Accounted state := by
  refine reached.invariant
    (P := fun state => Tracked state ∧ Grouping state ∧ Accounted state) ?_ ?_
  · exact ⟨Tracked.initial sblock blockNo, Grouping.initial sblock blockNo,
      Accounted.initial sblock blockNo⟩
  · intro state action after holds taken
    obtain ⟨tracked, grouping, accounted⟩ := holds
    exact ⟨tracked.step taken, grouping.step tracked taken,
      accounted.step grouping tracked taken⟩

/-- The two assertions of the log about operations in progress hold. -/
theorem Grouping.no_panic {state : OpState} (grouping : Grouping state) (tracked : Tracked state)
    (thread : Tid) (ctx : CtxId) :
    state.endOp thread ctx ≠ .error .panicCommitting ∧
      ∀ blockNo, state.sync thread ctx blockNo ≠ .error .panicOutstanding := by
  constructor
  · intro stopped
    unfold OpState.endOp at stopped
    split at stopped
    · rename_i running
      simp only at stopped
      split at stopped
      · rename_i flag
        have member := (tracked.running ctx).mpr running.2
        rw [grouping.closed flag] at member
        cases member
      · split at stopped
        · cases stopped
        · split at stopped
          · split at stopped <;> cases stopped
          · cases stopped
    · cases stopped
  · intro blockNo stopped
    unfold OpState.sync at stopped
    split at stopped
    · rename_i running
      have positive := List.length_pos_of_mem ((tracked.running ctx).mpr running.2)
      have counted := grouping.outstanding
      split at stopped
      · rename_i reason returned
        cases stopped
        unfold cacheSync at returned
        split at returned
        · cases returned
        · split at returned
          · omega
          · simp only at returned
            split at returned
            · split at returned
              · split at returned <;> cases returned
              · cases returned
            · cases returned
      · cases stopped
    · cases stopped

/-- Every return of `cache_end_op` follows a complete commit that listed everything its
operation had synced. A commit runs alone, with no operation outstanding and with the
header it started with, and the two assertions about operations in progress hold. -/
theorem end_op_returns_after_checkpoint (sblock : SuperBlock)
    (blockNo : Fin logMaxSize → BlockNo) (state : OpState)
    (reached : Reachable opStep (OpState.initial sblock blockNo) state) :
    (∀ before ctx rest, state.history = before ++ .ended ctx :: rest → Checkpointed ctx before) ∧
      (∀ thread ctx, state.pc thread = .committing ctx →
        state.opened = [] ∧ state.log.outstanding = 0 ∧
          ∃ before during, state.history = before ++ .commitStarted state.header.listing :: during ∧
            ∀ event ∈ during, ∃ other, event.ctx? = some other) ∧
      (∀ left right leftCtx rightCtx, state.pc left = .committing leftCtx →
        state.pc right = .committing rightCtx → left = right ∧ leftCtx = rightCtx) ∧
      (∀ thread ctx, opStep state (.endOp thread ctx) ≠ .error .panicCommitting) ∧
      ∀ thread ctx number, opStep state (.sync thread ctx number) ≠ .error .panicOutstanding := by
  obtain ⟨tracked, grouping, accounted⟩ := checkpoint_reachable reached
  refine ⟨?_, ?_, ?_, ?_, ?_⟩
  · intro before ctx rest split
    exact accounted.answered before (.ended ctx) rest split ctx rfl
  · intro thread ctx located
    have committer : (state.pc thread).Commits := by
      rw [located]
      trivial
    have closed := grouping.closed (grouping.flagged thread committer)
    have pending := accounted.waiting ctx ⟨thread, Or.inr (Or.inr located)⟩
    obtain ⟨before, during, split, _, quiet⟩ := pending.running thread ctx located
    refine ⟨closed, ?_, before, during, split, ?_⟩
    · rw [grouping.outstanding, closed]
      rfl
    · intro event member
      exact Option.ne_none_iff_exists'.mp (quiet event member).2
  · intro left right leftCtx rightCtx leftCommits rightCommits
    have same : left = right := by
      apply grouping.single left right
      · rw [leftCommits]
        trivial
      · rw [rightCommits]
        trivial
    rw [same, rightCommits] at leftCommits
    exact ⟨same, (Pc.committing.inj leftCommits).symm⟩
  · intro thread ctx
    exact (grouping.no_panic tracked thread ctx).1
  · intro thread ctx number
    exact (grouping.no_panic tracked thread ctx).2 number

/-- Two operations end; the first sleeps until the commit of the second has returned. -/
theorem end_op_returns_after_checkpoint_two_ops : ∃ state : OpState,
    Reachable opStep (OpState.initial mkfsSuperBlock (fun _ => 0)) state ∧
      state.history = [.began 0, .began 1, .synced 0 70, .commitStarted [70], .commitReturned,
        .ended 1, .ended 0] ∧
      Checkpointed 0 [.began 0, .began 1, .synced 0 70, .commitStarted [70], .commitReturned,
        .ended 1] := by
  have executed : exec opStep (OpState.initial mkfsSuperBlock (fun _ => 0))
      [.beginOp 0 0, .beginTry 0, .beginOp 1 1, .beginTry 1, .sync 0 0 70, .endOp 0 0, .endSleep 0,
        .endOp 1 1, .commitReturn 1, .commitDone 1, .endWake 0] = .ok _ := rfl
  have reached := Reachable.of_exec executed
  exact ⟨_, reached, rfl,
    (end_op_returns_after_checkpoint mkfsSuperBlock (fun _ => 0) _ reached).1 _ 0 [] rfl⟩

end LabKernel.Fs
