/-
The cache as its callers see it.

Recovery leaves blocks that are as on the device. From there, in every run in which callers
keep to the rules and no miss evicts a block that some call works on, an acquire
returns the content its block was last released with. A hit leaves no mark on the
block it found, so a miss can evict the block before the acquire has locked it, and
the acquire then returns whatever its memory is used for next.
-/

import LabKernel.Fs.Coherence
import LabKernel.Lib.History

set_option autoImplicit false

namespace LabKernel.Fs

open Common Transition History Outcomes

/-! ### What recovery leaves -/

/-- After recovery every cached block is unlocked and, but for the header, as on the device. -/
theorem Volume.recovered_clean {sblock : SuperBlock} {heap : Addr → Block} {disk : Disk}
    {volume : Volume} (recovered : recoverFromLog sblock (boot heap disk) = .ok volume) :
    ∀ addr ∈ volume.cache.order, (volume.block addr).lock = freeLock ∧
      ((volume.block addr).blockNo ≠ sblock.headerBlock →
        (volume.block addr).data = volume.disk (volume.block addr).blockNo) := by
  obtain ⟨installed, rfl, -, clean⟩ := Volume.Marked.installed recovered
  intro addr member
  have serves := clean (installed.block addr).blockNo
  constructor
  · exact serves.free addr member rfl
  · intro elsewhere
    change (installed.block addr).data = Function.update installed.disk sblock.headerBlock _ _
    rw [Function.update_of_ne elsewhere]
    exact serves.cached addr member rfl

/-! ### Whole runs -/

theorem Orderly.initial {sblock : SuperBlock} {heap : Addr → Block} {disk : Disk} {volume : Volume}
    (recovered : recoverFromLog sblock (boot heap disk) = .ok volume) :
    Orderly sblock (System.initial sblock volume.header volume.cache volume.disk) := by
  have clean := Volume.recovered_clean recovered
  have marked := (Volume.Marked.recovered recovered).1
  constructor
  · refine ⟨⟨_, [], .start⟩, ?_, ?_⟩
    · intro thread
      trivial
    · intro blockNo listed
      exact absurd listed (LogHeader.not_lists rfl blockNo)
  · refine ⟨fun _ => none, ?_⟩
    constructor
    · exact Resident.initial marked.wellFormed _ _
    · intro thread release addr located
      cases located
    · intro addr member _
      exact (clean addr member).1
    · intro addr _ token owned
      cases owned
    · intro addr member thread sleeping
      have free : ((System.initial sblock volume.header volume.cache volume.disk).block addr).lock =
          freeLock := (clean addr member).1
      rw [free] at sleeping
      cases sleeping
    · intro hold held
      cases held
    · intro thread release addr located
      cases located
    · intro thread use blockNo addr located
      cases located
    · exact List.nodup_nil

theorem Coherent.initial {sblock : SuperBlock} {heap : Addr → Block} {disk : Disk}
    {volume : Volume} (recovered : recoverFromLog sblock (boot heap disk) = .ok volume) :
    Coherent sblock volume.disk
      (System.initial sblock volume.header volume.cache volume.disk) := by
  have clean := Volume.recovered_clean recovered
  have outside : ∀ blockNo, ¬sblock.InLog blockNo → blockNo ≠ sblock.headerBlock := by
    rintro blockNo away rfl
    exact away sblock.headerBlock_inLog
  constructor
  · intro addr member away _
    exact (clean addr member).2 (outside _ away)
  · intro addr set
    exact absurd rfl set
  · intro addr member away _ _
    exact (clean addr member).2 (outside _ away)
  · intro blockNo _ _
    rfl
  · intro blockNo listed
    exact absurd listed (LogHeader.not_lists rfl blockNo)
  · intro addr member index bound number
    right
    rw [← number]
    apply (clean addr member).2
    intro same
    exact sblock.logBlock_ne_headerBlock bound (number.symm.trans same)
  · intro thread index logged
    cases logged
  · intro thread round src dst located
    cases located

theorem Coherent.dropped {sblock : SuperBlock} {start : Disk} {state : System} {thread : Tid}
    {release : Release} {addr : Addr} (coherent : Coherent sblock start state)
    (orderly : Orderly sblock state)
    (located : (∃ round dst, state.place thread = .releasing round addr dst ∧
        release = .source round dst) ∨
      (∃ round, state.place thread = .releasingLast round addr ∧ release = .target round)) :
    Coherent sblock start (state.drop thread release addr (state.heldWithout thread addr)) := by
  obtain ⟨owner, locks⟩ := orderly.locks
  obtain ⟨hold, member, rfl, rfl, inner, _, _⟩ := orderly.engaged.drops locks located
  have held := locks.heldWithout_eq member inner
  have lent : ∀ addr, state.Lent addr →
      (state.drop hold.thread release hold.addr
        (state.heldWithout hold.thread hold.addr)).Lent addr := by
    rintro addr ⟨other, present, outer, same⟩
    refine ⟨other, ?_, outer, same⟩
    change other ∈ state.heldWithout hold.thread hold.addr
    rw [held]
    refine (List.mem_erase_of_ne ?_).mpr present
    intro same
    subst same
    rw [inner] at outer
    cases outer
  apply coherent.walked hold.thread (.unlocking release hold.addr)
  · exact ⟨fun _ => Iff.rfl, System.setBlock_keeps Block.blockNo rfl,
      System.setBlock_keeps Block.pinned rfl, System.setBlock_keeps Block.data rfl, fun _ _ => rfl,
      rfl, lent, rfl, rfl⟩
  · rfl
  · rcases located with ⟨round, dst, located, rfl⟩ | ⟨round, located, rfl⟩
    · rw [located]
      exact Nat.le_refl _
    · rw [located]
      exact Nat.le_refl _
  · intro round src dst writing
    rcases located with ⟨round, dst, located, _⟩ | ⟨round, located, _⟩
    · exact nomatch located.symm.trans writing
    · exact nomatch located.symm.trans writing
  · exact fun _ _ _ => nofun

theorem Coherent.step {sblock : SuperBlock} {start : Disk} {state after : System} {action : Action}
    (coherent : Coherent sblock start state) (orderly : Orderly sblock state)
    (disciplined : Disciplined sblock state action)
    (outcome : System.Outcome sblock state action after) : Coherent sblock start after := by
  cases outcome with
  | operated part op apart outside taken =>
      obtain ⟨header, _⟩ := apart.frame taken
      apply coherent.carry (Unaltered.of_op sblock start header)
      · exact fun _ => Nat.le_refl _
      · exact fun _ _ _ _ => id
      · exact coherent.copied
  | sought thread use blockNo chunk asked enters fresh =>
      exact coherent.sought orderly enters fresh (disciplined.2 blockNo asked)
  | locked thread use blockNo addr located free =>
      exact (coherent.relocked addr _).granted (Or.inl located)
  | slept thread use blockNo addr located taken =>
      apply (coherent.relocked addr _).walked thread (.asleep use blockNo addr)
        (Unaltered.goto sblock start thread _)
      · rfl
      · change use.logged _ ≤ (state.place thread).logged _
        rw [located]
        exact Nat.le_refl _
      · intro round src dst writing
        exact nomatch located.symm.trans writing
      · intro round src dst writing
        cases writing
  | woken thread use blockNo addr located posted => exact coherent.granted (Or.inr located)
  | stored hold ctx data idle member outer =>
      exact coherent.wrote orderly data member outer disciplined.1.1 disciplined.1.2
  | synced hold ctx op idle member outer taken =>
      apply coherent.synced orderly member
      · exact taken
      · rfl
      · exact System.setBlock_keeps Block.blockNo rfl
      · exact System.setBlock_keeps Block.data rfl
      · intro addr different
        exact Function.update_of_ne different _ _
      · exact (congrArg Block.pinned (Function.update_self hold.addr _ state.cache.heap)).trans
          (coherent.pins orderly member)
      · rfl
      · rfl
      · rfl
      · rfl
      · intro addr set
        change (if state.dirty hold.addr = some ctx then Function.update state.dirty hold.addr none
          else state.dirty) addr ≠ none at set
        split at set
        · by_cases here : addr = hold.addr
          · rw [here, Function.update_self] at set
            exact absurd rfl set
          · rw [Function.update_of_ne here] at set
            exact set
        · exact set
      · intro addr different
        change (if state.dirty hold.addr = some ctx then Function.update state.dirty hold.addr none
          else state.dirty) addr = _
        split
        · exact Function.update_of_ne different _ _
        · rfl
  | flushed hold member outer => exact coherent.flushed orderly member disciplined.1
  | released hold idle member outer =>
      exact coherent.released orderly member disciplined.1 idle.2
  | unlocked thread release addr woken lock located posted =>
      apply (coherent.relocked addr lock).walked thread release.after
        (Unaltered.goto sblock start thread _)
      · rfl
      · change _ ≤ (state.place thread).logged _
        rw [located]
        cases release with
        | caller => exact Nat.zero_le _
        | source round dst => exact Nat.le_refl _
        | target round => exact Nat.le_refl _
      · intro round src dst writing
        exact nomatch located.symm.trans writing
      · intro round src dst writing
        cases release with
        | caller => cases writing
        | source round dst => cases writing
        | target round => cases writing
  | started thread ctx chunk outside commits listed =>
      apply coherent.walked thread (.first ⟨false, 0⟩) (Unaltered.goto sblock start thread _)
      · rfl
      · exact Nat.zero_le _
      · intro round src dst writing
        exact nomatch outside.symm.trans writing
      · intro round src dst writing
        cases writing
  | logged thread round chunk located logging complete =>
      apply coherent.walked thread (.first ⟨true, 0⟩)
        ((Unaltered.writeHeader sblock start _).trans (Unaltered.goto sblock start thread _))
      · rfl
      · change state.op.header.numBlocks ≤ _
        rw [located]
        change _ ≤ round.logged _
        unfold Round.logged
        rw [logging]
        exact complete
      · intro round src dst writing
        exact nomatch located.symm.trans writing
      · intro round src dst writing
        cases writing
  | copied thread round src dst chunk located =>
      cases installing : round.installing with
      | true => exact coherent.copied_in orderly located installing
      | false => exact coherent.copied_out orderly located installing
  | written thread round src dst chunk located => exact coherent.written orderly located
  | dropped thread release addr chunk located => exact coherent.dropped orderly located
  | finished thread op chunk written located taken =>
      have before : ∀ round src dst, state.place thread ≠ .writing round src dst := by
        intro round src dst writing
        rcases located with ⟨outside, _⟩ | ⟨round, located, _⟩
        · exact nomatch outside.symm.trans writing
        · exact nomatch located.symm.trans writing
      cases written with
      | true =>
          apply coherent.finished orderly taken
          · rfl
          · rfl
          · exact fun blockNo elsewhere => Function.update_of_ne elsewhere _ _
          · rfl
          · rfl
          · rfl
          · exact before
      | false =>
          apply coherent.finished orderly taken
          · rfl
          · rfl
          · exact fun _ _ => rfl
          · rfl
          · rfl
          · rfl
          · exact before

/-- A call of `cache_acquire` outside the log returns the content of its block. -/
def Answers (sblock : SuperBlock) (start : Disk) (before : List Access) : Access → Prop
  | .returned _ blockNo data => ¬sblock.InLog blockNo → data = contentIn start before blockNo
  | .released .. => True

theorem Orderly.returned {sblock : SuperBlock} {state : System} (orderly : Orderly sblock state)
    {thread : Tid} {use : Use} {blockNo : BlockNo} {addr : Addr}
    (waits : (state.place thread = .locking use blockNo addr ∧
        (waitSem thread (state.block addr).lock).1 = true) ∨
      (state.place thread = .asleep use blockNo addr ∧
        thread ∉ (state.block addr).lock.sleeplist)) :
    addr ∈ state.cache.order ∧ (state.block addr).blockNo = blockNo ∧ ¬state.Lent addr := by
  obtain ⟨owner, locks⟩ := orderly.locks
  have found : (state.place thread).found = some (blockNo, addr) := by
    rcases waits with ⟨located, _⟩ | ⟨located, _⟩
    · rw [located]
      rfl
    · rw [located]
      rfl
  obtain ⟨member, number⟩ := locks.resident.cached blockNo addr (Or.inr ⟨thread, found⟩)
  have unheld : ∀ hold ∈ state.held, hold.addr ≠ addr := by
    rcases waits with ⟨_, free⟩ | ⟨located, posted⟩
    · exact locks.unheld (locks.unowned member free) (fun hold impossible => nomatch impossible)
    · have chosen := (locks.granted thread use blockNo addr located).resolve_left posted
      exact locks.unheld chosen (fun hold impossible => nomatch impossible)
  refine ⟨member, number, ?_⟩
  rintro ⟨hold, held, _, same⟩
  exact unheld hold held same

theorem Coherent.answers {sblock : SuperBlock} {start : Disk} {state : System}
    (coherent : Coherent sblock start state) (orderly : Orderly sblock state) {thread : Tid}
    {use : Use} {blockNo : BlockNo} {addr : Addr}
    (waits : (state.place thread = .locking use blockNo addr ∧
        (waitSem thread (state.block addr).lock).1 = true) ∨
      (state.place thread = .asleep use blockNo addr ∧
        thread ∉ (state.block addr).lock.sleeplist)) :
    Answers sblock start state.history (.returned thread blockNo (state.block addr).data) := by
  obtain ⟨member, number, unlent⟩ := orderly.returned waits
  intro outside
  rw [← number] at outside ⊢
  exact coherent.settled addr member outside unlent

theorem Coherent.history {sblock : SuperBlock} {start : Disk} {state after : System}
    {action : Action} (coherent : Coherent sblock start state) (orderly : Orderly sblock state)
    (outcome : System.Outcome sblock state action after)
    (each : Each (Answers sblock start) state.history) :
    Each (Answers sblock start) after.history := by
  cases outcome with
  | operated part op apart outside taken => exact each
  | sought thread use blockNo chunk asked enters fresh => exact each
  | locked thread use blockNo addr located free =>
      cases use with
      | caller =>
          apply each.concat
          have answers := coherent.answers orderly (Or.inl ⟨located, free⟩)
          change Answers sblock start state.history (.returned thread blockNo
            ((state.setBlock addr _).block addr).data)
          rw [System.setBlock_block, if_pos rfl]
          exact answers
      | source round => exact each
      | target round src => exact each
  | slept thread use blockNo addr located taken => exact each
  | woken thread use blockNo addr located posted =>
      cases use with
      | caller => exact each.concat (coherent.answers orderly (Or.inr ⟨located, posted⟩))
      | source round => exact each
      | target round src => exact each
  | stored hold ctx data idle member outer => exact each
  | synced hold ctx op idle member outer taken => exact each
  | flushed hold member outer => exact each
  | released hold idle member outer => exact each.concat trivial
  | unlocked thread release addr woken lock located posted => exact each
  | started thread ctx chunk outside commits listed => exact each
  | logged thread round chunk located logging complete => exact each
  | copied thread round src dst chunk located => exact each
  | written thread round src dst chunk located => exact each
  | dropped thread release addr chunk located => exact each
  | finished thread op chunk written located taken =>
      cases written with
      | true => exact each
      | false => exact each

/-- In every run in which callers keep to the rules and every miss spares the blocks that
some call works on, an acquire of a block outside the log returns the content the block was
last released with, or what recovery has left on the device. -/
theorem acquire_returns_last_content (sblock : SuperBlock) (heap : Addr → Block) (disk : Disk)
    (volume : Volume) (recovered : recoverFromLog sblock (boot heap disk) = .ok volume)
    (actions : List Action) (state : System)
    (run : Run (systemStep sblock) (Disciplined sblock)
      (System.initial sblock volume.header volume.cache volume.disk) actions state) :
    Each (Answers sblock volume.disk) state.history := by
  have invariant : Orderly sblock state ∧ Coherent sblock volume.disk state ∧
      Each (Answers sblock volume.disk) state.history := by
    refine run.invariant (P := fun state => Orderly sblock state ∧
      Coherent sblock volume.disk state ∧ Each (Answers sblock volume.disk) state.history)
      ⟨Orderly.initial recovered, Coherent.initial recovered, Each.nil⟩ ?_
    rintro state action after ⟨orderly, coherent, each⟩ disciplined taken
    have outcome := System.step_outcome taken
    exact ⟨orderly.step disciplined outcome, coherent.step orderly disciplined outcome,
      coherent.history orderly outcome each⟩
  exact invariant.2.2

instance (sblock : SuperBlock) (state : System) :
    (action : Action) → Decidable (action.Permitted sblock state)
  | .store .. => inferInstanceAs (Decidable (_ ∧ _))
  | .sync .. | .flush _ => inferInstanceAs (Decidable (¬_))
  | .release _ => inferInstanceAs (Decidable (_ = _))
  | .acquire .. | .lock _ | .wake _ | .unlock _ | .beginOp .. | .beginTry _ | .beginSleep _
  | .beginWake _ | .endOp .. | .endSleep _ | .endWake _ | .commitDone _ | .commit .. =>
      .isTrue trivial

def firstByte (data : BlockData) : UInt8 := data ⟨0, by decide⟩

def commitRound (thread : Tid) (chunk : Addr) : List Action :=
  [.commit thread chunk, .lock thread, .commit thread chunk, .lock thread, .commit thread chunk,
    .commit thread chunk, .commit thread chunk, .unlock thread, .commit thread chunk,
    .unlock thread]

/-- A thread stores to a block and commits it, another thread acquires the block. -/
def storeAndCommit : List Action :=
  [.beginOp 0 0, .beginTry 0, .acquire 0 100 1, .lock 0, .store ⟨0, 100, 1, false⟩ 0 (fun _ => 7),
    .sync ⟨0, 100, 1, false⟩ 0, .release ⟨0, 100, 1, false⟩, .unlock 0, .endOp 0 0, .commit 0 2] ++
  commitRound 0 2 ++ [.commit 0 2] ++ commitRound 0 3 ++
  [.commit 0 2, .commitDone 0, .acquire 1 100 3, .lock 1]

/-- One thread releases the block with a seven in front, and another one acquires it. -/
def passedOn (state : System) : Bool :=
  match state.history with
  | [.returned 0 100 _, .released 0 100 last, .returned 1 100 _] => firstByte last == 7
  | _ => false

theorem acquire_returns_last_content_committed : ∃ (state : System) (first last data : BlockData),
    Run (systemStep mkfsSuperBlock) (Disciplined mkfsSuperBlock) emptySystem storeAndCommit state ∧
      state.history = [.returned 0 100 first, .released 0 100 last, .returned 1 100 data] ∧
      firstByte last = 7 ∧ data = last := by
  have sound : ∀ (state : System) (action : Action),
      decide (state.cache.getNumCachedBlocks < evictionThreshold ∧
        action.Permitted mkfsSuperBlock state) = true →
      Disciplined mkfsSuperBlock state action := by
    intro state action allowed
    obtain ⟨room, permitted⟩ := of_decide_eq_true allowed
    constructor
    · exact permitted
    · intro sought _ _ addr _
      exact Or.inr (Nat.lt_add_right _ room)
  have passed : checkRun (systemStep mkfsSuperBlock)
      (fun state action => decide (state.cache.getNumCachedBlocks < evictionThreshold ∧
        action.Permitted mkfsSuperBlock state))
      passedOn emptySystem storeAndCommit = true := by
    decide +kernel
  obtain ⟨state, run, checked⟩ := Run.of_checkRun sound passed
  unfold passedOn at checked
  split at checked
  · rename_i first last data history
    refine ⟨state, first, last, data, run, history, eq_of_beq checked, ?_⟩
    have each := acquire_returns_last_content mkfsSuperBlock (fun _ => initBlock) (fun _ _ => 0)
      emptyBcache.volume rfl storeAndCommit state run
    have answer : data = contentIn emptyBcache.volume.disk
        ([.returned 0 100 first] ++ [.released 0 100 last]) 100 :=
      each [.returned 0 100 first, .released 0 100 last] _ [] history (by decide)
    rw [contentIn_released, Function.update_self] at answer
    exact answer
  · cases checked

/-- A device on which one block differs from the others. -/
def oneBlockDisk : Disk := fun blockNo _ => if blockNo = 120 then 1 else 0

def oneBlockVolume : Volume :=
  ((boot (fun _ => initBlock) oneBlockDisk).readHeader mkfsSuperBlock).clearHeader.writeHeader
    mkfsSuperBlock

/-- A thread has found a block and not locked it while another visits nineteen blocks; the
next miss evicts the block and uses its memory. -/
def evictFound : List Action :=
  visit 0 100 1 ++ [.acquire 0 100 2] ++
    (List.range 19).flatMap (fun k => visit 1 (UInt64.ofNat (101 + k)) (2 + k)) ++
    visit 1 120 1 ++ [.lock 0]

/-- The last acquire returned what begins with another byte than the content of the block. -/
def returnedOther (state : System) : Bool :=
  match state.history.reverse with
  | .returned 0 100 data :: rest =>
      firstByte data != firstByte (contentIn oneBlockVolume.disk rest.reverse 100)
  | _ => false

/-- Callers keep to the rules and no block is evicted while held, and an acquire returns the
content of another block. -/
theorem found_block_is_evicted : ∃ state : System,
    recoverFromLog mkfsSuperBlock (boot (fun _ => initBlock) oneBlockDisk) = .ok oneBlockVolume ∧
      Run (systemStep mkfsSuperBlock)
        (fun state action => action.Permitted mkfsSuperBlock state ∧
          ∀ sought, state.sought mkfsSuperBlock action = some sought →
            state.cache.find sought = none → ∀ hold ∈ state.held, state.cache.Spares hold.addr)
        (System.initial mkfsSuperBlock oneBlockVolume.header oneBlockVolume.cache
          oneBlockVolume.disk) evictFound state ∧
      ¬Each (Answers mkfsSuperBlock oneBlockVolume.disk) state.history := by
  have sound : ∀ (state : System) (action : Action),
      decide (action.Permitted mkfsSuperBlock state ∧
        ∀ hold ∈ state.held, state.cache.Spares hold.addr) = true →
      action.Permitted mkfsSuperBlock state ∧
          ∀ sought, state.sought mkfsSuperBlock action = some sought →
            state.cache.find sought = none → ∀ hold ∈ state.held, state.cache.Spares hold.addr := by
    intro state action allowed
    obtain ⟨permitted, spares⟩ := of_decide_eq_true allowed
    exact ⟨permitted, fun _ _ _ => spares⟩
  have passed : checkRun (systemStep mkfsSuperBlock)
      (fun state action => decide (action.Permitted mkfsSuperBlock state ∧
        ∀ hold ∈ state.held, state.cache.Spares hold.addr))
      returnedOther (System.initial mkfsSuperBlock oneBlockVolume.header oneBlockVolume.cache
        oneBlockVolume.disk) evictFound = true := by
    decide +kernel
  obtain ⟨state, run, checked⟩ := Run.of_checkRun sound passed
  refine ⟨state, rfl, run, ?_⟩
  intro each
  unfold returnedOther at checked
  split at checked
  · rename_i data rest reversed
    have history : state.history = rest.reverse ++ [.returned 0 100 data] := by
      rw [← List.reverse_cons, ← reversed, List.reverse_reverse]
    have answer : data = contentIn oneBlockVolume.disk rest.reverse 100 :=
      each rest.reverse _ [] history (by decide)
    rw [← answer, bne_self_eq_false] at checked
    cases checked
  · cases checked

end LabKernel.Fs
