/-
The device at any moment of a run.

A block outside the log that is not listed is on the device as it was last released. A
commit that has written its header goes through the listed blocks in order, so the
device holds those it has passed, and the log the others.
-/

import LabKernel.Fs.Crash
import LabKernel.Fs.Transparency

set_option autoImplicit false

namespace LabKernel.Fs

open Common Transition Writes Outcomes

/-! ### How far a commit is -/

def Use.stage : Use → Option Round
  | .caller => none
  | .source round | .target round _ => some round

def Release.stage : Release → Option Round
  | .caller => none
  | .source round _ | .target round => some round.next

/-- The round of the commit that a thread is in. A round whose block is written counts as over. -/
def Place.stage : Place → Option Round
  | .outside => none
  | .locking use _ _ | .asleep use _ _ => use.stage
  | .unlocking release _ => release.stage
  | .first round | .second round _ | .copying round _ _ | .writing round _ _ => some round
  | .releasing round _ _ | .releasingLast round _ => some round.next

/-- The thread is in a round of `install_trans`. -/
def System.Installs (state : System) (thread : Tid) (round : Round) : Prop :=
  (state.place thread).stage = some round ∧ round.installing = true

theorem Place.inner_of_stage {place : Place} {round : Round} (staged : place.stage = some round) :
    place.Inner := by
  cases place with
  | outside => cases staged
  | locking use blockNo addr =>
      cases use with
      | caller => cases staged
      | source round => trivial
      | target round src => trivial
  | asleep use blockNo addr =>
      cases use with
      | caller => cases staged
      | source round => trivial
      | target round src => trivial
  | unlocking release addr =>
      cases release with
      | caller => cases staged
      | source round dst => trivial
      | target round => trivial
  | first round => trivial
  | second round src => trivial
  | copying round src dst => trivial
  | writing round src dst => trivial
  | releasing round src dst => trivial
  | releasingLast round dst => trivial

theorem Use.logged_stage {use : Use} {round : Round} (numBlocks : Nat)
    (staged : use.stage = some round) : use.logged numBlocks = round.logged numBlocks := by
  cases use with
  | caller => cases staged
  | source round => cases staged; rfl
  | target round src => cases staged; rfl

theorem Place.logged_stage {place : Place} {round : Round} (numBlocks : Nat)
    (staged : place.stage = some round) : place.logged numBlocks = round.logged numBlocks := by
  cases place with
  | outside => cases staged
  | locking use blockNo addr => exact use.logged_stage numBlocks staged
  | asleep use blockNo addr => exact use.logged_stage numBlocks staged
  | unlocking release addr =>
      cases release with
      | caller => cases staged
      | source round dst => cases staged; rfl
      | target round => cases staged; rfl
  | first round => cases staged; rfl
  | second round src => cases staged; rfl
  | copying round src dst => cases staged; rfl
  | writing round src dst => cases staged; rfl
  | releasing round src dst => cases staged; rfl
  | releasingLast round dst => cases staged; rfl

namespace System

variable {sblock : SuperBlock} {state after : System} {thread other : Tid} {round : Round}

theorem installs_iff (next : Place)
    (place : after.place = Function.update state.place thread next)
    (same : ∀ round, round.installing = true →
      (next.stage = some round ↔ (state.place thread).stage = some round)) :
    ∀ other round, after.Installs other round ↔ state.Installs other round := by
  intro other round
  unfold Installs
  rw [place]
  by_cases mover : other = thread
  · rw [mover, Function.update_self]
    exact and_congr_left (same round)
  · rw [Function.update_of_ne mover]

theorem installs_of_stage (next : Place)
    (place : after.place = Function.update state.place thread next)
    (same : next.stage = (state.place thread).stage) :
    ∀ other round, after.Installs other round ↔ state.Installs other round := by
  apply installs_iff next place
  intro round _
  rw [same]

theorem installs_grant (state : System) (thread : Tid) (use : Use) (blockNo : BlockNo) (addr : Addr)
    (waits : (state.place thread).stage = use.stage) :
    ∀ other round, (state.grant thread use blockNo addr).Installs other round ↔
      state.Installs other round := by
  cases use with
  | caller => exact installs_of_stage .outside rfl waits.symm
  | source round => exact installs_of_stage (.second round addr) rfl waits.symm
  | target round src => exact installs_of_stage (.copying round src addr) rfl waits.symm

theorem Installs.alone (installs : state.Installs thread round) (orderly : Orderly sblock state)
    (inner : (state.place other).Inner) : other = thread :=
  orderly.engaged.inner_unique inner (Place.inner_of_stage installs.1)

/-- The section of an acquire is part of the round it is for. -/
theorem Enters.installs {use : Use} {blockNo : BlockNo}
    (enters : state.Enters sblock thread use blockNo) (chunk : Addr) :
    ∀ other round, ({ state with
      cache := (state.cache.acquireSection chunk blockNo state.disk).2 }.goto thread
        (.locking use blockNo (state.cache.acquireSection chunk blockNo state.disk).1)).Installs
          other round ↔ state.Installs other round := by
  refine installs_of_stage (.locking use blockNo _) rfl ?_
  cases enters with
  | caller blockNo idle =>
      rw [idle.2]
      rfl
  | source round located within =>
      rw [located]
      rfl
  | target round src located =>
      rw [located]
      rfl

theorem Installs.saved {start : Disk} (installs : state.Installs thread round)
    (coherent : Coherent sblock start state) (orderly : Orderly sblock state) {index : Nat}
    (within : index < state.op.header.numBlocks) :
    state.Saved sblock (contentIn start state.history) index := by
  apply coherent.logged thread index
  · rw [Place.logged_stage _ installs.1]
    unfold Round.logged
    rw [installs.2, if_pos rfl]
    exact within
  · exact Nat.lt_of_lt_of_le within orderly.engaged.fits

end System

theorem Orderly.lists_index {sblock : SuperBlock} {state : System} (orderly : Orderly sblock state)
    {index : Nat} (within : index < state.op.header.numBlocks) :
    state.op.header.Lists (state.op.header.entry index) :=
  LogHeader.lists_entry within
    (SuperBlock.tail_within (Nat.lt_of_lt_of_le within orderly.engaged.fits)).2

theorem LogHeader.Lists.index {header : LogHeader} {blockNo : BlockNo}
    (listed : header.Lists blockNo) : ∃ index < header.numBlocks, header.entry index = blockNo := by
  obtain ⟨index, within, number⟩ := listed
  exact ⟨index.val, within, (header.blockNo_eq_entry index.isLt).symm.trans number⟩

/-! ### Steps that alter no block -/

/-- The blocks and the device are as they were, and nobody installs anything else. -/
structure Still (sblock : SuperBlock) (start : Disk) (state after : System) : Prop where
  unaltered : Unaltered sblock start state after
  disk : after.disk = state.disk
  installs : ∀ thread round, after.Installs thread round ↔ state.Installs thread round

namespace Still

variable {sblock : SuperBlock} (start : Disk) {state : System} {thread : Tid}

theorem operated {part : OpAction} {op : OpState} (apart : part.Apart)
    (taken : opStep state.op part = .ok op) :
    Still sblock start state { state with op := op } :=
  ⟨Unaltered.of_op sblock start (apart.frame taken).1, rfl, fun _ _ => Iff.rfl⟩

/-- A thread moves on within its round, and a lock may change. -/
theorem moved {after : System} (same : Unaltered sblock start state after)
    (disk : after.disk = state.disk) (next : Place) (staged : next.stage = (state.place thread).stage)
    (place : after.place = Function.update state.place thread next) :
    Still sblock start state after :=
  ⟨same, disk, System.installs_of_stage next place staged⟩

theorem relocked (addr : Addr) (lock : Semaphore) :
    Unaltered sblock start state
      (state.setBlock addr { state.block addr with lock := lock }) :=
  Unaltered.setBlock sblock start rfl rfl rfl

theorem granted {after : System} {use : Use} {blockNo : BlockNo} {addr : Addr}
    (same : Unaltered sblock start state after) (disk : after.disk = state.disk)
    (place : after.place = state.place) (waits : (state.place thread).stage = use.stage) :
    Still sblock start state (after.grant thread use blockNo addr) := by
  constructor
  · exact same.trans (Unaltered.grant sblock start after thread use blockNo addr)
  · cases use with
    | caller => exact disk
    | source round => exact disk
    | target round src => exact disk
  · intro other round
    rw [System.installs_grant after thread use blockNo addr (by rw [place]; exact waits)]
    unfold System.Installs
    rw [place]

theorem locked {use : Use} {blockNo : BlockNo} {addr : Addr} (lock : Semaphore)
    (located : state.place thread = .locking use blockNo addr) :
    Still sblock start state ((state.setBlock addr { state.block addr with lock := lock }).grant
      thread use blockNo addr) :=
  granted start (relocked start addr lock) rfl rfl (by rw [located]; rfl)

theorem slept {use : Use} {blockNo : BlockNo} {addr : Addr} (lock : Semaphore)
    (located : state.place thread = .locking use blockNo addr) :
    Still sblock start state ((state.setBlock addr { state.block addr with lock := lock }).goto
      thread (.asleep use blockNo addr)) :=
  moved start ((relocked start addr lock).trans (Unaltered.goto sblock start thread _)) rfl
    (.asleep use blockNo addr) (by rw [located]; rfl) rfl

theorem woken {use : Use} {blockNo : BlockNo} {addr : Addr}
    (located : state.place thread = .asleep use blockNo addr) :
    Still sblock start state (state.grant thread use blockNo addr) :=
  granted start (Unaltered.of_op sblock start rfl) rfl rfl (by rw [located]; rfl)

theorem unlocked {release : Release} {addr : Addr} (lock : Semaphore)
    (located : state.place thread = .unlocking release addr) :
    Still sblock start state ((state.setBlock addr { state.block addr with lock := lock }).goto
      thread release.after) := by
  apply moved start ((relocked start addr lock).trans (Unaltered.goto sblock start thread _)) rfl
    release.after _ rfl
  rw [located]
  cases release with
  | caller => rfl
  | source round dst => rfl
  | target round => rfl

theorem started (outside : state.place thread = .outside) :
    Still sblock start state (state.goto thread (.first ⟨false, 0⟩)) := by
  refine ⟨Unaltered.goto sblock start thread _, rfl, System.installs_iff _ rfl ?_⟩
  intro round installing
  rw [outside]
  constructor
  · intro staged
    cases staged
    cases installing
  · intro staged
    cases staged

theorem dropped {release : Release} {addr : Addr} (orderly : Orderly sblock state)
    (located : (∃ round dst, state.place thread = .releasing round addr dst ∧
        release = .source round dst) ∨
      (∃ round, state.place thread = .releasingLast round addr ∧ release = .target round)) :
    Still sblock start state (state.drop thread release addr (state.heldWithout thread addr)) := by
  obtain ⟨owner, locks⟩ := orderly.locks
  obtain ⟨hold, member, rfl, rfl, inner, _, _⟩ := orderly.engaged.drops locks located
  have held := locks.heldWithout_eq member inner
  have lent : ∀ addr, state.Lent addr →
      (state.drop hold.thread release hold.addr
        (state.heldWithout hold.thread hold.addr)).Lent addr := by
    rintro addr ⟨other, present, outer, same⟩
    refine ⟨other, ?_, outer, same⟩
    change other ∈ state.heldWithout hold.thread hold.addr
    rw [held]
    refine (List.mem_erase_of_ne ?_).mpr present
    intro same
    subst same
    rw [inner] at outer
    cases outer
  refine moved start ?_ rfl (.unlocking release hold.addr) ?_ rfl
  · exact ⟨fun _ => Iff.rfl, System.setBlock_keeps Block.blockNo rfl,
      System.setBlock_keeps Block.pinned rfl, System.setBlock_keeps Block.data rfl, fun _ _ => rfl,
      rfl, lent, rfl, rfl⟩
  · rcases located with ⟨round, dst, located, rfl⟩ | ⟨round, located, rfl⟩
    · rw [located]
      rfl
    · rw [located]
      rfl

end Still

/-! ### Blocks that are not listed -/

/-- What a block that is not listed has to do with the device, and what is installed. -/
structure Grounded (sblock : SuperBlock) (start : Disk) (state : System) : Prop where
  kept : ∀ addr ∈ state.cache.order, ¬sblock.InLog (state.block addr).blockNo →
    ¬state.op.header.Lists (state.block addr).blockNo → state.dirty addr = none →
      (state.block addr).data = state.disk (state.block addr).blockNo
  based : ∀ blockNo, ¬sblock.InLog blockNo → ¬state.op.header.Lists blockNo →
    state.disk blockNo = contentIn start state.history blockNo
  installed : ∀ thread round index, state.Installs thread round → index < round.tail →
    index < state.op.header.numBlocks → state.disk (state.op.header.entry index) =
      contentIn start state.history (state.op.header.entry index)

namespace Grounded

variable {sblock : SuperBlock} {start : Disk} {state after : System} {thread : Tid}

theorem carry (grounded : Grounded sblock start state) (orderly : Orderly sblock state)
    (same : Unaltered sblock start state after)
    (installs : ∀ thread round, after.Installs thread round →
      round.tail = 0 ∨ state.Installs thread round) : Grounded sblock start after := by
  obtain ⟨order, numbers, pins, data, disk, content, lent, dirty, header⟩ := same
  have away : ∀ blockNo, ¬sblock.InLog blockNo → after.disk blockNo = state.disk blockNo :=
    fun blockNo outside => disk blockNo (ne_headerBlock_of_outside outside)
  constructor
  · intro addr member outside unlisted clean
    rw [numbers] at outside unlisted ⊢
    rw [header] at unlisted
    rw [dirty] at clean
    rw [data, away _ outside]
    exact grounded.kept addr ((order addr).mp member) outside unlisted clean
  · intro blockNo outside unlisted
    rw [header] at unlisted
    rw [away _ outside, content]
    exact grounded.based blockNo outside unlisted
  · intro thread round index installing below within
    rw [header] at within ⊢
    rw [away _ (orderly.engaged.outside _ (orderly.lists_index within)), content]
    rcases installs thread round installing with started | before
    · rw [started] at below
      cases below
    · exact grounded.installed thread round index before below within

theorem still (grounded : Grounded sblock start state) (orderly : Orderly sblock state)
    (still : Still sblock start state after) : Grounded sblock start after :=
  grounded.carry orderly still.unaltered
    fun thread round installing => Or.inr ((still.installs thread round).mp installing)

theorem stored (grounded : Grounded sblock start state) {hold : Hold} (ctx : CtxId)
    (data : BlockData) :
    Grounded sblock start
      { state.setBlock hold.addr { state.block hold.addr with data := data } with
        dirty := Function.update state.dirty hold.addr (some ctx) } := by
  constructor
  · intro addr present outside unlisted clean
    change Function.update state.dirty hold.addr (some ctx) addr = none at clean
    have different : addr ≠ hold.addr := by
      intro same
      subst same
      rw [Function.update_self] at clean
      cases clean
    rw [Function.update_of_ne different] at clean
    have other : (state.setBlock hold.addr { state.block hold.addr with data := data }).block addr =
        state.block addr := by
      rw [System.setBlock_block, if_neg different]
    change ((state.setBlock hold.addr _).block addr).data = state.disk
      ((state.setBlock hold.addr _).block addr).blockNo
    change ¬sblock.InLog ((state.setBlock hold.addr _).block addr).blockNo at outside
    change ¬state.op.header.Lists ((state.setBlock hold.addr _).block addr).blockNo at unlisted
    rw [other] at outside unlisted ⊢
    exact grounded.kept addr present outside unlisted clean
  · exact grounded.based
  · exact grounded.installed

theorem synced (grounded : Grounded sblock start state) (orderly : Orderly sblock state)
    {hold : Hold} {ctx : CtxId}
    (taken : opStep state.op (.sync hold.thread ctx (state.block hold.addr).blockNo) =
      .ok after.op)
    (order : after.cache.order = state.cache.order)
    (numbers : ∀ addr, (after.block addr).blockNo = (state.block addr).blockNo)
    (data : ∀ addr, (after.block addr).data = (state.block addr).data)
    (disk : after.disk = state.disk) (history : after.history = state.history)
    (place : after.place = state.place)
    (kept : ∀ addr, addr ≠ hold.addr → after.dirty addr = state.dirty addr) :
    Grounded sblock start after := by
  obtain ⟨_, running, synced, paid, same⟩ := OpState.sync_ok taken
  have quiet := orderly.engaged.not_inner running
  have lists : after.op.header.Lists (state.block hold.addr).blockNo ∧
      ∀ blockNo, state.op.header.Lists blockNo → after.op.header.Lists blockNo := by
    have header : after.op.header = synced.header := by rw [same]; rfl
    rw [header]
    obtain ⟨_, _, ⟨listed, rfl⟩ | ⟨_, slot, _, rfl⟩⟩ := cacheSync_ok paid
    · exact ⟨listed, fun _ => id⟩
    · exact ⟨(LogHeader.lists_push slot).mpr (Or.inr rfl),
        fun _ before => (LogHeader.lists_push slot).mpr (Or.inl before)⟩
  constructor
  · intro addr present outside unlisted clean
    rw [order] at present
    rw [numbers] at outside unlisted ⊢
    have different : addr ≠ hold.addr := by
      intro here
      subst here
      exact unlisted lists.1
    rw [kept addr different] at clean
    rw [data, disk]
    exact grounded.kept addr present outside (fun before => unlisted (lists.2 _ before)) clean
  · intro blockNo outside unlisted
    rw [disk, history]
    exact grounded.based blockNo outside (fun before => unlisted (lists.2 _ before))
  · intro thread round index installing
    refine absurd (Place.inner_of_stage installing.1) ?_
    rw [place]
    exact quiet thread

theorem released (grounded : Grounded sblock start state) (coherent : Coherent sblock start state)
    (orderly : Orderly sblock state) {hold : Hold} (member : hold ∈ state.held)
    (clean : state.dirty hold.addr = none) (outside : state.place hold.thread = .outside) :
    Grounded sblock start
      ((state.drop hold.thread .caller hold.addr (state.held.erase hold)).record
        (.released hold.thread hold.blockNo (state.block hold.addr).data)) := by
  generalize same : (state.drop hold.thread .caller hold.addr (state.held.erase hold)).record
    (.released hold.thread hold.blockNo (state.block hold.addr).data) = after
  have content : contentIn start after.history = Function.update
      (contentIn start state.history) hold.blockNo (state.block hold.addr).data := by
    rw [← same]
    exact contentIn_released _ _ _ _ _
  have numbers : ∀ addr, (after.block addr).blockNo = (state.block addr).blockNo := by
    rw [← same]
    exact System.setBlock_keeps Block.blockNo rfl
  have data : ∀ addr, (after.block addr).data = (state.block addr).data := by
    rw [← same]
    exact System.setBlock_keeps Block.data rfl
  have frame : after.cache.order = state.cache.order ∧ after.dirty = state.dirty ∧
      after.disk = state.disk ∧ after.op = state.op ∧
      after.place = Function.update state.place hold.thread (.unlocking .caller hold.addr) := by
    rw [← same]
    exact ⟨rfl, rfl, rfl, rfl, rfl⟩
  obtain ⟨order, dirty, disk, op, place⟩ := frame
  have here := orderly.number member
  have cached := orderly.cached member
  constructor
  · intro addr present away unlisted undirtied
    rw [order] at present
    rw [numbers] at away unlisted ⊢
    rw [op] at unlisted
    rw [dirty] at undirtied
    rw [data, disk]
    exact grounded.kept addr present away unlisted undirtied
  · intro blockNo away unlisted
    rw [op] at unlisted
    rw [disk, content]
    by_cases number : blockNo = hold.blockNo
    · subst number
      rw [Function.update_self]
      have unchanged := grounded.kept hold.addr cached
      rw [here] at unchanged
      exact (unchanged away unlisted clean).symm
    · rw [Function.update_of_ne number]
      exact grounded.based blockNo away unlisted
  · intro thread round index installing below within
    have before : state.Installs thread round :=
      (System.installs_of_stage _ place (by rw [outside]; rfl) thread round).mp installing
    rw [op] at within ⊢
    rw [disk, content]
    -- Nothing was stored to a saved block while it was lent.
    by_cases number : state.op.header.entry index = hold.blockNo
    · rw [number, Function.update_self, ← number,
        grounded.installed thread round index before below within]
      exact ((before.saved coherent orderly within).2 hold.addr cached (here.trans number.symm)).symm
    · rw [Function.update_of_ne number]
      exact grounded.installed thread round index before below within

/-- `memmove` in a round alters a block of the log or a listed one. -/
theorem copied (grounded : Grounded sblock start state) (orderly : Orderly sblock state)
    {round : Round} {src dst : Addr} (located : state.place thread = .copying round src dst) :
    Grounded sblock start ((state.setBlock dst
      { state.block dst with data := (state.block src).data }).goto thread
        (.writing round src dst)) := by
  have proper := orderly.engaged.proper thread
  rw [located] at proper
  obtain ⟨runs, _, target⟩ := proper
  have number := orderly.number target
  have either : sblock.InLog (state.block dst).blockNo ∨
      state.op.header.Lists (state.block dst).blockNo := by
    change (state.block dst).blockNo = _ at number
    rw [number]
    unfold Round.target
    split
    · exact Or.inr (orderly.lists_index runs.2)
    · exact Or.inl (orderly.round_bounds runs).2.2
  have blocks : ∀ addr, addr ≠ dst → (state.setBlock dst
      { state.block dst with data := (state.block src).data }).block addr = state.block addr := by
    intro addr different
    rw [System.setBlock_block, if_neg different]
  have numbers : ∀ addr, ((state.setBlock dst { state.block dst with
      data := (state.block src).data }).block addr).blockNo = (state.block addr).blockNo :=
    System.setBlock_keeps Block.blockNo rfl
  constructor
  · intro addr present outside unlisted clean
    change ¬sblock.InLog ((state.setBlock dst _).block addr).blockNo at outside
    change ¬state.op.header.Lists ((state.setBlock dst _).block addr).blockNo at unlisted
    rw [numbers] at outside unlisted
    have different : addr ≠ dst := by
      intro same
      subst same
      exact either.elim outside unlisted
    change ((state.setBlock dst _).block addr).data = state.disk
      ((state.setBlock dst _).block addr).blockNo
    rw [blocks addr different]
    exact grounded.kept addr present outside unlisted clean
  · exact grounded.based
  · intro other round' index installing below within
    refine grounded.installed other round' index ?_ below within
    refine (System.installs_of_stage (.writing round src dst) rfl ?_ other round').mp
      installing
    rw [located]
    rfl

/-- The write of a round: a slot of the log, or the next listed block. -/
theorem written (grounded : Grounded sblock start state) (coherent : Coherent sblock start state)
    (orderly : Orderly sblock state) {round : Round} {src dst : Addr}
    (located : state.place thread = .writing round src dst) :
    Grounded sblock start ((state.write (state.block dst).blockNo (state.block dst).data).goto
      thread (.releasing round src dst)) := by
  have proper := orderly.engaged.proper thread
  rw [located] at proper
  obtain ⟨runs, _, target⟩ := proper
  have number : (state.block dst).blockNo = round.target sblock state.op.header :=
    orderly.number target
  have either : ∀ blockNo, ¬sblock.InLog blockNo → ¬state.op.header.Lists blockNo →
      Function.update state.disk (state.block dst).blockNo (state.block dst).data blockNo =
        state.disk blockNo := by
    intro blockNo outside unlisted
    apply Function.update_of_ne
    intro same
    rw [same, number] at outside unlisted
    unfold Round.target at outside unlisted
    split at outside
    · rename_i installing
      rw [if_pos installing] at unlisted
      exact unlisted (orderly.lists_index runs.2)
    · exact outside (orderly.round_bounds runs).2.2
  constructor
  · intro addr present outside unlisted clean
    exact (grounded.kept addr present outside unlisted clean).trans
      (either _ outside unlisted).symm
  · intro blockNo outside unlisted
    exact (either blockNo outside unlisted).trans (grounded.based blockNo outside unlisted)
  · intro other round' index installing below within
    have mover : other = thread := by
      apply orderly.engaged.inner_unique _ (Place.inner_of_stage (by rw [located]; rfl))
      by_contra outer
      apply outer
      by_cases same : other = thread
      · rw [same, located]
        trivial
      · have staged := installing.1
        change (Function.update state.place thread _ other).stage = _ at staged
        rw [Function.update_of_ne same] at staged
        exact Place.inner_of_stage staged
    subst mover
    obtain ⟨staged, installs⟩ := installing
    change (Function.update state.place other _ other).stage = _ at staged
    rw [Function.update_self] at staged
    cases staged
    change round.installing = true at installs
    have before : state.Installs other round := ⟨by rw [located]; rfl, installs⟩
    have saved := (before.saved coherent orderly within).2
    unfold Round.target at number
    rw [installs, if_pos rfl] at number
    change Function.update state.disk (state.block dst).blockNo (state.block dst).data
      (state.op.header.entry index) = _
    by_cases newest : state.op.header.entry index = (state.block dst).blockNo
    · rw [newest, Function.update_self, ← newest]
      exact saved dst (orderly.cached target) newest.symm
    · rw [Function.update_of_ne newest]
      apply grounded.installed other round index before _ within
      have different : index ≠ round.tail := by
        intro same
        subst same
        exact newest number.symm
      exact Nat.lt_of_le_of_ne (Nat.le_of_lt_succ below) different

theorem sought (grounded : Grounded sblock start state) (orderly : Orderly sblock state)
    {use : Use} {blockNo : BlockNo} {chunk : Addr}
    (enters : state.Enters sblock thread use blockNo) (fresh : chunk ∉ state.cache.evict) :
    Grounded sblock start ({ state with
      cache := (state.cache.acquireSection chunk blockNo state.disk).2 }.goto thread
        (.locking use blockNo (state.cache.acquireSection chunk blockNo state.disk).1)) := by
  have installs := enters.installs chunk
  cases found : state.cache.find blockNo with
  | some addr =>
      rcases (orderly.wellFormed.fetched blockNo state.disk fresh).outcome with
        ⟨_, heap, nodes⟩ | ⟨missing, _⟩
      · refine grounded.still orderly ⟨?_, rfl, installs⟩
        exact ⟨nodes, fun other => congrArg Block.blockNo (congrFun heap other),
          fun other => congrArg Block.pinned (congrFun heap other),
          fun other => congrArg Block.data (congrFun heap other), fun _ _ => rfl, rfl, fun _ => id,
          rfl, rfl⟩
      · rw [found] at missing
        cases missing
  | none =>
      constructor
      · intro addr member outside unlisted clean
        rcases BlockCache.section_missed found fresh member with
          ⟨_, loaded⟩ | ⟨_, left, same⟩
        · change ((state.cache.acquireSection chunk blockNo state.disk).2.heap addr).data =
            state.disk ((state.cache.acquireSection chunk blockNo state.disk).2.heap addr).blockNo
          rw [loaded]
          rfl
        · change ¬sblock.InLog ((state.cache.acquireSection chunk blockNo state.disk).2.heap
            addr).blockNo at outside
          change ¬state.op.header.Lists ((state.cache.acquireSection chunk blockNo
            state.disk).2.heap addr).blockNo at unlisted
          change ((state.cache.acquireSection chunk blockNo state.disk).2.heap addr).data =
            state.disk ((state.cache.acquireSection chunk blockNo state.disk).2.heap addr).blockNo
          rw [same] at outside unlisted ⊢
          exact grounded.kept addr (state.cache.evict_sublist.subset left) outside unlisted clean
      · exact grounded.based
      · intro other round index installing below within
        exact grounded.installed other round index ((installs other round).mp installing) below
          within

/-- A commit ends: what was listed is in its place. -/
theorem finished (grounded : Grounded sblock start state) (coherent : Coherent sblock start state)
    (orderly : Orderly sblock state)
    (taken : opStep state.op (.commitReturn thread) = .ok after.op)
    (complete : state.op.header.numBlocks = 0 ∨
      ∃ round, state.Installs thread round ∧ state.op.header.numBlocks ≤ round.tail)
    (cache : after.cache = state.cache) (dirty : after.dirty = state.dirty)
    (disk : ∀ blockNo, blockNo ≠ sblock.headerBlock → after.disk blockNo = state.disk blockNo)
    (history : after.history = state.history) : Grounded sblock start after := by
  obtain ⟨ctx, commits, same⟩ := OpState.commitReturn_ok taken
  have away : ∀ blockNo, ¬sblock.InLog blockNo → after.disk blockNo = state.disk blockNo :=
    fun blockNo outside => disk blockNo (ne_headerBlock_of_outside outside)
  have blocks : after.block = state.block := by
    unfold System.block
    rw [cache]
  have listed : ∀ blockNo, state.op.header.Lists blockNo →
      state.disk blockNo = contentIn start state.history blockNo ∧
        ∀ addr ∈ state.cache.order, (state.block addr).blockNo = blockNo →
          (state.block addr).data = contentIn start state.history blockNo := by
    intro blockNo lists
    obtain ⟨index, within, rfl⟩ := lists.index
    obtain ⟨round, installs, all⟩ := complete.resolve_left (by omega)
    exact ⟨grounded.installed thread round index installs (by omega) within,
      (installs.saved coherent orderly within).2⟩
  constructor
  · intro addr present outside _ clean
    rw [cache] at present
    rw [blocks] at outside ⊢
    rw [dirty] at clean
    rw [away _ outside]
    by_cases lists : state.op.header.Lists (state.block addr).blockNo
    · obtain ⟨stored, cached⟩ := listed _ lists
      rw [stored]
      exact cached addr present rfl
    · exact grounded.kept addr present outside lists clean
  · intro blockNo outside _
    rw [away _ outside, history]
    by_cases lists : state.op.header.Lists blockNo
    · exact (listed blockNo lists).1
    · exact grounded.based blockNo outside lists
  · intro other round index _ _ within
    rw [same] at within
    cases within

theorem step (grounded : Grounded sblock start state) (coherent : Coherent sblock start state)
    (orderly : Orderly sblock state) {action : Action} (logs : ∀ hold, action ≠ .flush hold)
    (disciplined : Disciplined sblock state action)
    (outcome : System.Outcome sblock state action after) : Grounded sblock start after := by
  cases outcome with
  | operated part op apart outside taken =>
      exact grounded.still orderly (Still.operated start apart taken)
  | sought thread use blockNo chunk asked enters fresh =>
      exact grounded.sought orderly enters fresh
  | locked thread use blockNo addr located free =>
      exact grounded.still orderly (Still.locked start _ located)
  | slept thread use blockNo addr located taken =>
      exact grounded.still orderly (Still.slept start _ located)
  | woken thread use blockNo addr located posted =>
      exact grounded.still orderly (Still.woken start located)
  | stored hold ctx data idle member outer => exact grounded.stored ctx data
  | synced hold ctx op idle member outer taken =>
      apply grounded.synced orderly
      · exact taken
      · rfl
      · exact System.setBlock_keeps Block.blockNo rfl
      · exact System.setBlock_keeps Block.data rfl
      · rfl
      · rfl
      · rfl
      · intro addr different
        change (if state.dirty hold.addr = some ctx then Function.update state.dirty hold.addr none
          else state.dirty) addr = _
        split
        · exact Function.update_of_ne different _ _
        · rfl
  | flushed hold member outer => exact absurd rfl (logs hold)
  | released hold idle member outer =>
      exact grounded.released coherent orderly member disciplined.1 idle.2
  | unlocked thread release addr woken lock located posted =>
      exact grounded.still orderly (Still.unlocked start lock located)
  | started thread ctx chunk outside commits listed =>
      exact grounded.still orderly (Still.started start outside)
  | logged thread round chunk located logging complete =>
      apply grounded.carry orderly
        ((Unaltered.writeHeader sblock start _).trans (Unaltered.goto sblock start thread _))
      intro other other' installing
      by_cases mover : other = thread
      · left
        have staged := installing.1
        change (Function.update state.place thread _ other).stage = _ at staged
        rw [mover, Function.update_self] at staged
        cases staged
        rfl
      · right
        have staged := installing.1
        change (Function.update state.place thread _ other).stage = _ at staged
        rw [Function.update_of_ne mover] at staged
        exact ⟨staged, installing.2⟩
  | copied thread round src dst chunk located => exact grounded.copied orderly located
  | written thread round src dst chunk located => exact grounded.written coherent orderly located
  | dropped thread release addr chunk located =>
      exact grounded.still orderly (Still.dropped start orderly located)
  | finished thread op chunk written located taken =>
      have complete : state.op.header.numBlocks = 0 ∨
          ∃ round, state.Installs thread round ∧ state.op.header.numBlocks ≤ round.tail := by
        rcases located with ⟨_, _, empty⟩ | ⟨round, located, installing, all, _⟩
        · exact Or.inl empty
        · exact Or.inr ⟨round, ⟨by rw [located]; rfl, installing⟩, all⟩
      cases written with
      | true =>
          apply grounded.finished coherent orderly taken complete
          · rfl
          · rfl
          · exact fun blockNo elsewhere => Function.update_of_ne elsewhere _ _
          · rfl
      | false =>
          apply grounded.finished coherent orderly taken complete
          · rfl
          · rfl
          · exact fun _ _ => rfl
          · rfl

end Grounded

/-! ### What recovery will find -/

/-- The next step writes a header that lists blocks, or finds that there is nothing to commit. -/
def Place.commitsAt (numBlocks : Nat) : Place → Bool
  | .first round => !round.installing && decide (numBlocks ≤ round.tail)
  | .outside => decide (numBlocks = 0)
  | _ => false

def System.commitsAt (state : System) : Action → Bool
  | .commit thread _ => (state.place thread).commitsAt state.op.header.numBlocks
  | _ => false

theorem System.commitsAt_ok {sblock : SuperBlock} {state after : System} {action : Action}
    (commits : state.commitsAt action = true) (taken : systemStep sblock state action = .ok after) :
    ∃ thread, (∃ round, state.place thread = .first round ∧ round.installing = false ∧
        state.op.header.numBlocks ≤ round.tail ∧
        after = (state.write sblock.headerBlock state.op.header.toBlock).goto thread
          (.first ⟨true, 0⟩)) ∨
      (state.place thread = .outside ∧ state.op.header.numBlocks = 0 ∧
        ∃ op, opStep state.op (.commitReturn thread) = .ok op ∧
          after = { state with op := op }.goto thread .outside) := by
  cases action with
  | commit thread chunk =>
      refine ⟨thread, ?_⟩
      change (state.place thread).commitsAt state.op.header.numBlocks = true at commits
      change state.commit sblock thread chunk = .ok after at taken
      unfold commit at taken
      cases located : state.place thread with
      | first round =>
          rw [located] at commits
          obtain ⟨logging, complete⟩ := Bool.and_eq_true_iff.mp commits
          rw [Bool.not_eq_true'] at logging
          rw [decide_eq_true_iff] at complete
          simp only [located, if_neg (Nat.not_lt_of_le complete), logging, Bool.false_eq_true,
            if_false] at taken
          cases taken
          exact Or.inl ⟨round, rfl, logging, complete, rfl⟩
      | outside =>
          rw [located] at commits
          have empty : state.op.header.numBlocks = 0 := of_decide_eq_true commits
          simp only [located, empty, Nat.lt_irrefl, if_false] at taken
          split at taken
          · obtain ⟨op, returned, rfl⟩ := commitEnd_ok taken
            exact Or.inr ⟨rfl, empty, op, returned, rfl⟩
          · cases taken
      | locking | asleep | unlocking | second | copying | writing | releasing | releasingLast =>
          rw [located] at commits
          cases commits
  | _ => cases commits

/-- Recovery of the device as it is gives the content after these accesses. -/
structure Persisted (sblock : SuperBlock) (start : Disk) (durable : List Access)
    (state : System) : Prop where
  quiet : (∀ thread round, ¬state.Installs thread round) →
    (diskHeader sblock state.disk).numBlocks = 0 ∧
      ∀ blockNo, ¬sblock.InLog blockNo → state.disk blockNo = contentIn start durable blockNo
  busy : ∀ thread round, state.Installs thread round →
    diskHeader sblock state.disk = state.op.header ∧
      (∀ index < state.op.header.numBlocks, state.disk (sblock.logBlock index) =
        contentIn start durable (state.op.header.entry index)) ∧
      ∀ blockNo, ¬sblock.InLog blockNo → ¬state.op.header.Lists blockNo →
        state.disk blockNo = contentIn start durable blockNo

namespace Persisted

variable {sblock : SuperBlock} {start : Disk} {durable : List Access} {state after : System}
  {thread : Tid}

theorem recovers (persisted : Persisted sblock start durable state)
    (orderly : Orderly sblock state) :
    Recovers sblock state.disk (contentIn start durable) := by
  by_cases quiet : ∀ thread round, ¬state.Installs thread round
  · obtain ⟨empty, content⟩ := persisted.quiet quiet
    have self := Recovers.settled empty
    refine ⟨self.admits, ?_⟩
    intro blockNo outside
    rw [self.content blockNo outside]
    exact content blockNo outside
  · simp only [not_forall, not_not] at quiet
    obtain ⟨thread, round, installs⟩ := quiet
    obtain ⟨header, logged, others⟩ := persisted.busy thread round installs
    have outside : ∀ index, index < state.op.header.numBlocks →
        ¬sblock.InLog (state.op.header.entry index) :=
      fun index within => orderly.engaged.outside _ (orderly.lists_index within)
    constructor
    · rw [header]
      exact ⟨orderly.engaged.fits, outside⟩
    · intro blockNo away
      rw [header]
      by_cases listed : state.op.header.Lists blockNo
      · apply applyWrites_constant
        · obtain ⟨index, within, number⟩ := listed.index
          exact ⟨_, List.mem_map.mpr ⟨index, by rw [List.mem_range'_1]; omega, rfl⟩, number⟩
        · intro write member same
          obtain ⟨index, present, rfl⟩ := List.mem_map.mp member
          rw [List.mem_range'_1] at present
          rw [← same]
          exact logged index (by omega)
      · rw [applyWrites_untouched]
        · exact others blockNo away listed
        · intro write member same
          obtain ⟨index, present, rfl⟩ := List.mem_map.mp member
          rw [List.mem_range'_1] at present
          exact listed (same ▸ orderly.lists_index (by omega))

theorem unwritten (persisted : Persisted sblock start durable state)
    (disk : after.disk = state.disk)
    (installs : ∀ thread round, after.Installs thread round ↔ state.Installs thread round)
    (header : ∀ thread round, state.Installs thread round →
      after.op.header = state.op.header) : Persisted sblock start durable after := by
  constructor
  · intro quiet
    rw [disk]
    exact persisted.quiet (fun thread round before => quiet thread round
      ((installs thread round).mpr before))
  · intro thread round installing
    have before := (installs thread round).mp installing
    rw [disk, header thread round before]
    exact persisted.busy thread round before

theorem still (persisted : Persisted sblock start durable state)
    (still : Still sblock start state after) : Persisted sblock start durable after :=
  persisted.unwritten still.disk still.installs fun _ _ _ => still.unaltered.header

/-- The write of a round: the log while nothing is installed, or a listed block. -/
theorem written (persisted : Persisted sblock start durable state)
    (orderly : Orderly sblock state) {round : Round} {src dst : Addr}
    (located : state.place thread = .writing round src dst) :
    Persisted sblock start durable ((state.write (state.block dst).blockNo
      (state.block dst).data).goto thread (.releasing round src dst)) := by
  have proper := orderly.engaged.proper thread
  rw [located] at proper
  obtain ⟨runs, _, target⟩ := proper
  obtain ⟨bound, away, inLog⟩ := orderly.round_bounds runs
  have number : (state.block dst).blockNo = round.target sblock state.op.header :=
    orderly.number target
  have inner : (state.place thread).Inner := by
    rw [located]
    trivial
  generalize same : (state.write (state.block dst).blockNo (state.block dst).data).goto thread
    (.releasing round src dst) = after
  have frame : after.op = state.op ∧ after.disk = Function.update state.disk
      (state.block dst).blockNo (state.block dst).data ∧
      after.place = Function.update state.place thread (.releasing round src dst) := by
    rw [← same]
    exact ⟨rfl, rfl, rfl⟩
  obtain ⟨op, disk, place⟩ := frame
  have here : (after.place thread).stage = some round.next := by
    rw [place, Function.update_self]
    rfl
  have alone : ∀ other round', after.Installs other round' → other = thread := by
    intro other round' installing
    by_contra different
    have staged := installing.1
    rw [place, Function.update_of_ne different] at staged
    exact different (orderly.engaged.inner_unique (Place.inner_of_stage staged) inner)
  unfold Round.target at number
  cases installing : round.installing with
  | false =>
      rw [installing] at number
      change _ = sblock.logBlock round.tail at number
      have before : ∀ other round', ¬state.Installs other round' := by
        intro other round' installs
        have mover := installs.alone orderly inner
        subst mover
        obtain ⟨staged, flag⟩ := installs
        rw [located] at staged
        cases staged
        rw [installing] at flag
        cases flag
      obtain ⟨empty, content⟩ := persisted.quiet before
      constructor
      · intro _
        constructor
        · unfold diskHeader
          rw [disk, number, Function.update_of_ne (sblock.logBlock_ne_headerBlock bound).symm]
          exact empty
        · intro blockNo outside
          rw [disk, number, Function.update_of_ne]
          · exact content blockNo outside
          · intro slot
            exact outside (slot ▸ inLog)
      · intro other round' installs
        have mover := alone other round' installs
        subst mover
        obtain ⟨staged, flag⟩ := installs
        rw [here] at staged
        cases staged
        change round.installing = true at flag
        rw [installing] at flag
        cases flag
  | true =>
      rw [installing, if_pos rfl] at number
      obtain ⟨header, logged, others⟩ := persisted.busy thread round
        ⟨by rw [located]; rfl, installing⟩
      constructor
      · intro quiet
        exact absurd ⟨here, installing⟩ (quiet thread round.next)
      · intro _ _ _
        rw [op, disk, number]
        refine ⟨?_, ?_, ?_⟩
        · unfold diskHeader
          rw [Function.update_of_ne (ne_headerBlock_of_outside away).symm]
          exact header
        · intro index within
          rw [Function.update_of_ne]
          · exact logged index within
          · intro slot
            apply away
            rw [← slot]
            exact sblock.logBlock_inLog (Nat.lt_of_lt_of_le within orderly.engaged.fits)
        · intro blockNo outside unlisted
          rw [Function.update_of_ne]
          · exact others blockNo outside unlisted
          · intro entry
            exact unlisted (entry ▸ orderly.lists_index runs.2)

/-- The header reaches the device: the listed blocks are in the log as they were released. -/
theorem logged (coherent : Coherent sblock start state) (grounded : Grounded sblock start state)
    (orderly : Orderly sblock state) {round : Round} (located : state.place thread = .first round)
    (logging : round.installing = false) (complete : state.op.header.numBlocks ≤ round.tail) :
    Persisted sblock start state.history
      ((state.write sblock.headerBlock state.op.header.toBlock).goto thread (.first ⟨true, 0⟩)) := by
  have limit := sblock.logMx_le
  have fits := orderly.engaged.fits
  constructor
  · intro quiet
    refine absurd ?_ (quiet thread ⟨true, 0⟩)
    constructor
    · change (Function.update state.place thread _ thread).stage = _
      rw [Function.update_self]
      rfl
    · rfl
  · intro _ _ _
    change diskHeader sblock (Function.update state.disk sblock.headerBlock _) = _ ∧
      (∀ index < state.op.header.numBlocks, Function.update state.disk sblock.headerBlock _
        (sblock.logBlock index) = contentIn start state.history _) ∧
      ∀ blockNo, ¬sblock.InLog blockNo → ¬state.op.header.Lists blockNo →
        Function.update state.disk sblock.headerBlock _ blockNo =
          contentIn start state.history blockNo
    refine ⟨?_, ?_, ?_⟩
    · unfold diskHeader
      rw [Function.update_self]
      apply LogHeader.ofBlock_toBlock
      unfold logMaxSize blockSize at limit
      omega
    · intro index within
      have bound := Nat.lt_of_lt_of_le within fits
      rw [Function.update_of_ne (sblock.logBlock_ne_headerBlock bound)]
      refine (coherent.logged thread index ?_ bound).1
      rw [located]
      change index < round.logged _
      unfold Round.logged
      rw [logging, if_neg Bool.false_ne_true]
      omega
    · intro blockNo outside unlisted
      rw [Function.update_of_ne (ne_headerBlock_of_outside outside)]
      exact grounded.based blockNo outside unlisted

theorem nobody_installs (orderly : Orderly sblock state) {op : OpState}
    (taken : opStep state.op (.commitReturn thread) = .ok op) (after : System)
    (place : after.place = Function.update state.place thread .outside) :
    ∀ other round, ¬after.Installs other round := by
  obtain ⟨ctx, commits, _⟩ := OpState.commitReturn_ok taken
  intro other round installs
  have staged := installs.1
  rw [place] at staged
  by_cases mover : other = thread
  · rw [mover, Function.update_self] at staged
    cases staged
  · rw [Function.update_of_ne mover] at staged
    obtain ⟨ctx', commits'⟩ := orderly.engaged.commits_of_inner (Place.inner_of_stage staged)
    refine mover (orderly.engaged.grouping.single other thread ?_ ?_)
    · rw [commits']
      trivial
    · rw [commits]
      trivial

/-- The second header write: every listed block is in its place. -/
theorem cleared (persisted : Persisted sblock start durable state)
    (coherent : Coherent sblock start state) (grounded : Grounded sblock start state)
    (orderly : Orderly sblock state) {op : OpState} {round : Round}
    (taken : opStep state.op (.commitReturn thread) = .ok op)
    (installs : state.Installs thread round) (all : state.op.header.numBlocks ≤ round.tail) :
    Persisted sblock start durable (({ state with op := op }.goto thread .outside).write
      sblock.headerBlock op.header.toBlock) := by
  have nobody := nobody_installs orderly taken (({ state with op := op }.goto thread
    .outside).write sblock.headerBlock op.header.toBlock) rfl
  obtain ⟨_, logged, others⟩ := persisted.busy thread round installs
  obtain ⟨ctx, _, same⟩ := OpState.commitReturn_ok taken
  constructor
  · intro _
    change (diskHeader sblock (Function.update state.disk sblock.headerBlock _)).numBlocks = 0 ∧
      ∀ blockNo, ¬sblock.InLog blockNo → Function.update state.disk sblock.headerBlock _ blockNo =
        contentIn start durable blockNo
    constructor
    · unfold diskHeader
      rw [Function.update_self, same]
      exact cleared_numBlocks state.op.header
    · intro blockNo outside
      rw [Function.update_of_ne (ne_headerBlock_of_outside outside)]
      by_cases listed : state.op.header.Lists blockNo
      · obtain ⟨index, within, rfl⟩ := listed.index
        rw [← logged index within, (installs.saved coherent orderly within).1]
        exact grounded.installed thread round index installs (by omega) within
      · exact others blockNo outside listed
  · intro other round' installs'
    exact absurd installs' (nobody other round')

theorem nothing (persisted : Persisted sblock start durable state)
    (grounded : Grounded sblock start state) (orderly : Orderly sblock state) {op : OpState}
    (taken : opStep state.op (.commitReturn thread) = .ok op)
    (outside : state.place thread = .outside) (empty : state.op.header.numBlocks = 0) :
    Persisted sblock start state.history ({ state with op := op }.goto thread .outside) := by
  have nobody := nobody_installs orderly taken ({ state with op := op }.goto thread .outside) rfl
  have before : ∀ other round, ¬state.Installs other round := by
    intro other round installs
    apply nobody other round
    refine (System.installs_of_stage .outside rfl ?_ other round).mpr installs
    rw [outside]
  constructor
  · intro _
    refine ⟨(persisted.quiet before).1, ?_⟩
    intro blockNo away
    apply grounded.based blockNo away
    rintro ⟨index, within, _⟩
    omega
  · intro other round installs
    exact absurd installs (nobody other round)

theorem step (persisted : Persisted sblock start durable state)
    (coherent : Coherent sblock start state) (grounded : Grounded sblock start state)
    (orderly : Orderly sblock state) {action : Action} (logs : ∀ hold, action ≠ .flush hold)
    (taken : systemStep sblock state action = .ok after) :
    Persisted sblock start (if state.commitsAt action then after.history else durable) after := by
  by_cases commits : state.commitsAt action = true
  · rw [if_pos commits]
    obtain ⟨thread, ⟨round, located, logging, complete, rfl⟩ | ⟨outside, empty, op, returned, rfl⟩⟩ :=
      System.commitsAt_ok commits taken
    · exact logged coherent grounded orderly located logging complete
    · exact persisted.nothing grounded orderly returned outside empty
  · rw [if_neg commits]
    cases System.step_outcome taken with
    | operated part op apart outside returned =>
        exact persisted.still (Still.operated start apart returned)
    | sought thread use blockNo chunk asked enters fresh =>
        exact persisted.unwritten rfl (enters.installs chunk) fun _ _ _ => rfl
    | locked thread use blockNo addr located free =>
        exact persisted.still (Still.locked start _ located)
    | slept thread use blockNo addr located taken =>
        exact persisted.still (Still.slept start _ located)
    | woken thread use blockNo addr located posted =>
        exact persisted.still (Still.woken start located)
    | stored hold ctx data idle member outer =>
        exact persisted.unwritten rfl (fun _ _ => Iff.rfl) fun _ _ _ => rfl
    | synced hold ctx op idle member outer returned =>
        refine persisted.unwritten rfl (fun _ _ => Iff.rfl) ?_
        intro thread round installs
        obtain ⟨_, running, _⟩ := OpState.sync_ok returned
        exact absurd (Place.inner_of_stage installs.1) (orderly.engaged.not_inner running thread)
    | flushed hold member outer => exact absurd rfl (logs hold)
    | released hold idle member outer =>
        refine persisted.unwritten rfl ?_ fun _ _ _ => rfl
        apply System.installs_of_stage (.unlocking .caller hold.addr) rfl
        rw [idle.2]
        rfl
    | unlocked thread release addr woken lock located posted =>
        exact persisted.still (Still.unlocked start lock located)
    | started thread ctx chunk outside commits listed =>
        exact persisted.still (Still.started start outside)
    | logged thread round chunk located logging complete =>
        refine absurd ?_ commits
        change (state.place thread).commitsAt _ = true
        rw [located]
        change (!round.installing && decide _) = true
        rw [logging, decide_eq_true complete]
        rfl
    | copied thread round src dst chunk located =>
        refine persisted.unwritten rfl ?_ fun _ _ _ => rfl
        apply System.installs_of_stage (.writing round src dst) rfl
        rw [located]
        rfl
    | written thread round src dst chunk located => exact persisted.written orderly located
    | dropped thread release addr chunk located =>
        exact persisted.still (Still.dropped start orderly located)
    | finished thread op chunk written located returned =>
        rcases located with ⟨outside, _, empty⟩ | ⟨round, located, installing, all, rfl⟩
        · refine absurd ?_ commits
          change (state.place thread).commitsAt _ = true
          rw [outside, empty]
          rfl
        · exact persisted.cleared coherent grounded orderly returned ⟨by rw [located]; rfl, installing⟩
            all

end Persisted

end LabKernel.Fs
