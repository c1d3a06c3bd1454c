/-
Commits at work.

A thread inside a commit holds the blocks of its round and has the log to itself: no
operation is open, so nothing is synced and the header stays as it was when the commit
began.
-/

import LabKernel.Fs.Checkpoint
import LabKernel.Fs.Exclusion
import LabKernel.Fs.Reservation

set_option autoImplicit false

namespace LabKernel.Fs

open Common Transition

/-! ### The log during a step -/

/-- Opening, waiting and closing leave the header and the other threads alone. -/
theorem OpAction.Apart.frame {state after : OpState} {part : OpAction} (apart : part.Apart)
    (taken : opStep state part = .ok after) :
    after.header = state.header ∧ ∀ other, other ≠ part.thread → after.pc other = state.pc other := by
  cases part with
  | beginOp thread ctx =>
      obtain ⟨_, _, rfl⟩ := OpState.beginOp_ok taken
      exact ⟨rfl, fun other different => Function.update_of_ne different _ _⟩
  | beginTry thread =>
      obtain ⟨ctx, _, ⟨_, rfl⟩ | ⟨_, _, rfl⟩⟩ := OpState.beginTry_ok taken
      · exact ⟨rfl, fun other different => Function.update_of_ne different _ _⟩
      · exact ⟨rfl, fun other different => Function.update_of_ne different _ _⟩
  | beginSleep thread =>
      obtain ⟨ctx, _, rfl⟩ := OpState.beginSleep_ok taken
      exact ⟨rfl, fun other different => Function.update_of_ne different _ _⟩
  | beginWake thread =>
      obtain ⟨ctx, _, _, rfl⟩ := OpState.beginWake_ok taken
      exact ⟨rfl, fun other different => Function.update_of_ne different _ _⟩
  | sync thread ctx blockNo => cases apart
  | endOp thread ctx =>
      obtain ⟨_, _, _, ⟨_, rfl⟩ | ⟨_, _, _, _, _, _, rfl⟩⟩ := OpState.endOp_ok taken
      · exact ⟨rfl, fun other different => Function.update_of_ne different _ _⟩
      · exact ⟨rfl, fun other different => Function.update_of_ne different _ _⟩
  | endSleep thread =>
      obtain ⟨ctx, _, ⟨_, rfl⟩ | ⟨_, rfl⟩⟩ := OpState.endSleep_ok taken
      · exact ⟨rfl, fun other different => Function.update_of_ne different _ _⟩
      · exact ⟨rfl, fun other different => Function.update_of_ne different _ _⟩
  | endWake thread =>
      obtain ⟨ctx, _, _, rfl⟩ := OpState.endWake_ok taken
      exact ⟨rfl, fun other different => Function.update_of_ne different _ _⟩
  | commitReturn thread => cases apart
  | commitDone thread =>
      obtain ⟨ctx, _, _, _, _, _, _, _, _, _, _, _, rfl⟩ := OpState.commitDone_ok taken
      exact ⟨rfl, fun other different => Function.update_of_ne different _ _⟩

/-! ### What a place relies on -/

def System.Runs (state : System) (thread : Tid) (round : Round) : Prop :=
  (∃ ctx, state.op.pc thread = .committing ctx) ∧ round.tail < state.op.header.numBlocks

def System.HoldsSource (sblock : SuperBlock) (state : System) (thread : Tid) (round : Round)
    (src : Addr) : Prop :=
  ⟨thread, round.source sblock state.op.header, src, true⟩ ∈ state.held

def System.HoldsTarget (sblock : SuperBlock) (state : System) (thread : Tid) (round : Round)
    (dst : Addr) : Prop :=
  ⟨thread, round.target sblock state.op.header, dst, true⟩ ∈ state.held

def Use.Proper (sblock : SuperBlock) (state : System) (thread : Tid) (blockNo : BlockNo) :
    Use → Prop
  | .caller => state.op.pc thread = .idle
  | .source round =>
      state.Runs thread round ∧ blockNo = round.source sblock state.op.header
  | .target round src =>
      state.Runs thread round ∧ blockNo = round.target sblock state.op.header ∧
        state.HoldsSource sblock thread round src

def Release.Proper (sblock : SuperBlock) (state : System) (thread : Tid) : Release → Prop
  | .caller => state.op.pc thread = .idle
  | .source round dst => state.Runs thread round ∧ state.HoldsTarget sblock thread round dst
  | .target round => state.Runs thread round

def Place.Proper (sblock : SuperBlock) (state : System) (thread : Tid) : Place → Prop
  | .outside => True
  | .locking use blockNo _ | .asleep use blockNo _ => use.Proper sblock state thread blockNo
  | .unlocking release _ => release.Proper sblock state thread
  | .first round =>
      (∃ ctx, state.op.pc thread = .committing ctx) ∧ round.tail ≤ state.op.header.numBlocks
  | .second round src => state.Runs thread round ∧ state.HoldsSource sblock thread round src
  | .copying round src dst | .writing round src dst | .releasing round src dst =>
      state.Runs thread round ∧ state.HoldsSource sblock thread round src ∧
        state.HoldsTarget sblock thread round dst
  | .releasingLast round dst => state.Runs thread round ∧ state.HoldsTarget sblock thread round dst

/-- Every thread is where the log expects it, and holds what its round needs. -/
structure Engaged (sblock : SuperBlock) (state : System) : Prop where
  reached : ∃ blockNo, Reachable opStep (OpState.initial sblock blockNo) state.op
  proper : ∀ thread, (state.place thread).Proper sblock state thread
  outside : ∀ blockNo, state.op.header.Lists blockNo → ¬sblock.InLog blockNo

def Place.Inner : Place → Prop
  | .outside | .locking .caller .. | .asleep .caller .. | .unlocking .caller _ => False
  | _ => True

namespace Engaged

variable {sblock : SuperBlock} {state after : System} {thread : Tid}

theorem tracked (engaged : Engaged sblock state) : Tracked state.op := by
  obtain ⟨blockNo, reached⟩ := engaged.reached
  exact (checkpoint_reachable reached).1

theorem grouping (engaged : Engaged sblock state) : Grouping state.op := by
  obtain ⟨blockNo, reached⟩ := engaged.reached
  exact (checkpoint_reachable reached).2.1

theorem budget (engaged : Engaged sblock state) : Budget sblock state.op := by
  obtain ⟨blockNo, reached⟩ := engaged.reached
  exact (Budget.reachable reached).2

theorem fits (engaged : Engaged sblock state) : state.op.header.numBlocks ≤ sblock.logMx := by
  have fits := engaged.budget.fits
  omega

theorem commits_of_inner (engaged : Engaged sblock state) (inner : (state.place thread).Inner) :
    ∃ ctx, state.op.pc thread = .committing ctx := by
  have proper := engaged.proper thread
  cases located : state.place thread with
  | outside =>
      rw [located] at inner
      cases inner
  | locking use blockNo addr =>
      rw [located] at inner proper
      cases use with
      | caller => cases inner
      | source round => exact proper.1.1
      | target round src => exact proper.1.1
  | asleep use blockNo addr =>
      rw [located] at inner proper
      cases use with
      | caller => cases inner
      | source round => exact proper.1.1
      | target round src => exact proper.1.1
  | unlocking release addr =>
      rw [located] at inner proper
      cases release with
      | caller => cases inner
      | source round dst => exact proper.1.1
      | target round => exact proper.1
  | first round =>
      rw [located] at proper
      exact proper.1
  | second round src =>
      rw [located] at proper
      exact proper.1.1
  | copying round src dst =>
      rw [located] at proper
      exact proper.1.1
  | writing round src dst =>
      rw [located] at proper
      exact proper.1.1
  | releasing round src dst =>
      rw [located] at proper
      exact proper.1.1
  | releasingLast round dst =>
      rw [located] at proper
      exact proper.1.1

/-- There is one commit at a time. -/
theorem inner_unique (engaged : Engaged sblock state) {other : Tid}
    (left : (state.place thread).Inner) (right : (state.place other).Inner) : thread = other := by
  obtain ⟨ctx, commits⟩ := engaged.commits_of_inner left
  obtain ⟨ctx', commits'⟩ := engaged.commits_of_inner right
  apply engaged.grouping.single
  · rw [commits]
    trivial
  · rw [commits']
    trivial

/-- Nobody is inside a commit while an operation is open. -/
theorem not_inner (engaged : Engaged sblock state) {ctx : CtxId}
    (running : state.op.phase ctx = .running) (thread : Tid) : ¬(state.place thread).Inner := by
  intro inner
  obtain ⟨ctx', commits⟩ := engaged.commits_of_inner inner
  have flag := engaged.grouping.flagged thread (by rw [commits]; trivial)
  have opened := (engaged.tracked.running ctx).mpr running
  rw [engaged.grouping.closed flag] at opened
  cases opened

/-- A place stays proper when the thread's program counter, its own holds and, inside a
commit, the header stay. -/
theorem proper_of {place : Place} (proper : place.Proper sblock state thread)
    (pc : after.op.pc thread = state.op.pc thread)
    (header : place.Inner → after.op.header = state.op.header)
    (held : ∀ hold ∈ state.held, hold.thread = thread → hold.inner = true → hold ∈ after.held) :
    place.Proper sblock after thread := by
  have runs : ∀ round, after.op.header = state.op.header → state.Runs thread round →
      after.Runs thread round := by
    intro round same runs
    unfold System.Runs
    rw [pc, same]
    exact runs
  have source : ∀ round src, after.op.header = state.op.header →
      state.HoldsSource sblock thread round src → after.HoldsSource sblock thread round src := by
    intro round src same holds
    unfold System.HoldsSource
    rw [same]
    exact held _ holds rfl rfl
  have target : ∀ round dst, after.op.header = state.op.header →
      state.HoldsTarget sblock thread round dst → after.HoldsTarget sblock thread round dst := by
    intro round dst same holds
    unfold System.HoldsTarget
    rw [same]
    exact held _ holds rfl rfl
  have use : ∀ (use : Use) blockNo, (use = .caller ∨ after.op.header = state.op.header) →
      use.Proper sblock state thread blockNo → use.Proper sblock after thread blockNo := by
    intro use blockNo same proper
    cases use with
    | caller => exact pc.trans proper
    | source round =>
        have same := same.resolve_left nofun
        constructor
        · exact runs round same proper.1
        · rw [same]
          exact proper.2
    | target round src =>
        have same := same.resolve_left nofun
        refine ⟨runs round same proper.1, ?_, source round src same proper.2.2⟩
        rw [same]
        exact proper.2.1
  cases place with
  | outside => trivial
  | locking kind blockNo addr =>
      apply use kind blockNo _ proper
      cases kind with
      | caller => exact Or.inl rfl
      | source round => exact Or.inr (header trivial)
      | target round src => exact Or.inr (header trivial)
  | asleep kind blockNo addr =>
      apply use kind blockNo _ proper
      cases kind with
      | caller => exact Or.inl rfl
      | source round => exact Or.inr (header trivial)
      | target round src => exact Or.inr (header trivial)
  | unlocking release addr =>
      cases release with
      | caller => exact pc.trans proper
      | source round dst =>
          exact ⟨runs round (header trivial) proper.1, target round dst (header trivial) proper.2⟩
      | target round => exact runs round (header trivial) proper
  | first round =>
      have same := header trivial
      refine ⟨?_, ?_⟩
      · rw [pc]
        exact proper.1
      · rw [same]
        exact proper.2
  | second round src =>
      exact ⟨runs round (header trivial) proper.1, source round src (header trivial) proper.2⟩
  | copying round src dst =>
      exact ⟨runs round (header trivial) proper.1, source round src (header trivial) proper.2.1,
        target round dst (header trivial) proper.2.2⟩
  | writing round src dst =>
      exact ⟨runs round (header trivial) proper.1, source round src (header trivial) proper.2.1,
        target round dst (header trivial) proper.2.2⟩
  | releasing round src dst =>
      exact ⟨runs round (header trivial) proper.1, source round src (header trivial) proper.2.1,
        target round dst (header trivial) proper.2.2⟩
  | releasingLast round dst =>
      exact ⟨runs round (header trivial) proper.1, target round dst (header trivial) proper.2⟩

theorem moved (engaged : Engaged sblock state) (thread : Tid)
    (reached : ∃ blockNo, Reachable opStep (OpState.initial sblock blockNo) after.op)
    (outside : ∀ blockNo, after.op.header.Lists blockNo → ¬sblock.InLog blockNo)
    (proper : (after.place thread).Proper sblock after thread)
    (places : ∀ other, other ≠ thread → after.place other = state.place other)
    (pcs : ∀ other, other ≠ thread → after.op.pc other = state.op.pc other)
    (header : ∀ other, other ≠ thread → (state.place other).Inner →
      after.op.header = state.op.header)
    (held : ∀ hold ∈ state.held, hold.thread ≠ thread → hold.inner = true → hold ∈ after.held) :
    Engaged sblock after := by
  refine ⟨reached, ?_, outside⟩
  intro other
  by_cases same : other = thread
  · rw [same]
    exact proper
  · rw [places other same]
    apply proper_of (engaged.proper other) (pcs other same) (header other same)
    intro hold member own inner
    apply held hold member _ inner
    rw [own]
    exact same

theorem walked (engaged : Engaged sblock state) (thread : Tid) (next : Place)
    (op : after.op = state.op) (place : after.place = Function.update state.place thread next)
    (proper : next.Proper sblock after thread)
    (held : ∀ hold ∈ state.held, hold.thread ≠ thread → hold.inner = true → hold ∈ after.held) :
    Engaged sblock after := by
  apply engaged.moved thread
  · rw [op]
    exact engaged.reached
  · rw [op]
    exact engaged.outside
  · rw [place, Function.update_self]
    exact proper
  · intro other different
    rw [place, Function.update_of_ne different]
  · intro other _
    rw [op]
  · intro other _ _
    rw [op]
  · exact held

theorem still (engaged : Engaged sblock state) (op : after.op = state.op)
    (place : after.place = state.place) (held : after.held = state.held) :
    Engaged sblock after := by
  refine ⟨?_, ?_, ?_⟩
  · rw [op]
    exact engaged.reached
  · intro thread
    rw [place]
    apply proper_of (engaged.proper thread)
    · rw [op]
    · intro _
      rw [op]
    · intro hold member _ _
      rw [held]
      exact member
  · rw [op]
    exact engaged.outside

/-- The two blocks of a round have different numbers: one lies in the log area. -/
theorem source_ne_target (engaged : Engaged sblock state) {round : Round}
    (runs : state.Runs thread round) :
    round.source sblock state.op.header ≠ round.target sblock state.op.header := by
  have bound : round.tail < sblock.logMx := Nat.lt_of_lt_of_le runs.2 engaged.fits
  have listed := LogHeader.lists_entry runs.2 (SuperBlock.tail_within bound).2
  have different : state.op.header.entry round.tail ≠ sblock.logBlock round.tail := by
    intro same
    apply engaged.outside _ listed
    rw [same]
    exact sblock.logBlock_inLog bound
  unfold Round.source Round.target
  split
  · exact different.symm
  · exact different

theorem granted (engaged : Engaged sblock state) {use : Use} {blockNo : BlockNo} (addr : Addr)
    (proper : use.Proper sblock state thread blockNo) :
    Engaged sblock (state.grant thread use blockNo addr) := by
  cases use with
  | caller =>
      apply engaged.walked thread .outside
      · rfl
      · rfl
      · trivial
      · intro hold member _ _
        exact List.mem_cons_of_mem _ member
  | source round =>
      obtain ⟨runs, rfl⟩ := proper
      apply engaged.walked thread (.second round addr)
      · rfl
      · rfl
      · exact ⟨runs, List.mem_cons_self⟩
      · intro hold member _ _
        exact List.mem_cons_of_mem _ member
  | target round src =>
      obtain ⟨runs, rfl, holds⟩ := proper
      apply engaged.walked thread (.copying round src addr)
      · rfl
      · rfl
      · exact ⟨runs, List.mem_cons_of_mem _ holds, List.mem_cons_self⟩
      · intro hold member _ _
        exact List.mem_cons_of_mem _ member

/-- A sync lists at most the number it is given, and finds nobody inside a commit. -/
theorem synced (engaged : Engaged sblock state) {ctx : CtxId} {blockNo : BlockNo}
    (outside : ¬sblock.InLog blockNo)
    (taken : opStep state.op (.sync thread ctx blockNo) = .ok after.op)
    (place : after.place = state.place) (held : after.held = state.held) :
    Engaged sblock after := by
  obtain ⟨_, running, synced, paid, same⟩ := OpState.sync_ok taken
  have pcs : after.op.pc = state.op.pc := by rw [same]; rfl
  have header : after.op.header = synced.header := by rw [same]; rfl
  refine ⟨?_, ?_, ?_⟩
  · obtain ⟨numbers, reached⟩ := engaged.reached
    exact ⟨numbers, reached.next taken⟩
  · intro other
    rw [place]
    apply proper_of (engaged.proper other)
    · rw [pcs]
    · intro inner
      exact absurd inner (engaged.not_inner running other)
    · intro hold member _ _
      rw [held]
      exact member
  · intro other listed
    rw [header] at listed
    obtain ⟨_, _, ⟨_, rfl⟩ | ⟨_, slot, _, rfl⟩⟩ := cacheSync_ok paid
    · exact engaged.outside other listed
    · rcases (LogHeader.lists_push slot).mp listed with older | rfl
      · exact engaged.outside other older
      · exact outside

/-- A thread outside the cache opens or closes an operation, or waits to. -/
theorem operated (engaged : Engaged sblock state) {part : OpAction} {op : OpState}
    (apart : part.Apart) (outside : state.place part.thread = .outside)
    (taken : opStep state.op part = .ok op) : Engaged sblock { state with op := op } := by
  obtain ⟨header, pcs⟩ := apart.frame taken
  apply engaged.moved part.thread
  · obtain ⟨numbers, reached⟩ := engaged.reached
    exact ⟨numbers, reached.next taken⟩
  · change ∀ blockNo, op.header.Lists blockNo → _
    rw [header]
    exact engaged.outside
  · change (state.place part.thread).Proper _ _ _
    rw [outside]
    trivial
  · intro other _
    rfl
  · exact pcs
  · intro other _ _
    exact header
  · intro hold member _ _
    exact member

/-- A thread goes on after it has posted a lock. -/
theorem unlocked (engaged : Engaged sblock state) {release : Release} {addr : Addr} (block : Block)
    (located : state.place thread = .unlocking release addr) :
    Engaged sblock ((state.setBlock addr block).goto thread release.after) := by
  have proper := engaged.proper thread
  rw [located] at proper
  apply engaged.walked thread release.after
  · rfl
  · rfl
  · cases release with
    | caller => trivial
    | source round dst => exact proper
    | target round => exact ⟨proper.1, proper.2⟩
  · intro hold member _ _
    exact member

theorem dropped (engaged : Engaged sblock state) {hold : Hold} {release : Release}
    (op : after.op = state.op)
    (place : after.place = Function.update state.place hold.thread (.unlocking release hold.addr))
    (held : after.held = state.held.erase hold)
    (proper : release.Proper sblock after hold.thread) : Engaged sblock after := by
  apply engaged.walked hold.thread _ op place proper
  intro other present different _
  rw [held]
  refine (List.mem_erase_of_ne ?_).mpr present
  intro same
  exact different (congrArg Hold.thread same)

/-- A commit ends: the header is empty, and nobody else was inside it. -/
theorem finished (engaged : Engaged sblock state)
    (taken : opStep state.op (.commitReturn thread) = .ok after.op)
    (place : after.place = Function.update state.place thread .outside)
    (held : after.held = state.held) : Engaged sblock after := by
  obtain ⟨ctx, commits, same⟩ := OpState.commitReturn_ok taken
  have pcs : ∀ other, other ≠ thread → after.op.pc other = state.op.pc other := by
    intro other different
    rw [same]
    exact Function.update_of_ne different _ _
  apply engaged.moved thread
  · obtain ⟨numbers, reached⟩ := engaged.reached
    exact ⟨numbers, reached.next taken⟩
  · rw [same]
    rintro blockNo ⟨index, within, _⟩
    cases within
  · rw [place, Function.update_self]
    trivial
  · intro other different
    rw [place, Function.update_of_ne different]
  · exact pcs
  · intro other different inner
    obtain ⟨ctx', commits'⟩ := engaged.commits_of_inner inner
    refine absurd (engaged.grouping.single other thread ?_ ?_) different
    · rw [commits']
      trivial
    · rw [commits]
      trivial
  · intro hold member _ _
    rw [held]
    exact member

/-- Where a thread enters the section of `cache_acquire`, it is in order and no lock is
waited for. -/
theorem enters (engaged : Engaged sblock state) {use : Use} {blockNo : BlockNo}
    (enters : state.Enters sblock thread use blockNo) :
    use.Proper sblock state thread blockNo ∧ (state.place thread).Clear := by
  have proper := engaged.proper thread
  cases enters with
  | caller blockNo idle =>
      rw [idle.2]
      exact ⟨idle.1, trivial⟩
  | source round located within =>
      rw [located] at proper ⊢
      exact ⟨⟨⟨proper.1, within⟩, rfl⟩, trivial⟩
  | target round src located =>
      rw [located] at proper ⊢
      exact ⟨⟨proper.1, rfl, proper.2⟩, trivial⟩

/-- The block that a commit passes to `cache_release` is held, and what the rest of the
round needs goes on being held. -/
theorem drops (engaged : Engaged sblock state) {owner : Addr → Option Token}
    (locks : Locks state owner) {release : Release} {addr : Addr}
    (located : (∃ round dst, state.place thread = .releasing round addr dst ∧
        release = .source round dst) ∨
      (∃ round, state.place thread = .releasingLast round addr ∧ release = .target round)) :
    ∃ hold ∈ state.held, hold.thread = thread ∧ hold.addr = addr ∧ hold.inner = true ∧
      (state.place thread).Clear ∧ ∀ after : System, after.op = state.op →
        after.held = state.held.erase hold → release.Proper sblock after thread := by
  have proper := engaged.proper thread
  rcases located with ⟨round, dst, located, rfl⟩ | ⟨round, located, rfl⟩
  · rw [located] at proper ⊢
    obtain ⟨runs, source, target⟩ := proper
    refine ⟨_, source, rfl, rfl, rfl, trivial, ?_⟩
    intro after op held
    refine ⟨?_, ?_⟩
    · unfold System.Runs
      rw [op]
      exact runs
    · unfold System.HoldsTarget
      rw [op, held]
      refine locks.unrepeated.mem_erase_iff.mpr ⟨?_, target⟩
      intro same
      exact engaged.source_ne_target runs (congrArg Hold.blockNo same).symm
  · rw [located] at proper ⊢
    obtain ⟨runs, target⟩ := proper
    refine ⟨_, target, rfl, rfl, rfl, trivial, ?_⟩
    intro after op held
    change after.Runs thread round
    unfold System.Runs
    rw [op]
    exact runs

end Engaged

/-! ### Steps -/

/-- What callers have to keep to: a block is stored to under a running operation and synced
under that operation before it is released, and neither stores nor syncs go to the log. -/
def Action.Permitted (sblock : SuperBlock) (state : System) : Action → Prop
  | .store hold ctx _ => state.op.phase ctx = .running ∧ ¬sblock.InLog hold.blockNo
  | .sync hold _ | .flush hold => ¬sblock.InLog hold.blockNo
  | .release hold => state.dirty hold.addr = none
  | _ => True

/-- A permitted step whose miss spares every block that some call works on. -/
def Disciplined (sblock : SuperBlock) (state : System) (action : Action) : Prop :=
  action.Permitted sblock state ∧ SparesTouched sblock state action

/-- Threads and locks are as the code expects them. -/
structure Orderly (sblock : SuperBlock) (state : System) : Prop where
  engaged : Engaged sblock state
  locks : ∃ owner, Locks state owner

theorem eraseP_eq_erase {Item : Type} [DecidableEq Item] {items : List Item} {p : Item → Bool}
    {item : Item} (only : ∀ other ∈ items, p other = true ↔ other = item) :
    items.eraseP p = items.erase item := by
  induction items with
  | nil => rfl
  | cons first rest ih =>
      rw [List.eraseP_cons, List.erase_cons]
      have here := only first List.mem_cons_self
      by_cases same : first = item
      · rw [here.mpr same, same, beq_self_eq_true]
        rfl
      · rw [Bool.eq_false_iff.mpr (fun holds => same (here.mp holds)), beq_false_of_ne same]
        exact congrArg (first :: ·) (ih (fun other member => only other
          (List.mem_cons_of_mem first member)))

/-- A commit passes on the one hold it has on the block. -/
theorem Locks.heldWithout_eq {state : System} {owner : Addr → Option Token}
    (locks : Locks state owner) {hold : Hold} (member : hold ∈ state.held)
    (inner : hold.inner = true) :
    state.heldWithout hold.thread hold.addr = state.held.erase hold := by
  apply eraseP_eq_erase
  intro other present
  rw [decide_eq_true_iff]
  constructor
  · intro same
    exact locks.hold_unique present member same.2.1
  · intro same
    subst same
    exact ⟨rfl, rfl, inner⟩

/-- A thread that finds the lock of its block taken goes to sleep on it. -/
theorem Locks.lies_down {state : System} {owner : Addr → Option Token} (locks : Locks state owner)
    {thread : Tid} {use : Use} {blockNo : BlockNo} {addr : Addr}
    (resident : Resident ((state.setBlock addr { state.block addr with
      lock := (waitSem thread (state.block addr).lock).2 }).goto thread (.asleep use blockNo addr)))
    (located : state.place thread = .locking use blockNo addr)
    (taken : (waitSem thread (state.block addr).lock).1 = false) :
    Locks ((state.setBlock addr { state.block addr with
      lock := (waitSem thread (state.block addr).lock).2 }).goto thread (.asleep use blockNo addr))
      owner := by
  have member : addr ∈ state.cache.order := by
    refine (locks.resident.cached blockNo addr (Or.inr ⟨thread, ?_⟩)).1
    rw [located]
    rfl
  obtain ⟨token, owned⟩ := locks.owned member taken
  refine locks.slept resident owned located rfl ?_ ?_ rfl rfl
  · intro other different
    exact congrArg Block.lock (Function.update_of_ne different _ _)
  · apply (congrArg Block.lock (Function.update_self _ _ _)).trans
    change (waitSem thread (state.block addr).lock).2 = _
    unfold waitSem at taken ⊢
    split at taken
    · cases taken
    · rename_i busy
      rw [if_neg busy]

namespace Orderly

variable {sblock : SuperBlock} {state after : System}

theorem number (orderly : Orderly sblock state) {hold : Hold} (member : hold ∈ state.held) :
    (state.block hold.addr).blockNo = hold.blockNo := by
  obtain ⟨owner, locks⟩ := orderly.locks
  exact (locks.resident.cached _ _ (Or.inl ⟨hold, member, rfl, rfl⟩)).2

/-- The lock and the places after a step that moves one thread past no lock. -/
theorem walked (orderly : Orderly sblock state) (thread : Tid) (next : Place)
    (resident : Resident after) (order : after.cache.order = state.cache.order)
    (same : ∀ addr, (after.block addr).lock = (state.block addr).lock)
    (held : after.held = state.held) (op : after.op = state.op)
    (place : after.place = Function.update state.place thread next)
    (before : (state.place thread).Clear) (clear : next.Clear)
    (proper : next.Proper sblock after thread) : Orderly sblock after := by
  obtain ⟨owner, locks⟩ := orderly.locks
  constructor
  · apply orderly.engaged.walked thread next op place proper
    intro hold member _ _
    rw [held]
    exact member
  · exact ⟨owner, locks.frame resident order same held (.of_move place before clear)⟩

theorem step (orderly : Orderly sblock state) {action : Action}
    (disciplined : Disciplined sblock state action)
    (outcome : System.Outcome sblock state action after) : Orderly sblock after := by
  obtain ⟨owner, locks⟩ := orderly.locks
  have engaged := orderly.engaged
  have resident := locks.resident.step disciplined.2.used outcome
  cases outcome with
  | operated part op apart outside taken =>
      constructor
      · exact engaged.operated apart outside taken
      · exact ⟨owner, locks.frame resident rfl (fun _ => rfl) rfl (.of_eq rfl)⟩
  | sought thread use blockNo chunk asked enters fresh =>
      obtain ⟨proper, clear⟩ := engaged.enters enters
      constructor
      · apply engaged.walked thread (.locking use blockNo _)
        · rfl
        · rfl
        · exact proper
        · intro hold member _ _
          exact member
      · exact locks.sought fresh clear (disciplined.2 blockNo asked) resident
  | locked thread use blockNo addr located free =>
      constructor
      · apply Engaged.granted
        · exact engaged.still rfl rfl rfl
        · have proper := engaged.proper thread
          rw [located] at proper
          exact proper
      · exact locks.locked located free rfl resident
  | slept thread use blockNo addr located taken =>
      constructor
      · have proper := engaged.proper thread
        rw [located] at proper
        apply engaged.walked thread (.asleep use blockNo addr)
        · rfl
        · rfl
        · exact proper
        · intro hold member _ _
          exact member
      · exact ⟨owner, locks.lies_down resident located taken⟩
  | woken thread use blockNo addr located posted =>
      constructor
      · apply engaged.granted
        have proper := engaged.proper thread
        rw [located] at proper
        exact proper
      · exact locks.woken located posted resident
  | stored hold ctx data idle member outer =>
      constructor
      · exact engaged.still rfl rfl rfl
      · exact ⟨owner, locks.frame resident rfl (System.setBlock_keeps Block.lock rfl) rfl
          (.of_eq rfl)⟩
  | synced hold ctx op idle member outer taken =>
      have outside : ¬sblock.InLog (state.block hold.addr).blockNo := by
        rw [orderly.number member]
        exact disciplined.1
      constructor
      · apply engaged.synced outside
        · exact taken
        · rfl
        · rfl
      · exact ⟨owner, locks.frame resident rfl (System.setBlock_keeps Block.lock rfl) rfl
          (.of_eq rfl)⟩
  | flushed hold member outer =>
      constructor
      · exact engaged.still rfl rfl rfl
      · exact ⟨owner, locks.frame resident rfl (fun _ => rfl) rfl (.of_eq rfl)⟩
  | released hold idle member outer =>
      constructor
      · exact engaged.dropped rfl rfl rfl idle.1
      · refine ⟨_, locks.dropped resident member ?_ rfl ?_ rfl rfl⟩
        · rw [idle.2]
          trivial
        · exact System.setBlock_keeps Block.lock rfl
  | unlocked thread release addr woken lock located posted =>
      constructor
      · exact engaged.unlocked _ located
      · refine locks.unlocked resident located posted rfl ?_ ?_ rfl rfl ?_
        · intro other different
          exact congrArg Block.lock (Function.update_of_ne different _ _)
        · change ((state.setBlock addr _).block addr).lock = lock
          rw [System.setBlock_block, if_pos rfl]
        · cases release <;> trivial
  | started thread ctx chunk outside commits listed =>
      apply orderly.walked thread (.first ⟨false, 0⟩) resident
      · rfl
      · exact fun _ => rfl
      · rfl
      · rfl
      · rfl
      · rw [outside]
        trivial
      · trivial
      · exact ⟨⟨ctx, commits⟩, Nat.zero_le _⟩
  | logged thread round chunk located logging complete =>
      have proper := engaged.proper thread
      rw [located] at proper
      apply orderly.walked thread (.first ⟨true, 0⟩) resident
      · rfl
      · exact fun _ => rfl
      · rfl
      · rfl
      · rfl
      · rw [located]
        trivial
      · trivial
      · exact ⟨proper.1, Nat.zero_le _⟩
  | copied thread round src dst chunk located =>
      have proper := engaged.proper thread
      rw [located] at proper
      apply orderly.walked thread (.writing round src dst) resident
      · rfl
      · exact System.setBlock_keeps Block.lock rfl
      · rfl
      · rfl
      · rfl
      · rw [located]
        trivial
      · trivial
      · exact proper
  | written thread round src dst chunk located =>
      have proper := engaged.proper thread
      rw [located] at proper
      apply orderly.walked thread (.releasing round src dst) resident
      · rfl
      · exact fun _ => rfl
      · rfl
      · rfl
      · rfl
      · rw [located]
        trivial
      · trivial
      · exact proper
  | dropped thread release addr chunk located =>
      obtain ⟨hold, member, rfl, rfl, inner, before, proper⟩ := engaged.drops locks located
      have held := locks.heldWithout_eq member inner
      constructor
      · exact engaged.dropped rfl rfl held (proper _ rfl held)
      · exact ⟨_, locks.dropped resident member before rfl (System.setBlock_keeps Block.lock rfl)
          held rfl⟩
  | finished thread op chunk written located taken =>
      have before : (state.place thread).Clear := by
        rcases located with ⟨outside, _⟩ | ⟨round, located, _⟩
        · rw [outside]
          trivial
        · rw [located]
          trivial
      cases written with
      | true =>
          constructor
          · exact engaged.finished taken rfl rfl
          · exact ⟨owner, locks.frame resident rfl (fun _ => rfl) rfl (.of_move rfl before trivial)⟩
      | false =>
          constructor
          · exact engaged.finished taken rfl rfl
          · exact ⟨owner, locks.frame resident rfl (fun _ => rfl) rfl (.of_move rfl before trivial)⟩

end Orderly

end LabKernel.Fs
