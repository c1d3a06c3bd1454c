/-
Blocks in use stay in the cache.

A miss evicts blocks whose acquired flag is clear. The flag is set by a miss only, and any
release clears it, so a block that was found in the cache is held with a clear flag, and
stays only as long as every miss spares it. Where every miss does, whoever holds a block
finds it again.
-/

import LabKernel.Fs.Pins
import LabKernel.Fs.System

set_option autoImplicit false

namespace LabKernel.Fs

open Common Transition

def Place.found : Place → Option (BlockNo × Addr)
  | .locking _ blockNo addr | .asleep _ blockNo addr => some (blockNo, addr)
  | _ => none

/-- Neither asleep nor on the way out of a release. -/
def Place.Clear : Place → Prop
  | .asleep .. | .unlocking .. => False
  | _ => True

/-- The block is held, or found by an acquire that has not returned. -/
def System.Uses (state : System) (blockNo : BlockNo) (addr : Addr) : Prop :=
  (∃ hold ∈ state.held, hold.blockNo = blockNo ∧ hold.addr = addr) ∨
    ∃ thread, (state.place thread).found = some (blockNo, addr)

/-- A step that misses finds every block in use protected: by a flag, or by evictable blocks
that were acquired less recently. -/
def SparesUsed (sblock : SuperBlock) (state : System) (action : Action) : Prop :=
  ∀ sought, state.sought sblock action = some sought → state.cache.find sought = none →
    ∀ blockNo addr, state.Uses blockNo addr → state.cache.Spares addr

/-- Blocks in use are in the list, under their number. -/
structure Resident (state : System) : Prop where
  wellFormed : state.cache.WellFormed
  cached : ∀ blockNo addr, state.Uses blockNo addr →
    addr ∈ state.cache.order ∧ (state.block addr).blockNo = blockNo

namespace System

variable {state after : System} {thread : Tid}

theorem setBlock_block (state : System) (addr other : Addr) (block : Block) :
    (state.setBlock addr block).block other = if other = addr then block else state.block other :=
  Function.update_apply _ _ _ _

theorem setBlock_keeps {Field : Type} (field : Block → Field) {addr : Addr} {block : Block}
    (kept : field block = field (state.block addr)) (other : Addr) :
    field ((state.setBlock addr block).block other) = field (state.block other) := by
  rw [setBlock_block]
  split
  · rename_i same
    rw [same, kept]
  · rfl

theorem grant_frame (state : System) (thread : Tid) (use : Use) (blockNo : BlockNo)
    (addr : Addr) : ∃ inner next,
      (state.grant thread use blockNo addr).held = ⟨thread, blockNo, addr, inner⟩ :: state.held ∧
      (state.grant thread use blockNo addr).place = Function.update state.place thread next ∧
      next.found = none ∧ next.Clear ∧
      (state.grant thread use blockNo addr).cache = state.cache := by
  cases use with
  | caller => exact ⟨false, .outside, rfl, rfl, rfl, trivial, rfl⟩
  | source round => exact ⟨true, .second round addr, rfl, rfl, rfl, trivial, rfl⟩
  | target round src => exact ⟨true, .copying round src addr, rfl, rfl, rfl, trivial, rfl⟩

theorem found_update {place : Tid → Place} {next : Place} {other : Tid} {found : BlockNo × Addr}
    (unfound : next.found = none)
    (after : (Function.update place thread next other).found = some found) :
    (place other).found = some found := by
  by_cases same : other = thread
  · rw [same, Function.update_self, unfound] at after
    cases after
  · rw [Function.update_of_ne same] at after
    exact after

end System

namespace Resident

variable {sblock : SuperBlock} {state after : System}

/-- A step that brings no block into the list and puts no new one to use. -/
theorem frame (resident : Resident state) (order : after.cache.order = state.cache.order)
    (numbers : ∀ addr, (after.block addr).blockNo = (state.block addr).blockNo)
    (uses : ∀ blockNo addr, after.Uses blockNo addr → state.Uses blockNo addr) :
    Resident after := by
  constructor
  · constructor
    · rw [order]
      exact resident.wellFormed.nodup
    · rw [order]
      intro left leftMember right rightMember same
      apply resident.wellFormed.unique left leftMember right rightMember
      rw [← System.block, ← System.block, ← numbers, ← numbers]
      exact same
  · intro blockNo addr used
    rw [order, numbers]
    exact resident.cached blockNo addr (uses blockNo addr used)

/-- A thread moves without finding a block; it may put one on the list of held blocks that
was in use already. -/
theorem uses_of {thread : Tid} (next : Place) (unfound : next.found = none)
    (place : after.place = Function.update state.place thread next)
    (held : ∀ hold ∈ after.held, state.Uses hold.blockNo hold.addr) :
    ∀ blockNo addr, after.Uses blockNo addr → state.Uses blockNo addr := by
  rintro blockNo addr (⟨hold, member, rfl, rfl⟩ | ⟨other, found⟩)
  · exact held hold member
  · rw [place] at found
    exact Or.inr ⟨other, System.found_update unfound found⟩

theorem granted (resident : Resident state) {thread : Tid} {use : Use} {blockNo : BlockNo}
    {addr : Addr} (found : (state.place thread).found = some (blockNo, addr)) :
    Resident (state.grant thread use blockNo addr) := by
  obtain ⟨inner, next, held, place, unfound, _, cache⟩ :=
    state.grant_frame thread use blockNo addr
  apply resident.frame
  · rw [cache]
  · intro other
    unfold System.block
    rw [cache]
  · apply uses_of next unfound place
    intro hold member
    rw [held] at member
    rcases List.mem_cons.mp member with rfl | older
    · exact Or.inr ⟨thread, found⟩
    · exact Or.inl ⟨hold, older, rfl, rfl⟩

theorem moved (resident : Resident state) {thread : Tid} (next : Place)
    (unfound : next.found = none) (order : after.cache.order = state.cache.order)
    (numbers : ∀ addr, (after.block addr).blockNo = (state.block addr).blockNo)
    (place : after.place = Function.update state.place thread next)
    (held : after.held.Subset state.held) : Resident after := by
  apply resident.frame order numbers
  apply uses_of next unfound place
  intro hold member
  exact Or.inl ⟨hold, held member, rfl, rfl⟩

theorem sought (resident : Resident state) {thread : Tid} {use : Use} {blockNo : BlockNo}
    {chunk : Addr} (fresh : chunk ∉ state.cache.evict)
    (spares : state.cache.find blockNo = none →
      ∀ used addr, state.Uses used addr → state.cache.Spares addr) :
    Resident ({ state with
      cache := (state.cache.acquireSection chunk blockNo state.disk).2 }.goto thread
        (.locking use blockNo (state.cache.acquireSection chunk blockNo state.disk).1)) := by
  have fetched := resident.wellFormed.fetched blockNo state.disk fresh
  constructor
  · exact fetched.wellFormed
  · intro used addr uses
    have older : state.Uses used addr →
        addr ∈ (state.cache.acquireSection chunk blockNo state.disk).2.order ∧
          ((state.cache.acquireSection chunk blockNo state.disk).2.heap addr).blockNo = used := by
      intro before
      obtain ⟨member, number⟩ := resident.cached used addr before
      obtain ⟨stays, same⟩ := resident.wellFormed.section_keeps state.disk fresh member
        (fun missing => spares missing used addr before)
      rw [same]
      exact ⟨stays, number⟩
    rcases uses with ⟨hold, member, rfl, rfl⟩ | ⟨other, found⟩
    · exact older (Or.inl ⟨hold, member, rfl, rfl⟩)
    · by_cases same : other = thread
      · simp only [System.goto, same, Function.update_self, Place.found, Option.some.injEq,
          Prod.mk.injEq] at found
        rw [← found.1, ← found.2]
        exact ⟨fetched.member, fetched.number⟩
      · simp only [System.goto, Function.update_of_ne same] at found
        exact older (Or.inr ⟨other, found⟩)

theorem step (resident : Resident state) {action : Action}
    (spares : SparesUsed sblock state action) (outcome : System.Outcome sblock state action after) :
    Resident after := by
  cases outcome with
  | operated part op apart outside taken =>
      exact resident.frame rfl (fun _ => rfl) (fun _ _ used => used)
  | sought thread use blockNo chunk asked enters fresh =>
      exact resident.sought fresh (fun missing => spares blockNo asked missing)
  | locked thread use blockNo addr located free =>
      apply granted
      · apply resident.frame
        · rfl
        · exact System.setBlock_keeps Block.blockNo rfl
        · exact fun _ _ used => used
      · change (state.place thread).found = _
        rw [located]
        rfl
  | slept thread use blockNo addr located taken =>
      apply resident.frame
      · rfl
      · exact System.setBlock_keeps Block.blockNo rfl
      · rintro used node (held | ⟨other, found⟩)
        · exact Or.inl held
        · refine Or.inr ⟨other, ?_⟩
          by_cases same : other = thread
          · simp only [System.goto, same, Function.update_self] at found
            rw [same, located]
            exact found
          · simp only [System.goto, Function.update_of_ne same] at found
            exact found
  | woken thread use blockNo addr located posted =>
      apply resident.granted
      rw [located]
      rfl
  | stored hold ctx data idle member outer =>
      apply resident.frame
      · rfl
      · exact System.setBlock_keeps Block.blockNo rfl
      · exact fun _ _ used => used
  | synced hold ctx op idle member outer taken =>
      apply resident.frame
      · rfl
      · exact System.setBlock_keeps Block.blockNo rfl
      · exact fun _ _ used => used
  | flushed hold member outer => exact resident.frame rfl (fun _ => rfl) (fun _ _ used => used)
  | released hold idle member outer =>
      apply resident.moved (.unlocking .caller hold.addr)
      · rfl
      · rfl
      · exact System.setBlock_keeps Block.blockNo rfl
      · rfl
      · exact List.erase_subset
  | unlocked thread release addr woken lock located posted =>
      apply resident.moved release.after
      · cases release <;> rfl
      · rfl
      · exact System.setBlock_keeps Block.blockNo rfl
      · rfl
      · exact List.Subset.refl _
  | started thread ctx chunk outside commits listed =>
      exact resident.moved (.first _) rfl rfl (fun _ => rfl) rfl (List.Subset.refl _)
  | logged thread round chunk located logging complete =>
      exact resident.moved (.first _) rfl rfl (fun _ => rfl) rfl (List.Subset.refl _)
  | copied thread round src dst chunk located =>
      apply resident.moved (.writing round src dst)
      · rfl
      · rfl
      · exact System.setBlock_keeps Block.blockNo rfl
      · rfl
      · exact List.Subset.refl _
  | written thread round src dst chunk located =>
      exact resident.moved (.releasing round src dst) rfl rfl (fun _ => rfl) rfl
        (List.Subset.refl _)
  | dropped thread release addr chunk located =>
      apply resident.moved (.unlocking release addr)
      · rfl
      · rfl
      · exact System.setBlock_keeps Block.blockNo rfl
      · rfl
      · exact List.eraseP_subset
  | finished thread op chunk written located taken =>
      cases written with
      | true => exact resident.moved .outside rfl rfl (fun _ => rfl) rfl (List.Subset.refl _)
      | false => exact resident.moved .outside rfl rfl (fun _ => rfl) rfl (List.Subset.refl _)

theorem initial {cache : BlockCache} (wellFormed : cache.WellFormed) (header : LogHeader)
    (disk : Disk) : Resident (System.initial sblock header cache disk) := by
  constructor
  · exact wellFormed
  · rintro blockNo addr (⟨hold, member, _⟩ | ⟨thread, found⟩)
    · cases member
    · cases found

end Resident

/-- In every run whose misses spare the blocks in use, a block that is held is found under
its number. -/
theorem held_blocks_stay_cached (sblock : SuperBlock) (heap : Addr → Block) (disk : Disk)
    (volume : Volume) (recovered : recoverFromLog sblock (boot heap disk) = .ok volume)
    (actions : List Action) (state : System)
    (run : Run (systemStep sblock) (SparesUsed sblock)
      (System.initial sblock volume.header volume.cache volume.disk) actions state) :
    ∀ hold ∈ state.held, state.cache.find hold.blockNo = some hold.addr := by
  have resident : Resident state := by
    apply run.invariant (Resident.initial (Volume.Marked.recovered recovered).1.wellFormed _ _)
    intro state action after resident spares taken
    exact resident.step spares (System.step_outcome taken)
  intro hold member
  obtain ⟨cached, number⟩ := resident.cached _ _ (Or.inl ⟨hold, member, rfl, rfl⟩)
  rw [← number]
  exact resident.wellFormed.find_eq cached

/-- The threads of an empty volume after `init_bcache`. -/
def emptySystem : System :=
  System.initial mkfsSuperBlock emptyBcache.volume.header emptyBcache.volume.cache
    emptyBcache.volume.disk

/-- A thread acquires a block that is not held, and releases it. -/
def visit (thread : Tid) (blockNo : BlockNo) (addr : Addr) : List Action :=
  [.acquire thread blockNo addr, .lock thread, .release ⟨thread, blockNo, addr, false⟩,
    .unlock thread]

def Action.visitor : Action → Option Tid
  | .acquire thread _ _ | .lock thread | .unlock thread => some thread
  | .release hold => some hold.thread
  | _ => none

theorem System.visit_place {sblock : SuperBlock} {state after : System} {action : Action}
    {thread : Tid} (visits : action.visitor = some thread)
    (taken : systemStep sblock state action = .ok after) :
    ∃ place, after.place = Function.update state.place thread place := by
  cases action with
  | acquire visitor blockNo chunk =>
      cases visits
      simp only [systemStep, System.acquire, System.seek] at taken
      split at taken
      · split at taken
        · cases taken
        · cases taken
          exact ⟨_, rfl⟩
      · cases taken
  | lock visitor =>
      cases visits
      simp only [systemStep, System.lock] at taken
      split at taken
      · rename_i use blockNo addr located
        split at taken
        · cases taken
          cases use <;> exact ⟨_, rfl⟩
        · cases taken
          exact ⟨_, rfl⟩
      · cases taken
  | release hold =>
      cases visits
      simp only [systemStep, System.release] at taken
      split at taken
      · cases taken
        exact ⟨_, rfl⟩
      · cases taken
  | unlock visitor =>
      cases visits
      simp only [systemStep, System.unlock] at taken
      split at taken
      · split at taken
        · cases taken
        · cases taken
          exact ⟨_, rfl⟩
      · cases taken
  | _ => cases visits

/-- A miss of one of two threads that work on nothing spares what is held. -/
def System.sparingVisit (state : System) (action : Action) : Bool :=
  match action with
  | .acquire thread blockNo _ =>
      decide (thread < 2 ∧ (state.cache.find blockNo = none →
        state.place 0 = .outside ∧ state.place 1 = .outside ∧
          ∀ hold ∈ state.held, state.cache.Spares hold.addr))
  | _ => action.visitor.any (fun thread => decide (thread < 2))

theorem sparingVisit_sound {sblock : SuperBlock} {actions : List Action} {state : System}
    (run : Run (systemStep sblock) (fun state action => state.sparingVisit action = true)
      emptySystem actions state) :
    Run (systemStep sblock) (SparesUsed sblock) emptySystem actions state := by
  have two : ∀ {state : System} {action : Action}, state.sparingVisit action = true →
      ∃ thread, action.visitor = some thread ∧ thread < 2 := by
    intro state action allowed
    cases action with
    | acquire thread blockNo chunk => exact ⟨thread, rfl, (of_decide_eq_true allowed).1⟩
    | lock thread => exact ⟨thread, rfl, of_decide_eq_true allowed⟩
    | release hold => exact ⟨hold.thread, rfl, of_decide_eq_true allowed⟩
    | unlock thread => exact ⟨thread, rfl, of_decide_eq_true allowed⟩
    | _ => cases allowed
  refine (run.strengthen (P := fun state => ∀ thread, 2 ≤ thread → state.place thread = .outside)
    (fun _ _ => rfl) ?_ ?_).1
  · intro state action after others allowed taken thread beyond
    obtain ⟨visitor, visits, small⟩ := two allowed
    obtain ⟨place, moved⟩ := System.visit_place visits taken
    have different : thread ≠ visitor := Nat.ne_of_gt (Nat.lt_of_lt_of_le small beyond)
    rw [moved, Function.update_of_ne different]
    exact others thread beyond
  · intro state action others allowed sought asked missing blockNo addr uses
    cases action with
    | acquire thread number chunk =>
        cases asked
        obtain ⟨-, sparing⟩ := of_decide_eq_true allowed
        obtain ⟨first, second, held⟩ := sparing missing
        rcases uses with ⟨hold, member, -, rfl⟩ | ⟨other, found⟩
        · exact held hold member
        · have outside : state.place other = .outside := by
            rcases other with _ | _ | other
            · exact first
            · exact second
            · exact others _ (Nat.le_add_left 2 other)
          rw [outside] at found
          cases found
    | lock thread => cases asked
    | release hold => cases asked
    | unlock thread => cases asked
    | _ => cases allowed

/-- Thread 0 finds block 100 and holds it while thread 1 goes on, until the list is full and a miss
takes out block 101. -/
def missWhileHeld : List Action :=
  visit 0 100 1 ++
    (List.range 5).flatMap (fun k => visit 1 (UInt64.ofNat (101 + k)) (2 + k)) ++
    [.acquire 0 100 50, .lock 0] ++
    (List.range' 5 14).flatMap (fun k => visit 1 (UInt64.ofNat (101 + k)) (2 + k)) ++
    [.acquire 1 120 2, .lock 1]

theorem held_blocks_stay_cached_evicting : ∃ state : System,
    Run (systemStep mkfsSuperBlock) (SparesUsed mkfsSuperBlock) emptySystem missWhileHeld state ∧
      state.held = [⟨1, 120, 2, false⟩, ⟨0, 100, 1, false⟩] ∧ state.cache.find 101 = none ∧
      state.cache.find 100 = some 1 ∧ state.cache.find 120 = some 2 := by
  have passed : checkRun (systemStep mkfsSuperBlock) System.sparingVisit
      (fun state => decide (state.held = [⟨1, 120, 2, false⟩, ⟨0, 100, 1, false⟩] ∧
        state.cache.find 101 = none)) emptySystem missWhileHeld = true := by
    decide +kernel
  obtain ⟨state, run, checked⟩ := Run.of_checkRun (fun _ _ allowed => allowed) passed
  obtain ⟨held, evicted⟩ := of_decide_eq_true checked
  have spared := sparingVisit_sound run
  have stay := held_blocks_stay_cached mkfsSuperBlock (fun _ => initBlock) (fun _ _ => 0)
    emptyBcache.volume rfl _ state spared
  rw [held] at stay
  exact ⟨state, spared, held, evicted, stay _ (List.mem_cons_of_mem _ List.mem_cons_self),
    stay _ List.mem_cons_self⟩

/-- A thread holds a block that it found in the cache while another visits nineteen blocks;
its next miss evicts the block. -/
theorem held_block_is_evicted : ∃ state : System,
    Reachable (systemStep mkfsSuperBlock) emptySystem state ∧
      ⟨0, 100, 1, false⟩ ∈ state.held ∧ state.cache.find 100 = none := by
  have passed : checkRun (systemStep mkfsSuperBlock) (fun _ _ => true)
      (fun state => decide (⟨0, 100, 1, false⟩ ∈ state.held ∧ state.cache.find 100 = none))
      emptySystem
      (visit 0 100 1 ++ [.acquire 0 100 2, .lock 0] ++
        (List.range 19).flatMap (fun k => visit 1 (UInt64.ofNat (101 + k)) (2 + k)) ++
        [.acquire 1 120 30]) = true := by
    decide +kernel
  obtain ⟨state, reached, checked⟩ := Reachable.of_checkRun passed
  exact ⟨state, reached, of_decide_eq_true checked⟩

end LabKernel.Fs
