/-
Sleep locks.

A post hands the lock of a block to the thread that has slept longest, so every lock is free
or has one owner: a block that is held, a thread on its way out of `cache_release`, or a
sleeper that a post has picked and that has not run since.
-/

import LabKernel.Fs.Residence

set_option autoImplicit false

namespace LabKernel.Fs

open Common Transition

/-- The block is in use, or a release of it has begun and not returned. -/
def System.Touches (state : System) (addr : Addr) : Prop :=
  (∃ blockNo, state.Uses blockNo addr) ∨
    ∃ thread release, state.place thread = .unlocking release addr

/-- A step that misses finds every block that some call works on protected. -/
def SparesTouched (sblock : SuperBlock) (state : System) (action : Action) : Prop :=
  ∀ sought, state.sought sblock action = some sought → state.cache.find sought = none →
    ∀ addr, state.Touches addr → state.cache.Spares addr

theorem SparesTouched.used {sblock : SuperBlock} {state : System} {action : Action}
    (spares : SparesTouched sblock state action) : SparesUsed sblock state action := by
  intro sought asked missing blockNo addr uses
  exact spares sought asked missing addr (Or.inl ⟨blockNo, uses⟩)

inductive Token where
  | held (hold : Hold)
  | leaving (thread : Tid)
  | granted (thread : Tid)

structure Locks (state : System) (owner : Addr → Option Token) : Prop where
  resident : Resident state
  left : ∀ thread release addr, state.place thread = .unlocking release addr →
    addr ∈ state.cache.order
  free : ∀ addr ∈ state.cache.order, owner addr = none → (state.block addr).lock = freeLock
  taken : ∀ addr ∈ state.cache.order, ∀ token, owner addr = some token →
    (state.block addr).lock.val = -((state.block addr).lock.sleeplist.length : Int)
  sleeps : ∀ addr ∈ state.cache.order, ∀ thread ∈ (state.block addr).lock.sleeplist,
    ∃ use blockNo, state.place thread = .asleep use blockNo addr
  held : ∀ hold ∈ state.held, owner hold.addr = some (.held hold)
  leaving : ∀ thread release addr, state.place thread = .unlocking release addr →
    owner addr = some (.leaving thread)
  granted : ∀ thread use blockNo addr, state.place thread = .asleep use blockNo addr →
    thread ∈ (state.block addr).lock.sleeplist ∨ owner addr = some (.granted thread)
  unrepeated : state.held.Nodup

namespace Locks

variable {sblock : SuperBlock} {state after : System} {owner : Addr → Option Token} {addr : Addr}
  {thread : Tid}

theorem hold_unique (locks : Locks state owner) {left right : Hold} (leftHeld : left ∈ state.held)
    (rightHeld : right ∈ state.held) (same : left.addr = right.addr) : left = right := by
  have leftOwner := locks.held left leftHeld
  have rightOwner := locks.held right rightHeld
  rw [same, rightOwner] at leftOwner
  cases leftOwner
  rfl

theorem unheld (locks : Locks state owner) {token : Option Token} (owned : owner addr = token)
    (other : ∀ hold, token ≠ some (.held hold)) : ∀ hold ∈ state.held, hold.addr ≠ addr := by
  intro hold member same
  have owns := locks.held hold member
  rw [same, owned] at owns
  exact other hold owns

theorem unowned (locks : Locks state owner) (member : addr ∈ state.cache.order)
    (available : (waitSem thread (state.block addr).lock).1 = true) : owner addr = none := by
  cases owned : owner addr with
  | none => rfl
  | some token =>
      have value := locks.taken addr member token owned
      unfold waitSem at available
      split at available
      · rename_i positive
        omega
      · cases available

theorem owned (locks : Locks state owner) (member : addr ∈ state.cache.order)
    (busy : (waitSem thread (state.block addr).lock).1 = false) :
    ∃ token, owner addr = some token := by
  cases owned : owner addr with
  | none =>
      rw [locks.free addr member owned] at busy
      cases busy
  | some token => exact ⟨token, rfl⟩

theorem touched_cached (locks : Locks state owner) (touched : state.Touches addr) :
    addr ∈ state.cache.order := by
  rcases touched with ⟨blockNo, uses⟩ | ⟨thread, release, located⟩
  · exact (locks.resident.cached blockNo addr uses).1
  · exact locks.left thread release addr located

theorem touches_hold {hold : Hold} (member : hold ∈ state.held) : state.Touches hold.addr :=
  Or.inl ⟨hold.blockNo, Or.inl ⟨hold, member, rfl, rfl⟩⟩

theorem touches_asleep {use : Use} {blockNo : BlockNo}
    (located : state.place thread = .asleep use blockNo addr) : state.Touches addr := by
  refine Or.inl ⟨blockNo, Or.inr ⟨thread, ?_⟩⟩
  rw [located]
  rfl

/-- Nobody falls asleep, wakes up or passes the first half of a release. -/
def SameWaits (state after : System) : Prop :=
  (∀ thread use blockNo addr, after.place thread = .asleep use blockNo addr ↔
      state.place thread = .asleep use blockNo addr) ∧
    ∀ thread release addr, after.place thread = .unlocking release addr →
      state.place thread = .unlocking release addr

theorem SameWaits.of_move {next : Place}
    (place : after.place = Function.update state.place thread next)
    (before : (state.place thread).Clear) (clear : next.Clear) : SameWaits state after := by
  constructor
  · intro other use blockNo addr
    rw [place]
    by_cases here : other = thread
    · rw [here, Function.update_self]
      constructor
      · intro located
        rw [located] at clear
        cases clear
      · intro located
        rw [located] at before
        cases before
    · rw [Function.update_of_ne here]
  · intro other release addr located
    rw [place] at located
    by_cases here : other = thread
    · rw [here, Function.update_self] at located
      rw [located] at clear
      cases clear
    · rw [Function.update_of_ne here] at located
      exact located

theorem SameWaits.of_eq (place : after.place = state.place) : SameWaits state after := by
  unfold SameWaits
  rw [place]
  exact ⟨fun _ _ _ _ => Iff.rfl, fun _ _ _ => id⟩

/-- A step that takes and frees no lock. A node of the list afterwards was there before, with
the same lock, or is new; the touched ones were there. -/
theorem carry (locks : Locks state owner) (resident : Resident after)
    {owner' : Addr → Option Token}
    (nodes : ∀ addr ∈ after.cache.order,
      (addr ∈ state.cache.order ∧ (after.block addr).lock = (state.block addr).lock ∧
        owner' addr = owner addr) ∨ ((after.block addr).lock = freeLock ∧ owner' addr = none))
    (kept : ∀ addr, state.Touches addr → addr ∈ after.cache.order ∧
      (after.block addr).lock = (state.block addr).lock ∧ owner' addr = owner addr)
    (held : after.held = state.held) (waits : SameWaits state after) : Locks after owner' := by
  constructor
  · exact resident
  · intro thread release addr located
    exact (kept addr (Or.inr ⟨thread, release, waits.2 _ _ _ located⟩)).1
  · intro addr member unowned
    rcases nodes addr member with ⟨older, same, owns⟩ | ⟨new, _⟩
    · rw [same]
      exact locks.free addr older (owns.symm.trans unowned)
    · exact new
  · intro addr member token owned
    rcases nodes addr member with ⟨older, same, owns⟩ | ⟨_, nobody⟩
    · rw [same]
      exact locks.taken addr older token (owns.symm.trans owned)
    · rw [nobody] at owned
      cases owned
  · intro addr member thread sleeping
    rcases nodes addr member with ⟨older, same, _⟩ | ⟨new, _⟩
    · rw [same] at sleeping
      simp only [waits.1]
      exact locks.sleeps addr older thread sleeping
    · rw [new] at sleeping
      cases sleeping
  · intro hold member
    rw [held] at member
    rw [(kept hold.addr (touches_hold member)).2.2]
    exact locks.held hold member
  · intro thread release addr located
    have before := waits.2 _ _ _ located
    rw [(kept addr (Or.inr ⟨thread, release, before⟩)).2.2]
    exact locks.leaving thread release addr before
  · intro thread use blockNo addr located
    have before := (waits.1 _ _ _ _).mp located
    obtain ⟨_, same, owns⟩ := kept addr (touches_asleep before)
    rw [same, owns]
    exact locks.granted thread use blockNo addr before
  · rw [held]
    exact locks.unrepeated

theorem frame (locks : Locks state owner) (resident : Resident after)
    (order : after.cache.order = state.cache.order)
    (same : ∀ addr, (after.block addr).lock = (state.block addr).lock)
    (held : after.held = state.held) (waits : SameWaits state after) : Locks after owner := by
  apply locks.carry resident _ _ held waits
  · intro addr member
    rw [order] at member
    exact Or.inl ⟨member, same addr, rfl⟩
  · intro addr touched
    rw [order]
    exact ⟨locks.touched_cached touched, same addr, rfl⟩

theorem sought (locks : Locks state owner) {use : Use} {blockNo : BlockNo} {chunk : Addr}
    (fresh : chunk ∉ state.cache.evict) (before : (state.place thread).Clear)
    (spares : state.cache.find blockNo = none →
      ∀ addr, state.Touches addr → state.cache.Spares addr)
    (resident : Resident ({ state with
      cache := (state.cache.acquireSection chunk blockNo state.disk).2 }.goto thread
        (.locking use blockNo (state.cache.acquireSection chunk blockNo state.disk).1))) :
    ∃ owner', Locks ({ state with
      cache := (state.cache.acquireSection chunk blockNo state.disk).2 }.goto thread
        (.locking use blockNo (state.cache.acquireSection chunk blockNo state.disk).1)) owner' := by
  have wellFormed := locks.resident.wellFormed
  have kept : ∀ addr, state.Touches addr →
      addr ∈ (state.cache.acquireSection chunk blockNo state.disk).2.order ∧
        (state.cache.acquireSection chunk blockNo state.disk).2.heap addr =
          state.cache.heap addr := by
    intro addr touched
    exact wellFormed.section_keeps state.disk fresh (locks.touched_cached touched)
      (fun missing => spares missing addr touched)
  have waits : SameWaits state ({ state with
      cache := (state.cache.acquireSection chunk blockNo state.disk).2 }.goto thread
        (.locking use blockNo (state.cache.acquireSection chunk blockNo state.disk).1)) :=
    SameWaits.of_move rfl before trivial
  have fetched := wellFormed.fetched blockNo state.disk fresh
  cases found : state.cache.find blockNo with
  | some addr =>
      refine ⟨owner, locks.carry resident ?_ ?_ rfl waits⟩
      · intro other member
        rcases fetched.outcome with ⟨_, heap, nodes⟩ | ⟨missing, _⟩
        · exact Or.inl ⟨(nodes other).mp member, congrArg Block.lock (congrFun heap other), rfl⟩
        · rw [found] at missing
          cases missing
      · intro other touched
        exact ⟨(kept other touched).1, congrArg Block.lock (kept other touched).2, rfl⟩
  | none =>
      refine ⟨Function.update owner chunk none, locks.carry resident ?_ ?_ rfl waits⟩
      · intro other member
        rcases BlockCache.section_missed found fresh member with
          ⟨new, loaded⟩ | ⟨different, older, same⟩
        · right
          rw [new] at loaded
          rw [new, Function.update_self]
          exact ⟨congrArg Block.lock loaded, rfl⟩
        · left
          rw [Function.update_of_ne different]
          exact ⟨state.cache.evict_sublist.subset older, congrArg Block.lock same, rfl⟩
      · intro other touched
        have different : other ≠ chunk := by
          intro same
          have stays := (BlockCache.mem_evict_iff wellFormed.nodup
            (locks.touched_cached touched)).mpr (spares found other touched)
          exact fresh (same ▸ stays)
        rw [Function.update_of_ne different]
        exact ⟨(kept other touched).1, congrArg Block.lock (kept other touched).2, rfl⟩

theorem not_sleeping (locks : Locks state owner)
    (awake : ∀ use blockNo addr, state.place thread ≠ .asleep use blockNo addr)
    (member : addr ∈ state.cache.order) : thread ∉ (state.block addr).lock.sleeplist := by
  intro sleeping
  obtain ⟨use, blockNo, located⟩ := locks.sleeps addr member thread sleeping
  exact awake use blockNo addr located

theorem waits_elsewhere {next : Place}
    (place : after.place = Function.update state.place thread next) (clear : next.Clear) :
    ∀ other, ¬(after.place other).Clear →
      after.place other = state.place other ∧ other ≠ thread := by
  intro other waits
  rw [place] at waits ⊢
  by_cases same : other = thread
  · rw [same, Function.update_self] at waits
    exact absurd clear waits
  · rw [Function.update_of_ne same]
    exact ⟨rfl, same⟩

/-- `cache_acquire` returns a block: its lock was free, or a post had left it to this thread. -/
theorem acquired (locks : Locks state owner) (resident : Resident after) (hold : Hold)
    (next : Place) (owned : owner hold.addr = none ∨ owner hold.addr = some (.granted thread))
    (unlisted : ∀ addr ∈ state.cache.order, thread ∉ (state.block addr).lock.sleeplist)
    (order : after.cache.order = state.cache.order)
    (others : ∀ addr, addr ≠ hold.addr → (after.block addr).lock = (state.block addr).lock)
    (list : (after.block hold.addr).lock.sleeplist = (state.block hold.addr).lock.sleeplist)
    (value : (after.block hold.addr).lock.val =
      -((after.block hold.addr).lock.sleeplist.length : Int))
    (held : after.held = hold :: state.held)
    (place : after.place = Function.update state.place thread next) (clear : next.Clear) :
    Locks after (Function.update owner hold.addr (some (.held hold))) := by
  have lists : ∀ addr, (after.block addr).lock.sleeplist = (state.block addr).lock.sleeplist := by
    intro addr
    by_cases same : addr = hold.addr
    · rw [same]
      exact list
    · rw [others addr same]
  have unheld : ∀ other ∈ state.held, other.addr ≠ hold.addr := by
    rcases owned with nobody | chosen
    · exact locks.unheld nobody (fun other same => by cases same)
    · exact locks.unheld chosen (fun other same => by cases same)
  have elsewhere := waits_elsewhere place clear
  constructor
  · exact resident
  · intro other release addr located
    have before := elsewhere other (by rw [located]; exact id)
    rw [order]
    exact locks.left other release addr (before.1.symm.trans located)
  · intro addr member nobody
    by_cases same : addr = hold.addr
    · rw [same, Function.update_self] at nobody
      cases nobody
    · rw [Function.update_of_ne same] at nobody
      rw [others addr same]
      exact locks.free addr (order ▸ member) nobody
  · intro addr member token owns
    by_cases same : addr = hold.addr
    · rw [same]
      exact value
    · rw [Function.update_of_ne same] at owns
      rw [others addr same]
      exact locks.taken addr (order ▸ member) token owns
  · intro addr member other sleeping
    rw [order] at member
    rw [lists] at sleeping
    have different : other ≠ thread := by
      intro same
      subst same
      exact unlisted addr member sleeping
    rw [place, Function.update_of_ne different]
    exact locks.sleeps addr member other sleeping
  · intro other member
    rw [held] at member
    rcases List.mem_cons.mp member with rfl | older
    · exact Function.update_self _ _ _
    · rw [Function.update_of_ne (unheld other older)]
      exact locks.held other older
  · intro other release addr located
    have before := elsewhere other (by rw [located]; exact id)
    have owns := locks.leaving other release addr (before.1.symm.trans located)
    have different : addr ≠ hold.addr := by
      intro same
      subst same
      rcases owned with nobody | chosen
      · rw [nobody] at owns
        cases owns
      · rw [chosen] at owns
        cases owns
    rw [Function.update_of_ne different]
    exact owns
  · intro other use blockNo addr located
    have before := elsewhere other (by rw [located]; exact id)
    rw [lists]
    rcases locks.granted other use blockNo addr (before.1.symm.trans located) with listed | owns
    · exact Or.inl listed
    · right
      have different : addr ≠ hold.addr := by
        intro same
        subst same
        rcases owned with nobody | chosen
        · rw [nobody] at owns
          cases owns
        · rw [chosen] at owns
          cases owns
          exact before.2 rfl
      rw [Function.update_of_ne different]
      exact owns
  · rw [held, List.nodup_cons]
    exact ⟨fun again => unheld hold again rfl, locks.unrepeated⟩

theorem locked (locks : Locks state owner) {use : Use} {blockNo : BlockNo}
    (located : state.place thread = .locking use blockNo addr)
    (available : (waitSem thread (state.block addr).lock).1 = true)
    (taken : after = state.setBlock addr { state.block addr with
      lock := (waitSem thread (state.block addr).lock).2 })
    (resident : Resident (after.grant thread use blockNo addr)) :
    ∃ owner', Locks (after.grant thread use blockNo addr) owner' := by
  have member : addr ∈ state.cache.order := by
    refine (locks.resident.cached blockNo addr (Or.inr ⟨thread, ?_⟩)).1
    rw [located]
    rfl
  have nobody := locks.unowned member available
  have unlocked := locks.free addr member nobody
  obtain ⟨inner, next, held, place, _, clear, cache⟩ := after.grant_frame thread use blockNo addr
  have blocks : (after.grant thread use blockNo addr).block = after.block := by
    unfold System.block
    rw [cache]
  have here : (after.block addr).lock = heldLock := by
    rw [taken, System.setBlock_block, if_pos rfl, unlocked]
    rfl
  have order : after.cache.order = state.cache.order := by
    rw [taken]
    rfl
  have older : after.held = state.held ∧ after.place = state.place := by
    rw [taken]
    exact ⟨rfl, rfl⟩
  rw [older.1] at held
  rw [older.2] at place
  refine ⟨_, locks.acquired resident ⟨thread, blockNo, addr, inner⟩ next (Or.inl nobody) ?_ ?_ ?_
    ?_ ?_ held place clear⟩
  · intro other present
    apply locks.not_sleeping _ present
    intro use' blockNo' addr' asleep
    rw [located] at asleep
    cases asleep
  · rw [cache, order]
  · intro other different
    rw [blocks, taken, System.setBlock_block, if_neg different]
  · rw [blocks, here, unlocked]
    rfl
  · rw [blocks, here]
    rfl

theorem woken (locks : Locks state owner) {use : Use} {blockNo : BlockNo}
    (located : state.place thread = .asleep use blockNo addr)
    (posted : thread ∉ (state.block addr).lock.sleeplist)
    (resident : Resident (state.grant thread use blockNo addr)) :
    ∃ owner', Locks (state.grant thread use blockNo addr) owner' := by
  have member := locks.touched_cached (touches_asleep located)
  have chosen := (locks.granted thread use blockNo addr located).resolve_left posted
  obtain ⟨inner, next, held, place, _, clear, cache⟩ :=
    state.grant_frame thread use blockNo addr
  have blocks : (state.grant thread use blockNo addr).block = state.block := by
    unfold System.block
    rw [cache]
  refine ⟨_, locks.acquired resident ⟨thread, blockNo, addr, inner⟩ next (Or.inr chosen) ?_ ?_ ?_
    ?_ ?_ held place clear⟩
  · intro other present sleeping
    obtain ⟨use', blockNo', asleep⟩ := locks.sleeps other present thread sleeping
    rw [located] at asleep
    cases asleep
    exact posted sleeping
  · rw [cache]
  · intro other _
    rw [blocks]
  · rw [blocks]
  · rw [blocks]
    exact locks.taken addr member _ chosen

/-- `cache_acquire` goes to sleep on a lock that is taken. -/
theorem slept (locks : Locks state owner) (resident : Resident after) {token : Token} {use : Use}
    {blockNo : BlockNo} (owned : owner addr = some token)
    (located : state.place thread = .locking use blockNo addr)
    (order : after.cache.order = state.cache.order)
    (others : ∀ other, other ≠ addr → (after.block other).lock = (state.block other).lock)
    (lock : (after.block addr).lock =
      ⟨(state.block addr).lock.val - 1, thread :: (state.block addr).lock.sleeplist⟩)
    (held : after.held = state.held)
    (place : after.place = Function.update state.place thread (.asleep use blockNo addr)) :
    Locks after owner := by
  have elsewhere : ∀ other, other ≠ thread → after.place other = state.place other := by
    intro other different
    rw [place, Function.update_of_ne different]
  have here : after.place thread = .asleep use blockNo addr := by
    rw [place, Function.update_self]
  constructor
  · exact resident
  · intro other release node leaving
    rw [order]
    by_cases same : other = thread
    · rw [same, here] at leaving
      cases leaving
    · exact locks.left other release node ((elsewhere other same).symm.trans leaving)
  · intro node member nobody
    by_cases same : node = addr
    · rw [same, owned] at nobody
      cases nobody
    · rw [others node same]
      exact locks.free node (order ▸ member) nobody
  · intro node member other owns
    by_cases same : node = addr
    · have value := locks.taken node (order ▸ member) other owns
      rw [same] at value ⊢
      rw [lock, List.length_cons]
      push_cast
      omega
    · rw [others node same]
      exact locks.taken node (order ▸ member) other owns
  · intro node member other sleeping
    by_cases mover : other = thread
    · by_cases same : node = addr
      · rw [same, mover]
        exact ⟨use, blockNo, here⟩
      · rw [others node same, mover] at sleeping
        obtain ⟨_, _, impossible⟩ := locks.sleeps node (order ▸ member) thread sleeping
        rw [located] at impossible
        cases impossible
    · rw [elsewhere other mover]
      apply locks.sleeps node (order ▸ member)
      by_cases same : node = addr
      · rw [same, lock] at sleeping
        rw [same]
        exact (List.mem_cons.mp sleeping).resolve_left mover
      · rw [others node same] at sleeping
        exact sleeping
  · rw [held]
    exact locks.held
  · intro other release node leaving
    by_cases same : other = thread
    · rw [same, here] at leaving
      cases leaving
    · exact locks.leaving other release node ((elsewhere other same).symm.trans leaving)
  · intro other otherUse number node asleep
    by_cases mover : other = thread
    · rw [mover, here] at asleep
      cases asleep
      left
      rw [lock, mover]
      exact List.mem_cons_self
    · rcases locks.granted other otherUse number node ((elsewhere other mover).symm.trans asleep) with
        listed | owns
      · left
        by_cases same : node = addr
        · rw [same] at listed ⊢
          rw [lock]
          exact List.mem_cons_of_mem thread listed
        · rw [others node same]
          exact listed
      · exact Or.inr owns
  · rw [held]
    exact locks.unrepeated

/-- The first half of a release: the block is no longer held, its lock still taken. -/
theorem dropped (locks : Locks state owner) (resident : Resident after) {hold : Hold}
    {release : Release} (member : hold ∈ state.held) (before : (state.place thread).Clear)
    (order : after.cache.order = state.cache.order)
    (same : ∀ addr, (after.block addr).lock = (state.block addr).lock)
    (held : after.held = state.held.erase hold)
    (place : after.place = Function.update state.place thread (.unlocking release hold.addr)) :
    Locks after (Function.update owner hold.addr (some (.leaving thread))) := by
  have owns := locks.held hold member
  have here : after.place thread = .unlocking release hold.addr := by
    rw [place, Function.update_self]
  have elsewhere : ∀ other, other ≠ thread → after.place other = state.place other := by
    intro other different
    rw [place, Function.update_of_ne different]
  constructor
  · exact resident
  · intro other otherRelease addr located
    rw [order]
    by_cases mover : other = thread
    · rw [mover, here] at located
      cases located
      exact locks.touched_cached (touches_hold member)
    · exact locks.left other otherRelease addr ((elsewhere other mover).symm.trans located)
  · intro addr present nobody
    rw [same]
    by_cases taken : addr = hold.addr
    · rw [taken, Function.update_self] at nobody
      cases nobody
    · rw [Function.update_of_ne taken] at nobody
      exact locks.free addr (order ▸ present) nobody
  · intro addr present token owned
    rw [same]
    by_cases taken : addr = hold.addr
    · rw [taken] at present ⊢
      exact locks.taken hold.addr (order ▸ present) _ owns
    · rw [Function.update_of_ne taken] at owned
      exact locks.taken addr (order ▸ present) token owned
  · intro addr present other sleeping
    rw [same] at sleeping
    have different : other ≠ thread := by
      intro same
      subst same
      obtain ⟨_, _, asleep⟩ := locks.sleeps addr (order ▸ present) other sleeping
      rw [asleep] at before
      cases before
    rw [elsewhere other different]
    exact locks.sleeps addr (order ▸ present) other sleeping
  · intro other still
    rw [held] at still
    obtain ⟨distinct, older⟩ := locks.unrepeated.mem_erase_iff.mp still
    have different : other.addr ≠ hold.addr :=
      fun equal => distinct (locks.hold_unique older member equal)
    rw [Function.update_of_ne different]
    exact locks.held other older
  · intro other otherRelease addr located
    by_cases mover : other = thread
    · rw [mover, here] at located
      cases located
      rw [mover]
      exact Function.update_self _ _ _
    · have leaving := locks.leaving other otherRelease addr
        ((elsewhere other mover).symm.trans located)
      have different : addr ≠ hold.addr := by
        intro same
        subst same
        rw [owns] at leaving
        cases leaving
      rw [Function.update_of_ne different]
      exact leaving
  · intro other use blockNo addr located
    have different : other ≠ thread := by
      intro same
      subst same
      rw [here] at located
      cases located
    rw [same]
    rcases locks.granted other use blockNo addr ((elsewhere other different).symm.trans located) with
      listed | chosen
    · exact Or.inl listed
    · right
      have away : addr ≠ hold.addr := by
        intro same
        subst same
        rw [owns] at chosen
        cases chosen
      rw [Function.update_of_ne away]
      exact chosen
  · rw [held]
    exact locks.unrepeated.erase hold

theorem posted (locks : Locks state owner) {token : Token} {woken : Option Tid}
    {lock : Semaphore} (member : addr ∈ state.cache.order) (owned : owner addr = some token)
    (posted : postSem (state.block addr).lock = some (woken, lock)) :
    ((state.block addr).lock.sleeplist = [] ∧ lock = freeLock) ∨
      ∃ next, (state.block addr).lock.sleeplist = lock.sleeplist ++ [next] ∧
        lock.val = -(lock.sleeplist.length : Int) := by
  have value := locks.taken addr member token owned
  have balanced : (state.block addr).lock.Balanced := by
    unfold Semaphore.Balanced
    omega
  rcases List.eq_nil_or_concat (state.block addr).lock.sleeplist with nobody | ⟨older, next, listed⟩
  · rw [postSem_free balanced nobody] at posted
    rw [nobody, List.length_nil] at value
    cases posted
    left
    constructor
    · exact nobody
    · rw [nobody, value]
      rfl
  · rw [List.concat_eq_append] at listed
    rw [postSem_sleeping balanced listed] at posted
    rw [listed, List.length_append, List.length_singleton] at value
    cases posted
    right
    refine ⟨next, listed, ?_⟩
    push_cast at value ⊢
    omega

/-- The lock goes to the sleeper that the post has taken off the list, if there is one. -/
theorem passed_on (locks : Locks state owner) {token : Token} {woken : Option Tid}
    {lock : Semaphore} (member : addr ∈ state.cache.order) (owned : owner addr = some token)
    (post : postSem (state.block addr).lock = some (woken, lock)) : ∃ heir : Option Token,
      (heir = none → lock = freeLock) ∧
      (∀ other, heir = some other → lock.val = -(lock.sleeplist.length : Int)) ∧
      ∀ other ∈ (state.block addr).lock.sleeplist, other ∈ lock.sleeplist ∨
        heir = some (.granted other) := by
  rcases locks.posted member owned post with ⟨nobody, freed⟩ | ⟨chosen, listed, value⟩
  · refine ⟨none, ?_, ?_, ?_⟩
    · intro _
      exact freed
    · intro other impossible
      cases impossible
    · rw [nobody]
      intro other impossible
      cases impossible
  · refine ⟨some (.granted chosen), ?_, ?_, ?_⟩
    · intro impossible
      cases impossible
    · intro _ _
      exact value
    · rw [listed]
      intro other sleeping
      rcases List.mem_append.mp sleeping with still | last
      · exact Or.inl still
      · rw [List.mem_singleton.mp last]
        exact Or.inr rfl

theorem unlocked (locks : Locks state owner) (resident : Resident after) {release : Release}
    {woken : Option Tid} {lock : Semaphore} {next : Place}
    (located : state.place thread = .unlocking release addr)
    (post : postSem (state.block addr).lock = some (woken, lock))
    (order : after.cache.order = state.cache.order)
    (others : ∀ other, other ≠ addr → (after.block other).lock = (state.block other).lock)
    (same : (after.block addr).lock = lock) (held : after.held = state.held)
    (place : after.place = Function.update state.place thread next) (clear : next.Clear) :
    ∃ owner', Locks after owner' := by
  have member := locks.left thread release addr located
  have owns := locks.leaving thread release addr located
  have unheld := locks.unheld owns (fun hold impossible => by cases impossible)
  have elsewhere := waits_elsewhere place clear
  have asleep : ∀ other ∈ lock.sleeplist, other ∈ (state.block addr).lock.sleeplist := by
    intro other sleeping
    rcases locks.posted member owns post with ⟨_, rfl⟩ | ⟨chosen, listed, _⟩
    · cases sleeping
    · rw [listed]
      exact List.mem_append_left _ sleeping
  have kept : ∀ other, other ≠ thread → after.place other = state.place other := by
    intro other mover
    rw [place, Function.update_of_ne mover]
  obtain ⟨token, free, taken, granted⟩ := locks.passed_on member owns post
  refine ⟨Function.update owner addr token, ?_⟩
  constructor
  · exact resident
  · intro other otherRelease node leaving
    have before := elsewhere other (by rw [leaving]; exact id)
    rw [order]
    exact locks.left other otherRelease node (before.1.symm.trans leaving)
  · intro node present nobody
    by_cases here : node = addr
    · rw [here, Function.update_self] at nobody
      rw [here, same]
      exact free nobody
    · rw [Function.update_of_ne here] at nobody
      rw [others node here]
      exact locks.free node (order ▸ present) nobody
  · intro node present other owned
    by_cases here : node = addr
    · rw [here, Function.update_self] at owned
      rw [here, same]
      exact taken other owned
    · rw [Function.update_of_ne here] at owned
      rw [others node here]
      exact locks.taken node (order ▸ present) other owned
  · intro node present other sleeping
    have before : other ∈ (state.block node).lock.sleeplist := by
      by_cases here : node = addr
      · rw [here, same] at sleeping
        rw [here]
        exact asleep other sleeping
      · rw [others node here] at sleeping
        exact sleeping
    obtain ⟨use, blockNo, sleeps⟩ := locks.sleeps node (order ▸ present) other before
    have mover : other ≠ thread := by
      intro same
      subst same
      rw [located] at sleeps
      cases sleeps
    rw [kept other mover]
    exact ⟨use, blockNo, sleeps⟩
  · intro hold holds
    rw [held] at holds
    rw [Function.update_of_ne (unheld hold holds)]
    exact locks.held hold holds
  · intro other otherRelease node leaving
    have before := elsewhere other (by rw [leaving]; exact id)
    have owned := locks.leaving other otherRelease node (before.1.symm.trans leaving)
    have different : node ≠ addr := by
      intro same
      subst same
      rw [owns] at owned
      cases owned
      exact before.2 rfl
    rw [Function.update_of_ne different]
    exact owned
  · intro other use blockNo node sleeps
    have before := elsewhere other (by rw [sleeps]; exact id)
    rcases locks.granted other use blockNo node (before.1.symm.trans sleeps) with listed | chosen
    · by_cases here : node = addr
      · rw [here] at listed
        rw [here, same, Function.update_self]
        exact granted other listed
      · rw [others node here]
        exact Or.inl listed
    · right
      have different : node ≠ addr := by
        intro same
        subst same
        rw [owns] at chosen
        cases chosen
      rw [Function.update_of_ne different]
      exact chosen
  · rw [held]
    exact locks.unrepeated

end Locks

end LabKernel.Fs
