/-
The block cache forgets the blocks used least recently.

Between two acquires the fields of a block may change, except for its number, and so may the
device and the memory that other parts of the kernel have.
-/

import LabKernel.Fs.CacheList
import Mathlib.Data.List.Perm.Subperm

set_option autoImplicit false

namespace LabKernel.Fs

open Common Rings Lru Transition

/-- The cache, the device, and the numbers acquired so far, the last one first. -/
structure CacheRun where
  memory : CacheMemory
  disk : Disk
  uses : List BlockNo

/-- After `init_list_node(&head)`. -/
def CacheRun.initial (memory : CacheMemory) (disk : Disk) : CacheRun :=
  { memory := { memory with links := memory.links.single .head }
    disk := disk
    uses := [] }

/-- What can happen while nobody has the cache lock, and a section of `cache_acquire`. -/
inductive CacheAction where
  | acquire (blockNo : BlockNo) (chunk : Addr) (rounds : Nat)
  | change (addr : Addr) (block : Block)
  | write (blockNo : BlockNo) (data : BlockData)
  | allocate (chunk : Addr)
  | free (chunk : Addr)

def cacheStep (state : CacheRun) : CacheAction → Except Stop CacheRun
  | .acquire blockNo chunk rounds =>
      match state.memory.cacheAcquire rounds chunk blockNo state.disk with
      | none => .error .outOfBounds
      | some (_, memory) => .ok { state with memory := memory, uses := blockNo :: state.uses }
  | .change addr block =>
      -- Only memory that is not a block of the cache loses its number.
      if state.memory.owner addr = .cache ∧ block.blockNo ≠ (state.memory.heap addr).blockNo then
        .error .blocks
      else
        .ok { state with
          memory := { state.memory with heap := Function.update state.memory.heap addr block } }
  | .write blockNo data => .ok { state with disk := Function.update state.disk blockNo data }
  | .allocate chunk =>
      if state.memory.owner chunk = .free then
        .ok { state with
          memory := { state.memory with
            owner := Function.update state.memory.owner chunk .kernel } }
      else .error .blocks
  | .free chunk =>
      if state.memory.owner chunk = .kernel then
        .ok { state with
          memory := { state.memory with
            owner := Function.update state.memory.owner chunk .free } }
      else .error .blocks

namespace BlockCache

variable {cache after : BlockCache} {blockNo : BlockNo} {addr chunk : Addr} {disk : Disk}

def numbers (cache : BlockCache) : List BlockNo :=
  cache.order.map (fun addr => (cache.heap addr).blockNo)

theorem wellFormed_of_numbers (distinct : cache.numbers.Nodup) : cache.WellFormed := by
  constructor
  · exact List.Nodup.of_map _ distinct
  · intro left leftMember right rightMember same
    exact List.inj_on_of_nodup_map distinct leftMember rightMember same

/-- What an acquire leaves: its block is first, the others were there before, and none that a
flag protects is gone. -/
structure Used (cache : BlockCache) (blockNo : BlockNo) (after : BlockCache) (addr : Addr)
    (rest : List Addr) : Prop where
  order : after.order = addr :: rest
  number : (after.heap addr).blockNo = blockNo
  older : rest.Sublist cache.order
  others : ∀ other ∈ rest, after.heap other = cache.heap other
  apart : ∀ other ∈ rest, (cache.heap other).blockNo ≠ blockNo
  kept : ∀ other ∈ cache.order, (cache.heap other).evictable = false → other ∈ after.order
  room : cache.find blockNo = none → rest.length < evictionThreshold ∨
    ∀ other ∈ rest, (cache.heap other).evictable = false

theorem WellFormed.used_hit (wellFormed : cache.WellFormed)
    (found : cache.find blockNo = some addr) :
    cache.Used blockNo { cache with order := addr :: cache.order.erase addr } addr
      (cache.order.erase addr) := by
  obtain ⟨member, number⟩ := find_some found
  constructor
  · rfl
  · exact number
  · exact List.erase_sublist
  · intro other _
    rfl
  · intro other inside same
    obtain ⟨different, present⟩ := wellFormed.nodup.mem_erase_iff.mp inside
    exact different (wellFormed.unique other present addr member (same.trans number.symm))
  · intro other present _
    change other ∈ addr :: cache.order.erase addr
    by_cases same : other = addr
    · rw [same]
      exact List.mem_cons_self
    · exact List.mem_cons_of_mem addr (wellFormed.nodup.mem_erase_iff.mpr ⟨same, present⟩)
  · intro missing
    rw [found] at missing
    cases missing

theorem used_miss (missing : cache.find blockNo = none) (fresh : chunk ∉ cache.survivors)
    (data : BlockData) :
    cache.Used blockNo
      { order := chunk :: cache.survivors
        heap := Function.update cache.heap chunk (.loaded blockNo data) } chunk
      cache.survivors := by
  constructor
  · rfl
  · change (Function.update cache.heap chunk (Block.loaded blockNo data) chunk).blockNo = blockNo
    rw [Function.update_self]
    rfl
  · exact Lru.evict_sublist
  · intro other member
    apply Function.update_of_ne
    intro same
    rw [same] at member
    exact fresh member
  · intro other member
    exact find_none missing (Lru.evict_sublist.subset member)
  · intro other member stays
    exact List.mem_cons_of_mem chunk (Lru.mem_evict stays member)
  · intro _
    exact Lru.evict_length

theorem Used.recent {uses : List BlockNo} {rest : List Addr}
    (used : cache.Used blockNo after addr rest) (recent : ByRecency uses cache.numbers) :
    ByRecency (blockNo :: uses) after.numbers := by
  have numbers : after.numbers =
      blockNo :: rest.map (fun other => (cache.heap other).blockNo) := by
    unfold BlockCache.numbers
    rw [used.order, List.map_cons, used.number]
    congr 1
    apply List.map_congr_left
    intro other member
    rw [used.others other member]
  rw [numbers]
  apply (recent.sublist (used.older.map _)).use
  intro again
  obtain ⟨other, member, same⟩ := List.mem_map.mp again
  exact used.apart other member same

theorem Used.length {rest : List Addr} (used : cache.Used blockNo after addr rest)
    (missing : cache.find blockNo = none) : after.order.length ≤ evictionThreshold ∨
      ∀ other ∈ after.order.tail, (after.heap other).evictable = false := by
  rw [used.order]
  rcases used.room missing with small | fixed
  · exact Or.inl small
  · right
    intro other member
    have inside : other ∈ rest := member
    rw [used.others other inside]
    exact fixed other inside

end BlockCache

namespace CacheRun

variable {state after : CacheRun} {cache : BlockCache} {action : CacheAction}

/-- The memory holds a list in the order of the last acquires. -/
structure Recent (state : CacheRun) (cache : BlockCache) : Prop where
  holds : state.memory.Holds cache
  recent : ByRecency state.uses cache.numbers

theorem initial_recent (memory : CacheMemory) (disk : Disk) :
    (CacheRun.initial memory disk).Recent (.empty memory.heap) := by
  refine ⟨⟨IsRing.single _ _, rfl, ?_⟩, ByRecency.nil⟩
  intro addr member
  cases member

structure Step (cache : BlockCache) (action : CacheAction) (next : BlockCache) : Prop where
  kept : ∀ addr ∈ cache.order, (cache.heap addr).evictable = false → addr ∈ next.order
  room : ∀ blockNo chunk rounds, action = .acquire blockNo chunk rounds →
    cache.find blockNo = none → next.order.length ≤ evictionThreshold ∨
      ∀ addr ∈ next.order.tail, (next.heap addr).evictable = false

theorem Recent.acquire (recent : state.Recent cache) {blockNo : BlockNo} {chunk : Addr}
    {rounds : Nat} (stepped : cacheStep state (.acquire blockNo chunk rounds) = .ok after) :
    ∃ next, after.Recent next ∧ Step cache (.acquire blockNo chunk rounds) next := by
  unfold cacheStep at stepped
  simp only at stepped
  split at stepped
  · cases stepped
  · rename_i returned memory acquired
    cases stepped
    have wellFormed := BlockCache.wellFormed_of_numbers recent.recent.nodup
    obtain ⟨available, -, holds⟩ := recent.holds.acquired acquired
    obtain ⟨addr, rest, used⟩ : ∃ addr rest,
        cache.Used blockNo (cache.acquireSection chunk blockNo state.disk).2 addr rest := by
      cases found : cache.find blockNo with
      | some addr =>
          rw [BlockCache.acquireSection_hit found]
          exact ⟨addr, _, wellFormed.used_hit found⟩
      | none =>
          rw [BlockCache.acquireSection_miss found, cache.evict_eq_survivors]
          exact ⟨chunk, _, BlockCache.used_miss found (recent.holds.fresh (available found)) _⟩
    refine ⟨_, ⟨holds, used.recent recent.recent⟩, used.kept, ?_⟩
    intro number piece turns same missing
    cases same
    exact used.length missing

/-- A step that leaves the list and the numbers in it. -/
theorem Recent.frame (recent : state.Recent cache) (links : after.memory.links = state.memory.links)
    (uses : after.uses = state.uses)
    (owned : ∀ addr ∈ cache.order, after.memory.owner addr = .cache)
    (numbers : ∀ addr ∈ cache.order,
      (after.memory.heap addr).blockNo = (state.memory.heap addr).blockNo) :
    after.Recent { order := cache.order, heap := after.memory.heap } := by
  refine ⟨⟨?_, rfl, owned⟩, ?_⟩
  · rw [links]
    exact recent.holds.ring
  · have same : BlockCache.numbers { order := cache.order, heap := after.memory.heap } =
        cache.numbers := by
      apply List.map_congr_left
      intro addr member
      rw [numbers addr member, recent.holds.heap]
    rw [uses, same]
    exact recent.recent

theorem Step.of_order {next : BlockCache} (order : next.order = cache.order)
    (other : ∀ blockNo chunk rounds, action ≠ .acquire blockNo chunk rounds) :
    Step cache action next := by
  constructor
  · intro addr member _
    rw [order]
    exact member
  · intro blockNo chunk rounds same
    exact absurd same (other blockNo chunk rounds)

theorem Recent.handed (recent : state.Recent cache) {chunk : Addr}
    (other : state.memory.owner chunk ≠ .cache) (owner : ChunkOwner)
    (others : ∀ blockNo chunk rounds, action ≠ .acquire blockNo chunk rounds) :
    ∃ next, Recent { state with
        memory := { state.memory with
          owner := Function.update state.memory.owner chunk owner } } next ∧
      Step cache action next := by
  refine ⟨_, recent.frame rfl rfl ?_ (fun _ _ => rfl), Step.of_order rfl others⟩
  intro addr member
  have owned := recent.holds.owned addr member
  have different : addr ≠ chunk := by
    intro same
    rw [← same] at other
    exact other owned
  change Function.update state.memory.owner chunk owner addr = .cache
  rw [Function.update_of_ne different]
  exact owned

theorem Recent.step (recent : state.Recent cache) (stepped : cacheStep state action = .ok after) :
    ∃ next, after.Recent next ∧ Step cache action next := by
  cases action with
  | acquire blockNo chunk rounds => exact recent.acquire stepped
  | change addr block =>
      unfold cacheStep at stepped
      simp only at stepped
      split at stepped
      · cases stepped
      · rename_i allowed
        cases stepped
        refine ⟨_, recent.frame rfl rfl recent.holds.owned ?_, Step.of_order rfl (by simp)⟩
        intro other member
        change (Function.update state.memory.heap addr block other).blockNo = _
        by_cases same : other = addr
        · rw [same] at member ⊢
          rw [Function.update_self]
          by_contra different
          exact allowed ⟨recent.holds.owned addr member, different⟩
        · rw [Function.update_of_ne same]
  | write blockNo data =>
      cases stepped
      refine ⟨_, recent.frame rfl rfl recent.holds.owned ?_, Step.of_order rfl (by simp)⟩
      intro addr _
      rfl
  | allocate chunk =>
      unfold cacheStep at stepped
      simp only at stepped
      split at stepped
      · rename_i free
        cases stepped
        exact recent.handed (by rw [free]; simp) .kernel (by simp)
      · cases stepped
  | free chunk =>
      unfold cacheStep at stepped
      simp only at stepped
      split at stepped
      · rename_i kernel
        cases stepped
        exact recent.handed (by rw [kernel]; simp) .free (by simp)
      · cases stepped

theorem recent_of_reachable {memory : CacheMemory} {disk : Disk}
    (reached : Reachable cacheStep (CacheRun.initial memory disk) state) :
    ∃ cache, state.Recent cache := by
  apply reached.invariant (P := fun state => ∃ cache, state.Recent cache)
  · exact ⟨_, initial_recent memory disk⟩
  · rintro state action after ⟨cache, recent⟩ stepped
    obtain ⟨next, again, -⟩ := recent.step stepped
    exact ⟨next, again⟩

end CacheRun

/-- `cache_acquire` moves a block that is cached to the front, makes room by taking out the
blocks acquired least recently that no flag protects, and so keeps the list in the order of the
last acquires. -/
theorem cache_acquire_least_recently_used :
    (∀ (memory : CacheMemory) (cache : BlockCache) (blockNo : BlockNo) (disk : Disk) (rounds : Nat),
      memory.Holds cache → cache.numbers.Nodup → cache.order.length < rounds →
        (∀ addr ∈ cache.order, (cache.heap addr).blockNo = blockNo → ∀ chunk, ∃ after,
          memory.cacheAcquire rounds chunk blockNo disk = some (addr, after) ∧
          after.Holds { cache with order := addr :: cache.order.erase addr } ∧
          after.owner = memory.owner ∧ after.reads = memory.reads) ∧
        ((∀ addr ∈ cache.order, (cache.heap addr).blockNo ≠ blockNo) →
          ∀ chunk, memory.Available cache chunk → ∃ after,
            memory.cacheAcquire rounds chunk blockNo disk = some (chunk, after) ∧
            after.Holds
              { order := chunk :: cache.survivors
                heap := Function.update cache.heap chunk (.loaded blockNo (disk blockNo)) } ∧
            after.reads = memory.reads ++ [blockNo])) ∧
    (∀ (memory : CacheMemory) (disk : Disk) (state : CacheRun),
      Reachable cacheStep (.initial memory disk) state → ∃ cache, state.memory.Holds cache ∧
        cache.numbers.Nodup ∧ ByRecency state.uses cache.numbers ∧
        ∀ action after, cacheStep state action = .ok after → ∃ next, after.memory.Holds next ∧
          (∀ addr ∈ cache.order, (cache.heap addr).evictable = false → addr ∈ next.order) ∧
          (∀ blockNo chunk rounds, action = .acquire blockNo chunk rounds →
            cache.find blockNo = none → next.order.length ≤ evictionThreshold ∨
              ∀ addr ∈ next.order.tail, (next.heap addr).evictable = false)) := by
  constructor
  · intro memory cache blockNo disk rounds holds distinct enough
    constructor
    · intro addr member number chunk
      have found := (BlockCache.wellFormed_of_numbers distinct).find_eq member
      rw [number] at found
      obtain ⟨links, acquired, first⟩ := holds.hit enough found chunk disk
      exact ⟨_, acquired, first, rfl, rfl⟩
    · intro absent chunk available
      have missing : cache.find blockNo = none := by
        apply List.find?_eq_none.mpr
        intro addr member
        rw [decide_eq_true_iff]
        exact absent addr member
      exact holds.miss enough missing available disk
  · intro memory disk state reached
    obtain ⟨cache, recent⟩ := CacheRun.recent_of_reachable reached
    refine ⟨cache, recent.holds, recent.recent.nodup, recent.recent, ?_⟩
    intro action after stepped
    obtain ⟨next, again, step⟩ := recent.step stepped
    exact ⟨next, again.holds, step.kept, step.room⟩

def emptyMemory : CacheMemory :=
  { links := { prev := fun _ => none, next := fun _ => none }
    heap := fun _ => initBlock
    owner := fun _ => .free
    reads := [] }

def leftWith (number : Nat) (acquired pinned : Bool) : Block :=
  { Block.loaded (UInt64.ofNat number) (fun _ => 3) with acquired := acquired, pinned := pinned }

/-- Twenty-two blocks are acquired, all but block 0 are released, block 1 is pinned, and block 7 is
found again. -/
def fillAndHit : List CacheAction :=
  (List.range 22).map (fun number => .acquire (UInt64.ofNat number) number 64) ++
    [.change 1 (leftWith 1 false true)] ++
    (List.range' 2 20).map (fun number => .change number (leftWith number false false)) ++
    [.acquire 7 50 64, .write 40 (fun _ => 5), .allocate 50, .free 50]

def lastUsedOrder : List Nat :=
  [7, 21, 20, 19, 18, 17, 16, 15, 14, 13, 12, 11, 10, 9, 8, 6, 5, 4, 3, 2, 1, 0]

/-- A miss takes three out: block 0 is in use, and block 1 is pinned. -/
def lastUsedLeft : List Nat := [7, 21, 20, 19, 18, 17, 16, 15, 14, 13, 12, 11, 10, 9, 8, 6, 5, 1, 0]

theorem cache_acquire_least_recently_used_evicting : ∃ (state : CacheRun) (cache : BlockCache),
    Reachable cacheStep (.initial emptyMemory (fun _ _ => 3)) state ∧ state.memory.Holds cache ∧
      cache.order = lastUsedOrder ∧
      (∃ after, state.memory.cacheAcquire 64 90 5 state.disk = some (5, after) ∧
        after.Holds { cache with order := 5 :: cache.order.erase 5 }) ∧
      ∃ after next, state.memory.cacheAcquire 64 90 40 state.disk = some (90, after) ∧
        after.Holds next ∧ next.order = 90 :: lastUsedLeft ∧
        after.reads = state.memory.reads ++ [40] := by
  have passed : checkRun cacheStep (fun _ _ => true) (fun state =>
      decide (state.memory.links.walk .head 64 (state.memory.links.next .head) =
          lastUsedOrder.map .node ∧
        Lru.evict (removable state.memory.heap) evictionThreshold lastUsedOrder = lastUsedLeft ∧
        state.memory.owner 90 = .free ∧ state.uses.length < 64 ∧
        (∀ addr ∈ lastUsedOrder, (state.memory.heap addr).blockNo ≠ 40) ∧
        (state.memory.heap 5).blockNo = 5))
      (.initial emptyMemory (fun _ _ => 3)) fillAndHit = true := by
    decide +kernel
  obtain ⟨state, reached, checked⟩ := Reachable.of_checkRun passed
  obtain ⟨walked, evicted, free, short, absent, five⟩ := of_decide_eq_true checked
  obtain ⟨lookup, runs⟩ := cache_acquire_least_recently_used
  obtain ⟨cache, holds, distinct, recency, -⟩ := runs emptyMemory (fun _ _ => 3) state reached
  have enough : cache.order.length < 64 := by
    have fewer := (List.Nodup.subperm distinct recency.used).length_le
    rw [BlockCache.numbers, List.length_map] at fewer
    omega
  have order : cache.order = lastUsedOrder := by
    rw [← List.length_map CacheNode.node] at enough
    have nodes := holds.ring.walk_eq enough
    rw [walked] at nodes
    exact (List.map_injective_iff.mpr (fun _ _ same => CacheNode.node.inj same) nodes).symm
  rw [holds.heap] at evicted absent five
  rw [← order] at evicted absent
  have cached : 5 ∈ cache.order := by
    rw [order]
    decide
  obtain ⟨after, acquired, first, -, -⟩ :=
    (lookup state.memory cache 5 state.disk 64 holds distinct enough).1 5 cached five 90
  obtain ⟨later, loaded, last, reads⟩ :=
    (lookup state.memory cache 40 state.disk 64 holds distinct enough).2 absent 90 (Or.inl free)
  exact ⟨state, cache, reached, holds, order, ⟨after, acquired, first⟩, later, _, loaded, last,
    congrArg (90 :: ·) evicted, reads⟩

end LabKernel.Fs
