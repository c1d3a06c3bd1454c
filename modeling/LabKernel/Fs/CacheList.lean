/-
The list of cached blocks as the nodes that `cache.c` links.

`cache_acquire` walks the list for a block number and moves the node it finds behind the head.
On a miss it walks back from the head, takes out the blocks that no flag protects and goes on
with what the detaching returned, until there is room for a new block. The blocks used least
recently go first.
-/

import LabKernel.Common.List
import LabKernel.Fs.Cache
import LabKernel.Lib.Lru
import LabKernel.Lib.Transition
import Mathlib.Data.List.Induction
import Mathlib.Data.List.Nodup

set_option autoImplicit false

namespace LabKernel.Fs

open Common Rings Lru Transition

/-- `&head`, or `&block->node`. -/
inductive CacheNode where
  | head
  | node (addr : Addr)
  deriving DecidableEq, Repr

/-- Who has a chunk of memory: nobody, the cache, or another part of the kernel. -/
inductive ChunkOwner where
  | free
  | cache
  | kernel
  deriving DecidableEq, Repr

/-- The links, the blocks, the owners of the chunks, and the numbers of the blocks that were
read from the device, in order. -/
structure CacheMemory where
  links : Links CacheNode
  heap : Addr → Block
  owner : Addr → ChunkOwner
  reads : List BlockNo

namespace CacheMemory

/-- The loop of `get_num_cached_blocks`. No loop has a result when it follows a null link, or
when it takes more than the given number of rounds. -/
def countLoop (memory : CacheMemory) : Nat → Option CacheNode → Nat → Option Nat
  | 0, _, _ => none
  | _ + 1, none, _ => none
  | rounds + 1, some p, ret =>
      if p = .head then some ret else countLoop memory rounds (memory.links.next p) (ret + 1)

def getNumCachedBlocks (memory : CacheMemory) (rounds : Nat) : Option Nat :=
  memory.countLoop rounds (memory.links.next .head) 0

/-- The walk from `head.next` for a block number. -/
def scanLoop (memory : CacheMemory) (blockNo : BlockNo) : Nat → Option CacheNode →
    Option (Option Addr)
  | 0, _ => none
  | _ + 1, none => none
  | _ + 1, some .head => some none
  | rounds + 1, some (.node addr) =>
      if (memory.heap addr).blockNo = blockNo then some (some addr)
      else scanLoop memory blockNo rounds (memory.links.next (.node addr))

def kfree (memory : CacheMemory) (addr : Addr) : CacheMemory :=
  { memory with owner := Function.update memory.owner addr .free }

/-- `kalloc(sizeof(Block))`: any free chunk. -/
def kalloc (memory : CacheMemory) (chunk : Addr) : Option CacheMemory :=
  if memory.owner chunk = .free then
    some { memory with owner := Function.update memory.owner chunk .cache }
  else none

def evictionLoop : Nat → CacheMemory → Nat → Option CacheNode → Option CacheMemory
  | 0, _, _, _ => none
  | rounds + 1, memory, sz, q =>
      if evictionThreshold ≤ sz then
        match q with
        | none => none
        | some .head => some memory
        | some (.node addr) =>
            if (memory.heap addr).evictable then
              match detachFromList memory.links (.node addr) with
              | none => none
              | some (t, links) =>
                  evictionLoop rounds (kfree { memory with links := links } addr) (sz - 1) t
            else evictionLoop rounds memory sz (memory.links.prev (.node addr))
      else some memory

/-- What a miss does before it allocates. -/
def makeRoom (memory : CacheMemory) (rounds sz : Nat) : Option CacheMemory :=
  if evictionThreshold ≤ sz then evictionLoop rounds memory sz (memory.links.prev .head)
  else some memory

/-- `init_block`, with the node. -/
def initNode (memory : CacheMemory) (addr : Addr) : CacheMemory :=
  { memory with
    links := memory.links.single (.node addr)
    heap := Function.update memory.heap addr initBlock }

/-- `_merge_list(&head, p)`. -/
def linkFirst (memory : CacheMemory) (addr : Addr) : Option CacheMemory := do
  let (_, links) ← mergeListReturning memory.links (some .head) (some (.node addr))
  return { memory with links := links }

/-- `device->read`, and the fields that are set behind it. -/
def load (memory : CacheMemory) (addr : Addr) (blockNo : BlockNo) (disk : Disk) : CacheMemory :=
  { memory with
    heap := Function.update memory.heap addr
      { memory.heap addr with
        data := disk blockNo
        blockNo := blockNo
        valid := true
        acquired := true }
    reads := memory.reads ++ [blockNo] }

/-- `cache_acquire` up to the release of the cache lock. `chunk` is what `kalloc` returns. -/
def cacheAcquire (memory : CacheMemory) (rounds : Nat) (chunk : Addr) (blockNo : BlockNo)
    (disk : Disk) : Option (Addr × CacheMemory) := do
  let found ← memory.scanLoop blockNo rounds (memory.links.next .head)
  match found with
  | some addr =>
      let (_, links) ← detachFromList memory.links (.node addr)
      let moved ← linkFirst { memory with links := links } addr
      return (addr, moved)
  | none =>
      let sz ← memory.getNumCachedBlocks rounds
      let evicted ← memory.makeRoom rounds sz
      let allocated ← evicted.kalloc chunk
      let linked ← (allocated.initNode chunk).linkFirst chunk
      return (chunk, linked.load chunk blockNo disk)

/-- The links are those of this list of blocks, and each of them is a chunk of the cache. -/
structure Holds (memory : CacheMemory) (cache : BlockCache) : Prop where
  ring : IsRing memory.links .head (cache.order.map .node)
  heap : memory.heap = cache.heap
  owned : ∀ addr ∈ cache.order, memory.owner addr = .cache

end CacheMemory

/-! ### The list -/

def removable (heap : Addr → Block) (addr : Addr) : Bool := (heap addr).evictable

def BlockCache.survivors (cache : BlockCache) : List Addr :=
  Lru.evict (removable cache.heap) evictionThreshold cache.order

theorem evictLoop_eq {heap : Addr → Block} {kept : List Addr} (nodes : List Addr)
    (fixed : ∀ addr ∈ kept, removable heap addr = false) :
    (evictLoop heap (nodes.length + kept.length) nodes).reverse ++ kept =
      Lru.evict (removable heap) evictionThreshold (nodes.reverse ++ kept) := by
  induction nodes generalizing kept with
  | nil => exact (evict_of_fixed fixed).symm
  | cons first rest ih =>
      rw [List.reverse_cons, List.append_assoc, List.singleton_append]
      unfold evictLoop
      split
      · rename_i large
        split
        · rename_i evictable
          have may : removable heap first = true := evictable
          rw [evict_eq _ may fixed, ← ih fixed]
          · rw [List.length_cons, Nat.add_right_comm, Nat.add_sub_cancel]
          · rw [List.length_append, List.length_reverse, List.length_cons]
            rw [List.length_cons] at large
            omega
        · rename_i stays
          rw [List.reverse_cons, List.append_assoc, List.singleton_append, ← ih]
          · rw [List.length_cons, List.length_cons, Nat.add_right_comm, Nat.add_assoc]
          · intro addr member
            rcases List.mem_cons.mp member with same | behind
            · rw [same]
              exact Bool.eq_false_iff.mpr stays
            · exact fixed addr behind
      · rename_i small
        rw [evict_of_small, List.reverse_cons, List.append_assoc, List.singleton_append]
        rw [List.length_append, List.length_reverse, List.length_cons]
        rw [List.length_cons] at small
        omega

theorem BlockCache.evict_eq_survivors (cache : BlockCache) : cache.evict = cache.survivors := by
  unfold evict survivors
  split
  · have none : ∀ addr ∈ [], removable cache.heap addr = false := by
      intro addr member
      cases member
    have loop := evictLoop_eq cache.order.reverse none
    simp only [List.length_reverse, List.length_nil, Nat.add_zero, List.append_nil,
      List.reverse_reverse] at loop
    exact loop
  · rename_i small
    exact (evict_of_small (Nat.lt_of_not_le small)).symm

/-! ### The loops -/

namespace CacheMemory

variable {memory after : CacheMemory} {order : List Addr} {blockNo : BlockNo} {rounds : Nat}

theorem nodup_of_ring {links : Links CacheNode} (ring : IsRing links .head (order.map .node)) :
    order.Nodup :=
  List.Nodup.of_map _ (List.nodup_cons.mp ring.distinct).2

theorem countLoop_eq {rest : List Addr} {start : CacheNode} {ret : Nat}
    (path : Path memory.links start (rest.map .node) .head) (enough : rest.length < rounds) :
    memory.countLoop rounds (memory.links.next start) ret = some (ret + rest.length) := by
  induction rest generalizing start rounds ret with
  | nil =>
      obtain ⟨rounds, rfl⟩ := Nat.exists_eq_add_one_of_ne_zero (Nat.ne_of_gt enough)
      rw [path.1]
      rfl
  | cons addr rest ih =>
      obtain ⟨rounds, rfl⟩ := Nat.exists_eq_add_one_of_ne_zero (Nat.ne_zero_of_lt enough)
      rw [List.length_cons] at enough
      rw [path.1.1]
      unfold countLoop
      rw [if_neg (by simp), ih path.2 (by omega), List.length_cons, Nat.add_assoc,
        Nat.add_comm 1]

theorem scanLoop_eq {rest : List Addr} {start : CacheNode}
    (path : Path memory.links start (rest.map .node) .head) (enough : rest.length < rounds) :
    memory.scanLoop blockNo rounds (memory.links.next start) =
      some (rest.find? (fun addr => (memory.heap addr).blockNo = blockNo)) := by
  induction rest generalizing start rounds with
  | nil =>
      obtain ⟨rounds, rfl⟩ := Nat.exists_eq_add_one_of_ne_zero (Nat.ne_of_gt enough)
      rw [path.1]
      rfl
  | cons addr rest ih =>
      obtain ⟨rounds, rfl⟩ := Nat.exists_eq_add_one_of_ne_zero (Nat.ne_zero_of_lt enough)
      rw [List.length_cons] at enough
      rw [path.1.1]
      unfold scanLoop
      by_cases same : (memory.heap addr).blockNo = blockNo
      · rw [if_pos same, List.find?_cons_of_pos]
        exact decide_eq_true same
      · rw [if_neg same, ih path.2 (by omega), List.find?_cons_of_neg]
        exact ne_true_of_eq_false (decide_eq_false same)

def lastNode (front : List Addr) : CacheNode := (front.map CacheNode.node).getLast?.getD .head

theorem lastNode_concat (front : List Addr) (addr : Addr) :
    lastNode (front ++ [addr]) = .node addr := by
  unfold lastNode
  rw [List.map_append, List.map_singleton, List.getLast?_concat, Option.getD_some]

structure Evicted (memory after : CacheMemory) (order left : List Addr) : Prop where
  ring : IsRing after.links .head (left.map .node)
  heap : after.heap = memory.heap
  reads : after.reads = memory.reads
  owner : ∀ addr, after.owner addr =
    if addr ∈ order ∧ addr ∉ left then .free else memory.owner addr

theorem Evicted.refl (ring : IsRing memory.links .head (order.map .node)) :
    Evicted memory memory order order := by
  refine ⟨ring, rfl, rfl, ?_⟩
  intro addr
  rw [if_neg]
  rintro ⟨member, absent⟩
  exact absent member

theorem Evicted.detached {links : Links CacheNode} {front kept : List Addr} {addr : Addr}
    (evicted : Evicted (kfree { memory with links := links } addr) after (front ++ kept)
      (Lru.evict (removable memory.heap) evictionThreshold (front ++ kept)))
    (distinct : (front ++ addr :: kept).Nodup) :
    Evicted memory after (front ++ addr :: kept)
      (Lru.evict (removable memory.heap) evictionThreshold (front ++ kept)) := by
  have outside : addr ∉ front ++ kept :=
    (List.nodup_cons.mp (List.perm_middle.nodup_iff.mp distinct)).1
  have gone : addr ∉ Lru.evict (removable memory.heap) evictionThreshold (front ++ kept) :=
    fun member => outside (evict_sublist.subset member)
  refine ⟨evicted.ring, evicted.heap, evicted.reads, ?_⟩
  intro other
  rw [evicted.owner]
  change (if _ then _ else Function.update memory.owner addr .free other) = _
  by_cases same : other = addr
  · rw [same, Function.update_self, ite_self, if_pos ⟨by simp, gone⟩]
  · rw [Function.update_of_ne same]
    simp only [List.mem_append, List.mem_cons, same, false_or]

theorem evictionLoop_eq {front kept : List Addr} (enough : front.length < rounds)
    (ring : IsRing memory.links .head ((front ++ kept).map .node))
    (fixed : ∀ addr ∈ kept, removable memory.heap addr = false) :
    ∃ after, evictionLoop rounds memory (front ++ kept).length (some (lastNode front)) =
        some after ∧
      Evicted memory after (front ++ kept)
        (Lru.evict (removable memory.heap) evictionThreshold (front ++ kept)) := by
  induction front using List.reverseRecOn generalizing memory kept rounds with
  | nil =>
      obtain ⟨rounds, rfl⟩ := Nat.exists_eq_add_one_of_ne_zero (Nat.ne_of_gt enough)
      refine ⟨memory, ?_, ?_⟩
      · unfold evictionLoop
        split
        · rfl
        · rfl
      · rw [List.nil_append, evict_of_fixed fixed]
        exact Evicted.refl ring
  | append_singleton front addr ih =>
      obtain ⟨rounds, rfl⟩ := Nat.exists_eq_add_one_of_ne_zero (Nat.ne_zero_of_lt enough)
      rw [List.length_append, List.length_singleton] at enough
      rw [List.append_assoc, List.singleton_append] at ring ⊢
      rw [lastNode_concat]
      unfold evictionLoop
      split
      · rename_i large
        have around : IsRing memory.links .head
            (front.map .node ++ .node addr :: kept.map .node) := by
          rw [← List.map_cons, ← List.map_append]
          exact ring
        by_cases may : removable memory.heap addr = true
        · obtain ⟨links, detached, whole, -⟩ := detachFromList_between around
          rw [← List.map_append] at whole
          obtain ⟨after, looped, evicted⟩ :=
            @ih (kfree { memory with links := links } addr) rounds kept (by omega) whole fixed
          have size : (front ++ addr :: kept).length - 1 = (front ++ kept).length := by
            simp
          refine ⟨after, ?_, ?_⟩
          · simp only [if_pos (show (memory.heap addr).evictable = true from may), detached, size]
            exact looped
          · rw [evict_eq large may fixed]
            exact evicted.detached (nodup_of_ring ring)
        · have stays : removable memory.heap addr = false := Bool.eq_false_iff.mpr may
          have behind : memory.links.prev (.node addr) = some (lastNode front) :=
            around.path.suffix.1.2
          obtain ⟨after, looped, evicted⟩ := @ih memory rounds (addr :: kept) (by omega) ring
            (by
              intro other member
              rcases List.mem_cons.mp member with same | later
              · rw [same]
                exact stays
              · exact fixed other later)
          refine ⟨after, ?_, evicted⟩
          have evictable : ¬(memory.heap addr).evictable = true := may
          simp only [if_neg evictable, behind]
          exact looped
      · rename_i small
        refine ⟨memory, rfl, ?_⟩
        rw [evict_of_small (Nat.lt_of_not_le small)]
        exact Evicted.refl ring

/-! ### The section of an acquire -/

section Section

variable {cache : BlockCache} {chunk addr : Addr} {disk : Disk}

theorem linkFirst_eq (ring : IsRing memory.links .head (order.map .node))
    (alone : IsRing memory.links (.node addr) []) (fresh : addr ∉ order) :
    ∃ links, memory.linkFirst addr = some { memory with links := links } ∧
      IsRing links .head ((addr :: order).map .node) := by
  have apart : CacheNode.node addr ∉ CacheNode.head :: order.map .node := by
    simp [fresh]
  obtain ⟨links, merged, whole, -⟩ := mergeListReturning_rings ring alone apart
  refine ⟨links, ?_, whole⟩
  unfold linkFirst
  rw [merged]
  rfl

theorem Holds.scan_eq (holds : memory.Holds cache) (enough : cache.order.length < rounds) :
    memory.scanLoop blockNo rounds (memory.links.next .head) = some (cache.find blockNo) := by
  rw [scanLoop_eq holds.ring.path enough, holds.heap]
  rfl

/-- A block that is found comes to the front, and nothing else happens. -/
theorem Holds.hit (holds : memory.Holds cache) (enough : cache.order.length < rounds)
    (found : cache.find blockNo = some addr) (chunk : Addr) (disk : Disk) :
    ∃ links, memory.cacheAcquire rounds chunk blockNo disk =
        some (addr, { memory with links := links }) ∧
      Holds { memory with links := links }
        { cache with order := addr :: cache.order.erase addr } := by
  have member := (BlockCache.find_some found).1
  obtain ⟨before, behind, parts⟩ := List.append_of_mem member
  have distinct := nodup_of_ring holds.ring
  have ring := holds.ring
  rw [parts] at ring distinct
  have absent := (List.nodup_cons.mp (List.perm_middle.nodup_iff.mp distinct)).1
  have erased : cache.order.erase addr = before ++ behind := by
    rw [parts, List.erase_append_right, List.erase_cons_head]
    intro early
    exact absent (List.mem_append_left behind early)
  rw [List.map_append, List.map_cons] at ring
  obtain ⟨detached, taken, whole, alone⟩ := detachFromList_between ring
  rw [← List.map_append, ← erased] at whole
  have fresh : addr ∉ cache.order.erase addr := by
    rw [erased]
    exact absent
  obtain ⟨links, linked, first⟩ :=
    @linkFirst_eq { memory with links := detached } _ addr whole alone fresh
  refine ⟨links, ?_, first, holds.heap, ?_⟩
  · unfold cacheAcquire
    rw [holds.scan_eq enough, found]
    simp only [Option.bind_eq_bind, Option.bind_some, taken, linked, Option.pure_def]
  · intro other inside
    rcases List.mem_cons.mp inside with same | kept
    · rw [same]
      exact holds.owned addr member
    · exact holds.owned other (List.mem_of_mem_erase kept)

theorem Holds.room (holds : memory.Holds cache) (enough : cache.order.length < rounds)
    (missing : cache.find blockNo = none) (chunk : Addr) (disk : Disk) :
    ∃ evicted, Evicted memory evicted cache.order cache.survivors ∧
      memory.cacheAcquire rounds chunk blockNo disk =
        (evicted.kalloc chunk).bind (fun allocated =>
          ((allocated.initNode chunk).linkFirst chunk).bind (fun linked =>
            some (chunk, linked.load chunk blockNo disk))) := by
  have count : memory.getNumCachedBlocks rounds = some cache.order.length := by
    unfold getNumCachedBlocks
    rw [countLoop_eq holds.ring.path enough, Nat.zero_add]
  unfold cacheAcquire
  rw [holds.scan_eq enough, missing]
  simp only [Option.bind_eq_bind, Option.bind_some, count]
  unfold makeRoom
  split
  · have back : memory.links.prev .head = some (lastNode cache.order) := holds.ring.path.prev_eq
    have whole : IsRing memory.links .head ((cache.order ++ []).map .node) := by
      rw [List.append_nil]
      exact holds.ring
    have nothing : ∀ addr ∈ [], removable memory.heap addr = false := by
      intro addr member
      cases member
    obtain ⟨evicted, looped, result⟩ := evictionLoop_eq enough whole nothing
    rw [List.append_nil] at looped result
    rw [holds.heap] at result
    refine ⟨evicted, result, ?_⟩
    rw [back, looped]
    rfl
  · rename_i small
    refine ⟨memory, ?_, rfl⟩
    unfold BlockCache.survivors
    rw [evict_of_small (Nat.lt_of_not_le small)]
    exact Evicted.refl holds.ring

/-- `kalloc` may return the chunk to a miss. -/
def Available (memory : CacheMemory) (cache : BlockCache) (chunk : Addr) : Prop :=
  memory.owner chunk = .free ∨ (chunk ∈ cache.order ∧ chunk ∉ cache.survivors)

theorem Holds.fresh (holds : memory.Holds cache) (available : memory.Available cache chunk) :
    chunk ∉ cache.survivors := by
  intro member
  rcases available with free | ⟨-, gone⟩
  · have owned := holds.owned chunk (evict_sublist.subset member)
    rw [free] at owned
    cases owned
  · exact gone member

theorem kalloc_iff {evicted : CacheMemory}
    (result : Evicted memory evicted cache.order cache.survivors) :
    evicted.owner chunk = .free ↔ memory.Available cache chunk := by
  rw [result.owner]
  unfold Available
  split
  · rename_i gone
    exact iff_of_true rfl (Or.inr gone)
  · rename_i kept
    rw [or_iff_left kept]

theorem Holds.miss (holds : memory.Holds cache) (enough : cache.order.length < rounds)
    (missing : cache.find blockNo = none) (available : memory.Available cache chunk)
    (disk : Disk) :
    ∃ after, memory.cacheAcquire rounds chunk blockNo disk = some (chunk, after) ∧
      after.Holds
        { order := chunk :: cache.survivors
          heap := Function.update cache.heap chunk (.loaded blockNo (disk blockNo)) } ∧
      after.reads = memory.reads ++ [blockNo] := by
  obtain ⟨evicted, result, acquired⟩ := holds.room enough missing chunk disk
  have fresh := holds.fresh available
  have outside : CacheNode.node chunk ∉ CacheNode.head :: cache.survivors.map .node := by
    simp [fresh]
  have kept : IsRing (evicted.links.single (.node chunk)) .head (cache.survivors.map .node) := by
    apply result.ring.frame
    intro other member
    have different : other ≠ .node chunk := by
      intro same
      exact outside (same ▸ member)
    exact ⟨Function.update_of_ne different _ _, Function.update_of_ne different _ _⟩
  obtain ⟨links, linked, whole⟩ := @linkFirst_eq
    (initNode { evicted with owner := Function.update evicted.owner chunk .cache } chunk)
    cache.survivors chunk kept (IsRing.single _ _) fresh
  refine ⟨load { initNode { evicted with owner := Function.update evicted.owner chunk .cache } chunk
    with links := links } chunk blockNo disk, ?_, ⟨whole, ?_, ?_⟩, ?_⟩
  · rw [acquired]
    unfold kalloc
    rw [if_pos ((kalloc_iff result).mpr available)]
    simp only [Option.bind_some, linked]
  · change Function.update (Function.update evicted.heap chunk initBlock) chunk
      { Function.update evicted.heap chunk initBlock chunk with
        data := disk blockNo
        blockNo := blockNo
        valid := true
        acquired := true } = _
    rw [Function.update_self, Function.update_idem, result.heap, holds.heap]
    rfl
  · intro other member
    change Function.update evicted.owner chunk .cache other = .cache
    rcases List.mem_cons.mp member with same | left
    · rw [same, Function.update_self]
    · have different : other ≠ chunk := fun same => fresh (same ▸ left)
      rw [Function.update_of_ne different, result.owner, if_neg (fun gone => gone.2 left)]
      exact holds.owned other (evict_sublist.subset left)
  · change evicted.reads ++ [blockNo] = _
    rw [result.reads]

theorem Holds.miss_available (holds : memory.Holds cache) (enough : cache.order.length < rounds)
    (missing : cache.find blockNo = none) {returned : Addr}
    (acquired : memory.cacheAcquire rounds chunk blockNo disk = some (returned, after)) :
    memory.Available cache chunk := by
  obtain ⟨evicted, result, same⟩ := holds.room enough missing chunk disk
  rw [same] at acquired
  obtain ⟨allocated, success, -⟩ := Option.bind_eq_some_iff.mp acquired
  unfold kalloc at success
  split at success
  · rename_i free
    exact (kalloc_iff result).mp free
  · cases success

/-- What the code does to the links is what the section does to the list. -/
theorem Holds.refines (holds : memory.Holds cache) (enough : cache.order.length < rounds)
    (available : cache.find blockNo = none → memory.Available cache chunk) (disk : Disk) :
    ∃ after, memory.cacheAcquire rounds chunk blockNo disk =
        some ((cache.acquireSection chunk blockNo disk).1, after) ∧
      after.Holds (cache.acquireSection chunk blockNo disk).2 := by
  cases found : cache.find blockNo with
  | some addr =>
      obtain ⟨links, acquired, first⟩ := holds.hit enough found chunk disk
      rw [BlockCache.acquireSection_hit found]
      exact ⟨_, acquired, first⟩
  | none =>
      obtain ⟨after, acquired, first, -⟩ := holds.miss enough found (available found) disk
      rw [BlockCache.acquireSection_miss found, cache.evict_eq_survivors]
      exact ⟨after, acquired, first⟩

/-! More rounds do not change what a loop comes to. -/

theorem countLoop_more {p : Option CacheNode} {ret count : Nat}
    (counted : memory.countLoop rounds p ret = some count) (more : Nat) :
    memory.countLoop (rounds + more) p ret = some count := by
  induction rounds generalizing p ret with
  | zero => cases counted
  | succ rounds ih =>
      rw [Nat.add_right_comm]
      cases p with
      | none => cases counted
      | some p =>
          unfold countLoop at counted ⊢
          split at counted
          · rename_i same
            rw [if_pos same]
            exact counted
          · rename_i different
            rw [if_neg different]
            exact ih counted

theorem scanLoop_more {p : Option CacheNode} {found : Option Addr}
    (scanned : memory.scanLoop blockNo rounds p = some found) (more : Nat) :
    memory.scanLoop blockNo (rounds + more) p = some found := by
  induction rounds generalizing p with
  | zero => cases scanned
  | succ rounds ih =>
      rw [Nat.add_right_comm]
      cases p with
      | none => cases scanned
      | some p =>
          cases p with
          | head => exact scanned
          | node addr =>
              unfold scanLoop at scanned ⊢
              split at scanned
              · rename_i same
                rw [if_pos same]
                exact scanned
              · rename_i different
                rw [if_neg different]
                exact ih scanned

theorem evictionLoop_more {sz : Nat} {q : Option CacheNode}
    (looped : evictionLoop rounds memory sz q = some after) (more : Nat) :
    evictionLoop (rounds + more) memory sz q = some after := by
  induction rounds generalizing memory sz q with
  | zero => cases looped
  | succ rounds ih =>
      rw [Nat.add_right_comm]
      unfold evictionLoop at looped ⊢
      split at looped
      · rename_i large
        rw [if_pos large]
        split at looped
        · cases looped
        · exact looped
        · split at looped
          · rename_i may
            rw [if_pos may]
            split at looped
            · cases looped
            · exact ih looped
          · rename_i stays
            rw [if_neg stays]
            exact ih looped
      · rename_i small
        rw [if_neg small]
        exact looped

theorem makeRoom_more {sz : Nat} (made : memory.makeRoom rounds sz = some after) (more : Nat) :
    memory.makeRoom (rounds + more) sz = some after := by
  unfold makeRoom at made ⊢
  split at made
  · rename_i large
    rw [if_pos large]
    exact evictionLoop_more made more
  · rename_i small
    rw [if_neg small]
    exact made

theorem cacheAcquire_more {returned : Addr}
    (acquired : memory.cacheAcquire rounds chunk blockNo disk = some (returned, after))
    (more : Nat) :
    memory.cacheAcquire (rounds + more) chunk blockNo disk = some (returned, after) := by
  unfold cacheAcquire at acquired ⊢
  obtain ⟨found, scanned, acquired⟩ := Option.bind_eq_some_iff.mp acquired
  rw [scanLoop_more scanned more]
  cases found with
  | some addr => exact acquired
  | none =>
      obtain ⟨sz, counted, acquired⟩ := Option.bind_eq_some_iff.mp acquired
      have count := countLoop_more counted more
      obtain ⟨evicted, made, acquired⟩ := Option.bind_eq_some_iff.mp acquired
      unfold getNumCachedBlocks
      simp only [Option.bind_eq_bind, Option.bind_some, count, makeRoom_more made more]
      exact acquired

/-- Whatever the number of rounds, a section that comes to its end does this. -/
theorem Holds.acquired (holds : memory.Holds cache) {returned : Addr}
    (acquired : memory.cacheAcquire rounds chunk blockNo disk = some (returned, after)) :
    (cache.find blockNo = none → memory.Available cache chunk) ∧
      returned = (cache.acquireSection chunk blockNo disk).1 ∧
      after.Holds (cache.acquireSection chunk blockNo disk).2 := by
  have longer := cacheAcquire_more acquired (cache.order.length + 1)
  have enough : cache.order.length < rounds + (cache.order.length + 1) := by
    omega
  have available (missing : cache.find blockNo = none) := holds.miss_available enough missing longer
  obtain ⟨again, same, first⟩ := holds.refines enough available disk
  rw [longer] at same
  cases same
  exact ⟨available, rfl, first⟩

end Section

end CacheMemory

end LabKernel.Fs
