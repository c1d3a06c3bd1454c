/-
The block cache of `cache.c`: the list of cached blocks and the section of
`cache_acquire` under the cache lock.

Blocks live in memory at addresses; the list holds addresses, most recently
acquired first, as the links run from `head.next` to `head.prev`. Memory outside
the list keeps its content, as freed memory does until it is allocated again.
-/

import LabKernel.Common.Sem
import LabKernel.Fs.Defines

set_option autoImplicit false

namespace LabKernel.Fs

open Common

def evictionThreshold : Nat := 20

structure Block where
  blockNo : BlockNo
  acquired : Bool
  pinned : Bool
  lock : Semaphore
  valid : Bool
  data : BlockData

abbrev Addr := Nat

def initBlock : Block :=
  { blockNo := 0
    acquired := false
    pinned := false
    lock := initSem 1
    valid := false
    data := fun _ => 0 }

structure BlockCache where
  order : List Addr
  heap : Addr → Block

/-- `init_list_node(&head)`, over whatever the memory holds. -/
def BlockCache.empty (heap : Addr → Block) : BlockCache := { order := [], heap := heap }

def BlockCache.getNumCachedBlocks (cache : BlockCache) : Nat := cache.order.length

/-- The walk from `head.next` for a block number. -/
def BlockCache.find (cache : BlockCache) (blockNo : BlockNo) : Option Addr :=
  cache.order.find? (fun addr => (cache.heap addr).blockNo = blockNo)

/-- The test of the eviction loop. -/
def Block.evictable (block : Block) : Bool := !block.pinned && !block.acquired

/-- The eviction loop, over the nodes from `head.prev` on. -/
def evictLoop (heap : Addr → Block) : Nat → List Addr → List Addr
  | _, [] => []
  | size, addr :: rest =>
      if evictionThreshold ≤ size then
        if (heap addr).evictable then evictLoop heap (size - 1) rest
        else addr :: evictLoop heap size rest
      else addr :: rest

/-- The nodes left in the list when a miss allocates its block. -/
def BlockCache.evict (cache : BlockCache) : List Addr :=
  if evictionThreshold ≤ cache.getNumCachedBlocks then
    (evictLoop cache.heap cache.getNumCachedBlocks cache.order.reverse).reverse
  else cache.order

/-- A block allocated by a miss, as it is when the cache lock is released. -/
def Block.loaded (blockNo : BlockNo) (data : BlockData) : Block :=
  { initBlock with blockNo := blockNo, data := data, valid := true, acquired := true }

/-- `cache_acquire` up to the release of the cache lock: the node it will lock and
the list. `chunk` is what `kalloc` returns on a miss. -/
def BlockCache.acquireSection (cache : BlockCache) (chunk : Addr) (blockNo : BlockNo)
    (disk : Disk) : Addr × BlockCache :=
  match cache.find blockNo with
  | some addr => (addr, { cache with order := addr :: cache.order.erase addr })
  | none =>
      (chunk,
        { order := chunk :: cache.evict
          heap := Function.update cache.heap chunk (.loaded blockNo (disk blockNo)) })

/-- No node and no block number occurs twice in the list. -/
structure BlockCache.WellFormed (cache : BlockCache) : Prop where
  nodup : cache.order.Nodup
  unique : ∀ left ∈ cache.order, ∀ right ∈ cache.order,
    (cache.heap left).blockNo = (cache.heap right).blockNo → left = right

/-! ### Looking up -/

theorem BlockCache.find_some {cache : BlockCache} {blockNo : BlockNo} {addr : Addr}
    (found : cache.find blockNo = some addr) :
    addr ∈ cache.order ∧ (cache.heap addr).blockNo = blockNo := by
  have member := List.mem_of_find?_eq_some found
  have number := List.find?_some found
  exact ⟨member, of_decide_eq_true number⟩

theorem BlockCache.find_none {cache : BlockCache} {blockNo : BlockNo}
    (missing : cache.find blockNo = none) {addr : Addr} (member : addr ∈ cache.order) :
    (cache.heap addr).blockNo ≠ blockNo := by
  have absent := List.find?_eq_none.mp missing addr member
  exact fun same => absent (decide_eq_true same)

theorem BlockCache.WellFormed.find_eq {cache : BlockCache} (wellFormed : cache.WellFormed)
    {addr : Addr} (member : addr ∈ cache.order) :
    cache.find (cache.heap addr).blockNo = some addr := by
  cases found : cache.find (cache.heap addr).blockNo with
  | none => exact absurd rfl (find_none found member)
  | some other =>
      obtain ⟨otherMember, number⟩ := find_some found
      rw [wellFormed.unique other otherMember addr member number]

/-! ### Evicting -/

theorem evictLoop_sublist (heap : Addr → Block) (size : Nat) (nodes : List Addr) :
    (evictLoop heap size nodes).Sublist nodes := by
  induction nodes generalizing size with
  | nil => exact List.Sublist.refl []
  | cons addr rest ih =>
      unfold evictLoop
      split
      · split
        · exact (ih (size - 1)).cons addr
        · exact (ih size).cons_cons addr
      · exact List.Sublist.refl _

/-- The loop keeps a node that it may not evict, and one that it comes to when enough nodes
are gone. -/
theorem mem_evictLoop_iff {heap : Addr → Block} {addr : Addr} {nodes : List Addr}
    (member : addr ∈ nodes) (distinct : nodes.Nodup) (size : Nat) :
    addr ∈ evictLoop heap size nodes ↔ (heap addr).evictable = false ∨
      size - (nodes.takeWhile (fun node => node ≠ addr)).countP (fun node => (heap node).evictable) <
        evictionThreshold := by
  induction nodes generalizing size with
  | nil => cases member
  | cons first rest ih =>
      rw [List.nodup_cons] at distinct
      unfold evictLoop
      by_cases same : first = addr
      · subst same
        rw [List.takeWhile_cons_of_neg (by simp), List.countP_nil, Nat.sub_zero]
        split
        · rename_i large
          split
          · rename_i evicted
            constructor
            · intro again
              exact absurd ((evictLoop_sublist _ _ _).subset again) distinct.1
            · rintro (kept | small)
              · rw [evicted] at kept
                cases kept
              · omega
          · rename_i kept
            exact iff_of_true List.mem_cons_self (Or.inl (Bool.not_eq_true _ ▸ kept))
        · rename_i small
          exact iff_of_true List.mem_cons_self (Or.inr (Nat.lt_of_not_le small))
      · have later := (List.mem_cons.mp member).resolve_left (Ne.symm same)
        rw [List.takeWhile_cons_of_pos (by simpa using same), List.countP_cons]
        split
        · split
          · rw [ih later distinct.2, Nat.sub_sub, Nat.add_comm 1]
          · rw [List.mem_cons, ih later distinct.2, Nat.add_zero]
            exact or_iff_right (Ne.symm same)
        · rename_i small
          exact iff_of_true member (Or.inr (by omega))

/-- When every node may go, fewer than the threshold stay. -/
theorem evictLoop_length {heap : Addr → Block} {nodes : List Addr}
    (evictable : ∀ addr ∈ nodes, (heap addr).evictable = true) :
    (evictLoop heap nodes.length nodes).length < evictionThreshold := by
  induction nodes with
  | nil => exact Nat.zero_lt_succ 19
  | cons first rest ih =>
      unfold evictLoop
      split
      · rw [if_pos (evictable first List.mem_cons_self), List.length_cons, Nat.add_sub_cancel]
        exact ih (fun addr member => evictable addr (List.mem_cons_of_mem first member))
      · rename_i small
        exact Nat.lt_of_not_le small

theorem BlockCache.evict_sublist (cache : BlockCache) : cache.evict.Sublist cache.order := by
  unfold evict
  split
  · have reversed := (evictLoop_sublist cache.heap cache.getNumCachedBlocks
      cache.order.reverse).reverse
    rwa [List.reverse_reverse] at reversed
  · exact List.Sublist.refl _

/-- The evictable nodes that were acquired less recently than this one. -/
def BlockCache.evictableBehind (cache : BlockCache) (addr : Addr) : Nat :=
  (cache.order.reverse.takeWhile (fun node => node ≠ addr)).countP
    (fun node => (cache.heap node).evictable)

/-- A miss leaves a node in the list: there is room, a flag protects it, or enough nodes
behind it can go instead. -/
def BlockCache.Spares (cache : BlockCache) (addr : Addr) : Prop :=
  (cache.heap addr).evictable = false ∨
    cache.getNumCachedBlocks < evictionThreshold + cache.evictableBehind addr

instance (cache : BlockCache) (addr : Addr) : Decidable (cache.Spares addr) :=
  inferInstanceAs (Decidable (_ ∨ _))

theorem BlockCache.mem_evict_iff {cache : BlockCache} (distinct : cache.order.Nodup) {addr : Addr}
    (member : addr ∈ cache.order) : addr ∈ cache.evict ↔ cache.Spares addr := by
  unfold evict Spares
  split
  · rename_i large
    have least : 0 < evictionThreshold := by decide
    rw [List.mem_reverse, mem_evictLoop_iff (List.mem_reverse.mpr member)
      (distinct.perm (List.reverse_perm _).symm)]
    unfold evictableBehind
    constructor
    · rintro (kept | small)
      · exact Or.inl kept
      · exact Or.inr (by omega)
    · rintro (kept | small)
      · exact Or.inl kept
      · exact Or.inr (by omega)
  · rename_i small
    exact iff_of_true member (Or.inr (by omega))

/-- The node acquired last stays when every other node can go. -/
theorem BlockCache.spares_front {cache : BlockCache} (distinct : cache.order.Nodup) {addr : Addr}
    (front : cache.order.head? = some addr)
    (others : ∀ other ∈ cache.order, other ≠ addr → (cache.heap other).evictable = true) :
    cache.Spares addr := by
  right
  cases nodes : cache.order with
  | nil =>
      rw [nodes] at front
      cases front
  | cons first rest =>
      rw [nodes] at front distinct others
      obtain rfl : first = addr := Option.some.inj front
      have absent := (List.nodup_cons.mp distinct).1
      have behind : cache.evictableBehind first = rest.length := by
        unfold evictableBehind
        rw [nodes, List.reverse_cons, List.takeWhile_append_of_pos, List.takeWhile_cons_of_neg,
          List.append_nil, List.countP_eq_length.mpr, List.length_reverse]
        · intro node member
          have present := List.mem_reverse.mp member
          apply others node (List.mem_cons_of_mem first present)
          intro same
          subst same
          exact absent present
        · simp only [ne_eq, not_true_eq_false, decide_false, Bool.false_eq_true, not_false_eq_true]
        · intro node member
          rw [decide_eq_true_iff]
          intro same
          subst same
          exact absent (List.mem_reverse.mp member)
      unfold getNumCachedBlocks evictionThreshold
      rw [behind, nodes, List.length_cons]
      omega

theorem BlockCache.evict_length {cache : BlockCache}
    (evictable : ∀ addr ∈ cache.order, (cache.heap addr).evictable = true) :
    cache.evict.length < evictionThreshold := by
  unfold evict
  split
  · have size : cache.getNumCachedBlocks = cache.order.reverse.length :=
      List.length_reverse.symm
    rw [List.length_reverse, size]
    apply evictLoop_length
    intro addr member
    exact evictable addr (List.mem_reverse.mp member)
  · rename_i small
    exact Nat.lt_of_not_le small

/-! ### The section of an acquire -/

theorem BlockCache.acquireSection_hit {cache : BlockCache} {blockNo : BlockNo} {addr : Addr}
    (found : cache.find blockNo = some addr) (chunk : Addr) (disk : Disk) :
    cache.acquireSection chunk blockNo disk =
      (addr, { cache with order := addr :: cache.order.erase addr }) := by
  unfold acquireSection
  rw [found]

theorem BlockCache.acquireSection_miss {cache : BlockCache} {blockNo : BlockNo}
    (missing : cache.find blockNo = none) (chunk : Addr) (disk : Disk) :
    cache.acquireSection chunk blockNo disk =
      (chunk, { order := chunk :: cache.evict
                heap := Function.update cache.heap chunk (.loaded blockNo (disk blockNo)) }) := by
  unfold acquireSection
  rw [missing]

/-- What the section of an acquire does to the cache: the node it returns carries the
number and is first, every other node was there before and is untouched, and only
nodes that a miss does not spare can be gone. -/
structure BlockCache.Fetched (before : BlockCache) (blockNo : BlockNo) (disk : Disk)
    (addr : Addr) (after : BlockCache) : Prop where
  wellFormed : after.WellFormed
  member : addr ∈ after.order
  number : (after.heap addr).blockNo = blockNo
  others : ∀ other ∈ after.order, other ≠ addr →
    other ∈ before.order ∧ after.heap other = before.heap other
  front : after.order.head? = some addr
  kept : ∀ other ∈ before.order, before.Spares other →
    other ∈ after.order ∧ after.heap other = before.heap other
  outcome : (addr ∈ before.order ∧ after.heap = before.heap ∧
      ∀ other, other ∈ after.order ↔ other ∈ before.order) ∨
    (before.find blockNo = none ∧ after.heap addr = .loaded blockNo (disk blockNo))

theorem BlockCache.WellFormed.fetched {cache : BlockCache} (wellFormed : cache.WellFormed)
    {chunk : Addr} (blockNo : BlockNo) (disk : Disk) (fresh : chunk ∉ cache.evict) :
    cache.Fetched blockNo disk (cache.acquireSection chunk blockNo disk).1
      (cache.acquireSection chunk blockNo disk).2 := by
  cases found : cache.find blockNo with
  | some addr =>
      obtain ⟨member, number⟩ := find_some found
      rw [acquireSection_hit found]
      have nodes (other : Addr) :
          other ∈ addr :: cache.order.erase addr ↔ other ∈ cache.order := by
        rw [List.mem_cons, wellFormed.nodup.mem_erase_iff]
        constructor
        · rintro (rfl | ⟨_, present⟩)
          · exact member
          · exact present
        · intro present
          by_cases same : other = addr
          · exact Or.inl same
          · exact Or.inr ⟨same, present⟩
      refine
        { wellFormed := ⟨?_, ?_⟩
          member := List.mem_cons_self
          number := number
          others := fun other present _ => ⟨(nodes other).mp present, rfl⟩
          front := rfl
          kept := fun other present _ => ⟨(nodes other).mpr present, rfl⟩
          outcome := Or.inl ⟨member, rfl, nodes⟩ }
      · exact List.nodup_cons.mpr
          ⟨fun again => (wellFormed.nodup.mem_erase_iff.mp again).1 rfl,
            wellFormed.nodup.erase addr⟩
      · intro left leftMember right rightMember same
        exact wellFormed.unique left ((nodes left).mp leftMember) right
          ((nodes right).mp rightMember) same
  | none =>
      rw [acquireSection_miss found]
      have older : ∀ other ∈ cache.evict, other ∈ cache.order :=
        fun other present => cache.evict_sublist.subset present
      have untouched (other : Addr) (present : other ∈ cache.evict) :
          Function.update cache.heap chunk (.loaded blockNo (disk blockNo)) other =
            cache.heap other := by
        have different : other ≠ chunk := by
          intro same
          subst same
          exact fresh present
        exact Function.update_of_ne different _ _
      have loaded : Function.update cache.heap chunk (Block.loaded blockNo (disk blockNo)) chunk =
          .loaded blockNo (disk blockNo) := Function.update_self _ _ _
      refine
        { wellFormed := ⟨?_, ?_⟩
          member := List.mem_cons_self
          number := congrArg Block.blockNo loaded
          others := ?_
          front := rfl
          kept := ?_
          outcome := Or.inr ⟨found, loaded⟩ }
      · exact List.nodup_cons.mpr ⟨fresh, wellFormed.nodup.sublist cache.evict_sublist⟩
      · intro left leftMember right rightMember same
        rcases List.mem_cons.mp leftMember with rfl | leftOld <;>
          rcases List.mem_cons.mp rightMember with rfl | rightOld
        · rfl
        · simp only [loaded, untouched right rightOld] at same
          exact absurd same.symm (find_none found (older right rightOld))
        · simp only [loaded, untouched left leftOld] at same
          exact absurd same (find_none found (older left leftOld))
        · simp only [untouched left leftOld, untouched right rightOld] at same
          exact wellFormed.unique left (older left leftOld) right (older right rightOld) same
      · intro other present different
        have old := (List.mem_cons.mp present).resolve_left different
        exact ⟨older other old, untouched other old⟩
      · intro other present stays
        have left := (mem_evict_iff wellFormed.nodup present).mpr stays
        exact ⟨List.mem_cons_of_mem chunk left, untouched other left⟩

/-- A node that a miss leaves in the list is untouched by the section. -/
theorem BlockCache.WellFormed.section_keeps {cache : BlockCache} (wellFormed : cache.WellFormed)
    {chunk : Addr} {blockNo : BlockNo} (disk : Disk) (fresh : chunk ∉ cache.evict) {other : Addr}
    (member : other ∈ cache.order) (spared : cache.find blockNo = none → cache.Spares other) :
    other ∈ (cache.acquireSection chunk blockNo disk).2.order ∧
      (cache.acquireSection chunk blockNo disk).2.heap other = cache.heap other := by
  cases found : cache.find blockNo with
  | some addr =>
      rw [acquireSection_hit found]
      refine ⟨?_, rfl⟩
      by_cases same : other = addr
      · exact List.mem_cons.mpr (Or.inl same)
      · exact List.mem_cons_of_mem addr ((List.mem_erase_of_ne same).mpr member)
  | none =>
      rw [acquireSection_miss found]
      have left := (mem_evict_iff wellFormed.nodup member).mpr (spared found)
      constructor
      · exact List.mem_cons_of_mem chunk left
      · have different : other ≠ chunk := by
          intro same
          subst same
          exact fresh left
        exact Function.update_of_ne different _ _

/-- After a miss a node is the new one, or one that was not evicted. -/
theorem BlockCache.section_missed {cache : BlockCache} {blockNo : BlockNo}
    (missing : cache.find blockNo = none) {chunk other : Addr} {disk : Disk}
    (fresh : chunk ∉ cache.evict)
    (member : other ∈ (cache.acquireSection chunk blockNo disk).2.order) :
    (other = chunk ∧ (cache.acquireSection chunk blockNo disk).2.heap other =
        .loaded blockNo (disk blockNo)) ∨
      (other ≠ chunk ∧ other ∈ cache.evict ∧
        (cache.acquireSection chunk blockNo disk).2.heap other = cache.heap other) := by
  rw [acquireSection_miss missing] at member ⊢
  rcases List.mem_cons.mp member with rfl | older
  · exact Or.inl ⟨rfl, Function.update_self _ _ _⟩
  · have different : other ≠ chunk := by
      intro same
      subst same
      exact fresh older
    exact Or.inr ⟨different, older, Function.update_of_ne different _ _⟩

end LabKernel.Fs
