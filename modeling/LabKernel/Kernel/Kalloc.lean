/-
Whole runs of `kalloc` and `kfree`.

In every state that a run reaches the memory has a layout, so a block has its chunk for
itself, and a call changes no byte of a block it is not about.
-/

import LabKernel.Kernel.Blocks

set_option autoImplicit false

namespace LabKernel.Kernel

open ByteMemory Transition

section Runs

variable {poolAddr : Nat} {pages : List Nat} {heap after : Heap} {owner : Nat → Option Use}
  {free : List Nat} {pools : Nat → List Nat}

def Heap.LaidOut (poolAddr : Nat) (pages : List Nat) (heap : Heap) : Prop :=
  ∃ owner free pools, Layout poolAddr pages heap owner free pools

theorem Heap.LaidOut.initial (ok : PagesOk pages) (bytes : Memory) :
    (Heap.initial bytes pages).LaidOut poolAddr pages := by
  obtain ⟨owner, layout, -⟩ := Layout.earlyInit ok pages _ _ [] (Layout.initial ok bytes)
    ok.distinct (fun page member => if_pos member)
  exact ⟨owner, _, _, layout⟩

/-- What a page taken for nothing leaves. -/
theorem Layout.leak (layout : Layout poolAddr pages heap owner free pools) :
    (heap.setMem heap.mem.kallocPage.2).LaidOut poolAddr pages ∧
      heap.mem.kallocPage.2.bytes = heap.mem.bytes ∧
      heap.mem.kallocPage.2.pool = heap.mem.pool := by
  unfold Mem.kallocPage
  cases head : heap.mem.freePage with
  | none => exact ⟨⟨owner, free, pools, layout.setCount _⟩, rfl, rfl⟩
  | some page =>
      obtain ⟨-, rest, -, taken⟩ := layout.takePage head (heap.mem.count + 1)
      exact ⟨⟨_, _, _, taken⟩, rfl, rfl⟩

theorem Layout.block_bytes (layout : Layout poolAddr pages heap owner free pools) {addr : Nat}
    {use : Use} (known : owner addr = some use) {bytes : Memory}
    (same : SameOutside heap.mem.bytes bytes addr use.length) {block : Block}
    (member : block ∈ heap.live) (other : block.addr - 8 ≠ addr) {place : Nat}
    (within : place < block.size + 8) :
    bytes (block.addr - 8 + place) = heap.mem.bytes (block.addr - 8 + place) := by
  obtain ⟨-, mine⟩ := (layout.liveMembers block).mp member
  have fits := (layout.headers _ _ _ mine).fits
  apply same
  rcases layout.pieces.apart _ _ _ _ mine known other with below | above
  · left
    change block.addr - 8 + chunkSize (sizeClass block.size) ≤ addr at below
    omega
  · right
    omega

structure Allocated (poolAddr : Nat) (pages : List Nat) (heap : Heap) (size : Int)
    (after : Heap) : Prop where
  laidOut : after.LaidOut poolAddr pages
  result : after.live = heap.live ∨
    ∃ addr, after.live = { addr := addr, size := size.toNat } :: heap.live ∧
      ∀ place, place < size.toNat → after.mem.bytes (addr + place) = 0
  others : ∀ block ∈ heap.live, ∀ place, place < block.size + 8 →
    after.mem.bytes (block.addr - 8 + place) = heap.mem.bytes (block.addr - 8 + place)

def Heap.alloc (heap : Heap) (size : Nat) : Option Nat × Mem → Heap
  | (none, mem) => { heap with mem := mem }
  | (some addr, mem) =>
      { heap with mem := mem, live := { addr := addr, size := size } :: heap.live }

theorem Layout.poolAlloc (layout : Layout poolAddr pages heap owner free pools)
    (ok : PagesOk pages) (address : poolAddr + 8 * 16 ≤ 2 ^ 64) {size : Int}
    (positive : 0 < size.toNat) (bounded : size.toNat ≤ pageSize - 8) :
    Allocated poolAddr pages heap size
      (heap.alloc size.toNat (heap.mem.poolAlloc poolAddr size.toNat)) := by
  cases head : heap.mem.pool (sizeClass size.toNat) with
  | some chunk =>
      obtain ⟨known, mem, pools', taken, kept, same, zero, -⟩ :=
        layout.fromPool address positive bounded head
      rw [taken]
      refine ⟨⟨_, _, _, kept⟩, Or.inr ⟨chunk + 8, rfl, zero⟩, ?_⟩
      intro block member place within
      apply layout.block_bytes known same member _ within
      intro equal
      have mine := ((layout.liveMembers block).mp member).2
      rw [equal, known] at mine
      cases mine
  | none =>
      cases first : heap.mem.freePage with
      | none =>
          have failed : heap.mem.poolAlloc poolAddr size.toNat =
              (none, heap.mem.setCount (heap.mem.count + 1)) := by
            simp only [Mem.poolAlloc, Mem.kallocPage, head, first]
          rw [failed]
          exact ⟨⟨owner, free, pools, layout.setCount _⟩, Or.inl rfl, fun _ _ _ _ => rfl⟩
      | some page =>
          obtain ⟨known, mem, owner', rest, pools', taken, -, kept, -, -, -, same, zero, -⟩ :=
            layout.fromPage ok address positive bounded head first
          rw [taken]
          refine ⟨⟨_, _, _, kept⟩, Or.inr ⟨page + 8, rfl, zero⟩, ?_⟩
          intro block member place within
          apply layout.block_bytes known same member _ within
          intro equal
          have mine := ((layout.liveMembers block).mp member).2
          rw [equal, known] at mine
          cases mine

theorem Heap.LaidOut.kalloc (laidOut : heap.LaidOut poolAddr pages) (ok : PagesOk pages)
    (address : poolAddr + 8 * 16 ≤ 2 ^ 64) (size : Int) :
    Allocated poolAddr pages heap size
      (heap.alloc size.toNat (heap.mem.simplePoolAlloc poolAddr size)) := by
  obtain ⟨owner, free, pools, layout⟩ := laidOut
  unfold Mem.simplePoolAlloc
  split
  · exact ⟨⟨owner, free, pools, layout⟩, Or.inl rfl, fun _ _ _ _ => rfl⟩
  · rename_i valid
    have positive : 0 < size.toNat := by
      simp only [pageSize] at valid
      omega
    have bounded : size.toNat ≤ pageSize - 8 := by
      simp only [pageSize] at valid ⊢
      omega
    split
    · obtain ⟨⟨owner', free', pools', leaked⟩, bytes, -⟩ := layout.leak
      obtain ⟨kept, result, others⟩ := leaked.poolAlloc ok address positive bounded
      refine ⟨?_, ?_, ?_⟩
      · exact kept
      · exact result
      · intro block member place within
        have same := others block member place within
        simp only [Heap.setMem] at same
        rw [← bytes]
        exact same
    · exact layout.poolAlloc ok address positive bounded

theorem memStep_kalloc (poolAddr : Nat) (heap : Heap) (size : Int) :
    memStep poolAddr heap (.kalloc size) =
      .ok (heap.alloc size.toNat (heap.mem.simplePoolAlloc poolAddr size)) := by
  simp only [memStep]
  cases heap.mem.simplePoolAlloc poolAddr size with
  | mk result mem =>
      cases result with
      | none => rfl
      | some addr => rfl

/-- Every call goes through, unless its caller could not make it. -/
theorem Heap.LaidOut.step (laidOut : heap.LaidOut poolAddr pages) (ok : PagesOk pages)
    (address : poolAddr + 8 * 16 ≤ 2 ^ 64) (action : MemAction) :
    memStep poolAddr heap action = .error .disabled ∨
      ∃ after, memStep poolAddr heap action = .ok after ∧ after.LaidOut poolAddr pages := by
  obtain ⟨owner, free, pools, layout⟩ := id laidOut
  cases action with
  | kallocPage =>
      simp only [memStep, Mem.kallocPage]
      cases head : heap.mem.freePage with
      | none => exact Or.inr ⟨_, rfl, owner, free, pools, layout.setCount _⟩
      | some page =>
          obtain ⟨-, rest, -, taken⟩ := layout.kallocPage head (heap.mem.count + 1)
          exact Or.inr ⟨_, rfl, _, _, _, taken⟩
  | kfreePage page =>
      simp only [memStep]
      split
      · rename_i member
        exact Or.inr ⟨_, rfl, _, _, _, (layout.kfreePage ok member).2⟩
      · exact Or.inl rfl
  | kalloc size =>
      rw [memStep_kalloc]
      exact Or.inr ⟨_, rfl, (laidOut.kalloc ok address size).laidOut⟩
  | kfree block =>
      simp only [memStep]
      split
      · rename_i member
        obtain ⟨-, freed, kept⟩ := layout.kfree ok member
        rw [freed]
        exact Or.inr ⟨_, rfl, _, _, _, kept⟩
      · exact Or.inl rfl
  | writeBlock block offset byte =>
      simp only [memStep]
      split
      · rename_i allowed
        exact Or.inr ⟨_, rfl, owner, free, pools, layout.writeBlock allowed.1 allowed.2 byte⟩
      · exact Or.inl rfl
  | writePage page offset byte =>
      simp only [memStep]
      split
      · rename_i allowed
        exact Or.inr ⟨_, rfl, owner, free, pools, layout.writePage allowed.1 allowed.2 byte⟩
      · exact Or.inl rfl

theorem Heap.LaidOut.of_reachable (ok : PagesOk pages) (address : poolAddr + 8 * 16 ≤ 2 ^ 64)
    {bytes : Memory} (reached : Reachable (memStep poolAddr) (Heap.initial bytes pages) heap) :
    heap.LaidOut poolAddr pages := by
  apply reached.invariant (Heap.LaidOut.initial ok bytes)
  intro before action after laidOut taken
  rcases laidOut.step ok address action with stopped | ⟨final, went, kept⟩
  · rw [stopped] at taken
    cases taken
  · rw [taken] at went
    cases went
    exact kept

/-! ### Disjoint chunks -/

/-- The chunks of the live blocks and those on the lists of the pools, with their lengths. -/
def Heap.chunks (heap : Heap) (pools : Nat → List Nat) : List (Nat × Nat) :=
  heap.live.map (fun block => (block.addr - 8, chunkSize (sizeClass block.size))) ++
    (List.range 16).flatMap (fun index =>
      (pools index).map (fun chunk => (chunk, chunkSize index)))

def Apart (first second : Nat × Nat) : Prop :=
  first.1 + first.2 ≤ second.1 ∨ second.1 + second.2 ≤ first.1

theorem Layout.chunks_apart (layout : Layout poolAddr pages heap owner free pools) :
    (heap.chunks pools).Pairwise Apart := by
  have chunk : ∀ {index addr}, addr ∈ pools index → owner addr = some (.chunk index) :=
    fun {index addr} member => ((layout.poolList index).members addr).mp member
  have block : ∀ {block}, block ∈ heap.live → 8 ≤ block.addr ∧
      owner (block.addr - 8) = some (.block (sizeClass block.size) block.size) :=
    fun {block} member => (layout.liveMembers block).mp member
  unfold Heap.chunks
  rw [List.pairwise_append]
  refine ⟨?_, ?_, ?_⟩
  · rw [List.pairwise_map]
    apply List.Pairwise.imp_of_mem _ layout.liveDistinct
    intro one two member member' different
    obtain ⟨above, mine⟩ := block member
    obtain ⟨above', its⟩ := block member'
    apply layout.pieces.apart _ _ _ _ mine its
    intro same
    rw [same, its] at mine
    apply different
    cases one with
    | mk addr size =>
        cases two with
        | mk addr' size' =>
            simp only [Option.some.injEq, Use.block.injEq] at mine
            simp only at same above above'
            rw [Block.mk.injEq]
            exact ⟨by omega, mine.2.symm⟩
  · rw [List.pairwise_flatMap]
    constructor
    · intro index _
      rw [List.pairwise_map]
      apply List.Pairwise.imp_of_mem _ (layout.poolList index).distinct
      intro one two member member' different
      exact layout.pieces.apart _ _ _ _ (chunk member) (chunk member') different
    · apply List.Pairwise.imp _ List.nodup_range
      intro index index' different first listed second listed'
      obtain ⟨one, member, rfl⟩ := List.mem_map.mp listed
      obtain ⟨two, member', rfl⟩ := List.mem_map.mp listed'
      apply layout.pieces.apart _ _ _ _ (chunk member) (chunk member')
      intro same
      have mine := chunk member
      rw [same, chunk member'] at mine
      simp only [Option.some.injEq, Use.chunk.injEq] at mine
      exact different mine.symm
  · intro first listed second listed'
    obtain ⟨one, member, rfl⟩ := List.mem_map.mp listed
    obtain ⟨index, -, inner⟩ := List.mem_flatMap.mp listed'
    obtain ⟨two, member', rfl⟩ := List.mem_map.mp inner
    apply layout.pieces.apart _ _ _ _ (block member).2 (chunk member')
    intro same
    have mine := (block member).2
    rw [same, chunk member'] at mine
    cases mine

end Runs

/-- Blocks are cut from pages, each with its chunk to itself, and the calls leave the others
alone. -/
theorem kalloc_blocks_disjoint {poolAddr : Nat} {pages : List Nat} (ok : PagesOk pages)
    (address : poolAddr + 8 * 16 ≤ 2 ^ 64) {bytes : Memory} {heap : Heap}
    (reached : Reachable (memStep poolAddr) (Heap.initial bytes pages) heap) :
    (∀ block ∈ heap.live, block.addr % 8 = 0 ∧ 8 ≤ block.addr ∧
      block.size + 8 ≤ chunkSize (sizeClass block.size) ∧
      ∃ page ∈ pages, page ≤ block.addr - 8 ∧
        block.addr - 8 + chunkSize (sizeClass block.size) ≤ page + pageSize) ∧
    (∃ pools, (∀ index, Chain (nextOf heap.mem.bytes) (heap.mem.pool index) (pools index)) ∧
      (heap.chunks pools).Pairwise Apart) ∧
    (∀ size, ∃ after, memStep poolAddr heap (.kalloc size) = .ok after ∧
      (after.live = heap.live ∨
        ∃ addr, after.live = { addr := addr, size := size.toNat } :: heap.live ∧
          ∀ place, place < size.toNat → after.mem.bytes (addr + place) = 0) ∧
      ∀ block ∈ heap.live, ∀ place, place < block.size + 8 →
        after.mem.bytes (block.addr - 8 + place) = heap.mem.bytes (block.addr - 8 + place)) ∧
    (∀ freed ∈ heap.live, ∃ after, memStep poolAddr heap (.kfree freed) = .ok after ∧
      after.live = heap.live.erase freed ∧
      (∀ index, ∃ nodes, Chain (nextOf heap.mem.bytes) (heap.mem.pool index) nodes ∧
        Chain (nextOf after.mem.bytes) (after.mem.pool index)
          (if index = sizeClass freed.size then (freed.addr - 8) :: nodes else nodes)) ∧
      ∀ block ∈ heap.live, block ≠ freed → ∀ place, place < block.size + 8 →
        after.mem.bytes (block.addr - 8 + place) =
          heap.mem.bytes (block.addr - 8 + place)) := by
  have laidOut := Heap.LaidOut.of_reachable ok address reached
  obtain ⟨owner, free, pools, layout⟩ := id laidOut
  refine ⟨?_, ?_, ?_, ?_⟩
  · intro block member
    obtain ⟨above, known⟩ := (layout.liveMembers block).mp member
    have aligned := layout.pieces.aligned _ _ known
    change (block.addr - 8) % (16 * 2 ^ sizeClass block.size) = 0 at aligned
    refine ⟨?_, above, (layout.headers _ _ _ known).fits, layout.pieces.inside _ _ known⟩
    have whole : (block.addr - 8) % 16 = 0 :=
      Nat.mod_eq_zero_of_dvd (Nat.dvd_trans (Nat.dvd_mul_right 16 _)
        (Nat.dvd_of_mod_eq_zero aligned))
    omega
  · exact ⟨pools, fun index => (layout.poolList index).chain, layout.chunks_apart⟩
  · intro size
    obtain ⟨-, result, others⟩ := laidOut.kalloc ok address size
    exact ⟨_, memStep_kalloc poolAddr heap size, result, others⟩
  · intro freed member
    obtain ⟨known, went, kept⟩ := layout.kfree ok member
    refine ⟨_, by simp only [memStep, member, if_true, went]; rfl, rfl, ?_, ?_⟩
    · intro index
      refine ⟨pools index, (layout.poolList index).chain, ?_⟩
      have chain := (kept.poolList index).chain
      rw [Function.update_apply] at chain
      split at chain
      · rename_i same
        rw [if_pos same, same]
        rw [same] at chain
        exact chain
      · rename_i different
        rw [if_neg different]
        exact chain
    · intro block other different place within
      apply layout.block_bytes known _ other _ within
      · apply (writeWord_outside _ _ _).widen (Nat.le_refl _)
        have long := Use.length_ge (.block (sizeClass freed.size) freed.size)
        omega
      · intro same
        have mine := (layout.liveMembers block).mp other
        have its := (layout.liveMembers freed).mp member
        rw [same, its.2] at mine
        apply different
        cases block with
        | mk addr size =>
            cases freed with
            | mk addr' size' =>
                simp only [Option.some.injEq, Use.block.injEq] at mine
                simp only at same its
                rw [Block.mk.injEq]
                exact ⟨by omega, mine.2.2.symm⟩

theorem PagesOk.two : PagesOk [4096, 8192] := by
  constructor
  · decide
  · decide
  · decide
  · decide

/-- Blocks of two sizes on two pages, one of them freed and its chunk used again. -/
theorem kalloc_blocks_disjoint_reused :
    ∃ heap, Reachable (memStep 1024) (Heap.initial (fun _ => 255) [4096, 8192]) heap ∧
      heap.live = [{ addr := 8200, size := 1016 }, { addr := 4104, size := 500 }] ∧
      ∃ pools, (heap.chunks pools).Pairwise Apart := by
  have passed : checkRun (memStep 1024) (fun _ _ => true)
      (fun heap => heap.live = [{ addr := 8200, size := 1016 }, { addr := 4104, size := 500 }])
      (Heap.initial (fun _ => 255) [4096, 8192])
      [.kalloc 1000, .kalloc 500, .kfree { addr := 8200, size := 1000 }, .kalloc 1016] = true := by
    decide +kernel
  obtain ⟨heap, reached, live⟩ := Reachable.of_checkRun passed
  obtain ⟨-, ⟨pools, -, apart⟩, -⟩ := kalloc_blocks_disjoint PagesOk.two (by decide) reached
  exact ⟨heap, reached, of_decide_eq_true live, pools, apart⟩

end LabKernel.Kernel
