/-
The blocks that `kalloc` returns.

A page is cut into chunks of one size, and a block goes into the first chunk of its pool. The
chunks of the blocks and those on the lists never overlap.
-/

import LabKernel.Kernel.Layout
import LabKernel.Lib.Transition

set_option autoImplicit false

namespace LabKernel.Kernel

open ByteMemory Transition

/-! ### Size classes -/

/-- A block and its header fit into a chunk of their pool, and there are nine pools. -/
theorem sizeClass_fits {size : Nat} (positive : 0 < size) (bounded : size ≤ pageSize - 8) :
    sizeClass size ≤ 8 ∧ size + 8 ≤ chunkSize (sizeClass size) := by
  have nonzero : size + 8 - 1 ≠ 0 := by omega
  have upper : Nat.log2 (size + 8 - 1) < 12 := by
    rw [Nat.log2_lt nonzero]
    simp only [pageSize] at bounded
    omega
  have lower : 3 ≤ Nat.log2 (size + 8 - 1) := by
    rw [Nat.le_log2 nonzero]
    omega
  have index : sizeClass size = Nat.log2 (size + 8 - 1) - 3 := by
    unfold sizeClass clz
    omega
  rw [index]
  constructor
  · exact by omega
  · have below : size + 8 - 1 < 2 ^ (Nat.log2 (size + 8 - 1) + 1) := Nat.lt_log2_self
    have power : chunkSize (Nat.log2 (size + 8 - 1) - 3) = 2 ^ (Nat.log2 (size + 8 - 1) + 1) := by
      unfold chunkSize
      rw [show (16 : Nat) = 2 ^ 4 from rfl, ← Nat.pow_add]
      congr 1
      omega
    rw [power]
    omega

/-! ### Cutting a page -/

def subdivide (owner : Nat → Option Use) (page index : Nat) : Nat → Option Use :=
  fun addr =>
    if page ≤ addr ∧ addr < page + pageSize then
      if (addr - page) % chunkSize index = 0 then some (.raw index) else none
    else owner addr

section Subdivide

variable {pages : List Nat} {owner : Nat → Option Use} {page index addr : Nat} {use kind : Use}

theorem subdivide_cases (now : subdivide owner page index addr = some use) :
    (use = .raw index ∧ ∃ place, addr = page + place * chunkSize index ∧
      place * chunkSize index < pageSize) ∨
    ((addr < page ∨ page + pageSize ≤ addr) ∧ owner addr = some use) := by
  unfold subdivide at now
  split at now
  · rename_i inside
    split at now
    · rename_i multiple
      left
      refine ⟨(Option.some.inj now).symm, (addr - page) / chunkSize index, ?_, ?_⟩
      · rw [Nat.div_mul_cancel (Nat.dvd_of_mod_eq_zero multiple)]
        omega
      · rw [Nat.div_mul_cancel (Nat.dvd_of_mod_eq_zero multiple)]
        omega
    · cases now
  · rename_i outside
    right
    exact ⟨by omega, now⟩

theorem subdivide_chunk {place : Nat} (within : place * chunkSize index < pageSize) :
    subdivide owner page index (page + place * chunkSize index) = some (.raw index) := by
  unfold subdivide
  rw [if_pos (by omega), Nat.add_sub_cancel_left, if_pos (Nat.mul_mod_left _ _)]

theorem Pieces.in_page (pieces : Pieces pages owner) (known : owner page = some .lostPage)
    (above : page ≤ addr) (below : addr < page + pageSize) (its : owner addr = some use) :
    addr = page ∧ use = .lostPage := by
  by_cases same : addr = page
  · rw [same, known] at its
    exact ⟨same, (Option.some.inj its).symm⟩
  · have long := use.length_ge
    have whole : Use.length .lostPage = pageSize := rfl
    rcases pieces.apart addr page use .lostPage its known same with left | right
    · omega
    · rw [whole] at right
      omega

theorem chunk_end (small : index ≤ 8) {place : Nat} (within : place * chunkSize index < pageSize) :
    place * chunkSize index + chunkSize index ≤ pageSize := by
  obtain ⟨count, whole⟩ := chunkSize_dvd small
  rw [whole, Nat.mul_comm (chunkSize index) count] at within ⊢
  have less : place < count := Nat.lt_of_mul_lt_mul_right within
  rw [← Nat.succ_mul]
  exact Nat.mul_le_mul_right _ less

theorem Pieces.subdivide (pieces : Pieces pages owner) (known : owner page = some .lostPage)
    (small : index ≤ 8) : Pieces pages (subdivide owner page index) := by
  have whole : Use.length .lostPage = pageSize := rfl
  have pageAligned := pieces.aligned page .lostPage known
  have chunk : Use.length (.raw index) = chunkSize index := rfl
  constructor
  · intro addr use now
    rcases subdivide_cases now with ⟨equal, place, at_, within⟩ | ⟨-, its⟩
    · rw [equal, at_, chunk]
      apply Nat.mod_eq_zero_of_dvd
      apply Nat.dvd_add
      · exact Nat.dvd_trans (chunkSize_dvd small) (Nat.dvd_of_mod_eq_zero pageAligned)
      · exact Nat.dvd_mul_left _ _
    · exact pieces.aligned addr use its
  · intro addr use now
    rcases subdivide_cases now with ⟨equal, place, at_, within⟩ | ⟨-, its⟩
    · obtain ⟨outer, member, below, above⟩ := pieces.inside page .lostPage known
      have ends := chunk_end small within
      refine ⟨outer, member, by omega, ?_⟩
      rw [equal, chunk]
      rw [whole] at above
      omega
    · exact pieces.inside addr use its
  · intro addr use now
    rcases subdivide_cases now with ⟨equal, -⟩ | ⟨-, its⟩
    · rw [equal]
      exact small
    · exact pieces.pooled addr use its
  · have outer : ∀ {addr other use place}, owner other = some use →
        (other < page ∨ page + pageSize ≤ other) → addr = page + place * chunkSize index →
        place * chunkSize index < pageSize →
          addr + chunkSize index ≤ other ∨ other + use.length ≤ addr := by
      intro addr other use place its outside at_ within
      have ends := chunk_end small within
      have different : other ≠ page := by
        intro same
        rw [same] at outside
        simp only [pageSize] at outside
        omega
      rcases pieces.apart other page use .lostPage its known different with left | right
      · omega
      · rw [whole] at right
        omega
    intro addr other use use' now now' different
    rcases subdivide_cases now with ⟨equal, place, at_, within⟩ | ⟨outside, its⟩
    · rcases subdivide_cases now' with ⟨equal', place', at', within'⟩ | ⟨outside', its'⟩
      · rw [equal, equal', chunk]
        rcases Nat.lt_trichotomy place place' with less | same | more
        · have step := Nat.mul_le_mul_right (chunkSize index) (Nat.succ_le_of_lt less)
          rw [Nat.succ_mul] at step
          omega
        · rw [at_, at', same] at different
          exact absurd rfl different
        · have step := Nat.mul_le_mul_right (chunkSize index) (Nat.succ_le_of_lt more)
          rw [Nat.succ_mul] at step
          omega
      · rw [equal, chunk]
        exact outer its' outside' at_ within
    · rcases subdivide_cases now' with ⟨equal', place', at', within'⟩ | ⟨outside', its'⟩
      · rw [equal', chunk]
        exact (outer its outside at' within').symm
      · exact pieces.apart addr other use use' its its' different

/-- Uses other than that of the page and of its chunks are as before. -/
theorem Pieces.subdivide_other (pieces : Pieces pages owner)
    (known : owner page = some .lostPage) (old : kind ≠ .lostPage) (new : kind ≠ .raw index) :
    Kernel.subdivide owner page index addr = some kind ↔ owner addr = some kind := by
  constructor
  · intro now
    rcases subdivide_cases now with ⟨equal, -⟩ | ⟨-, its⟩
    · exact absurd equal new
    · exact its
  · intro its
    unfold Kernel.subdivide
    rw [if_neg]
    · exact its
    · rintro ⟨above, below⟩
      exact old (pieces.in_page known above below its).2

end Subdivide

namespace Mem

theorem carve_freePage (index page rounds : Nat) :
    ∀ (offset : Nat) (mem : Mem), (carve index page rounds offset mem).freePage = mem.freePage ∧
      (carve index page rounds offset mem).count = mem.count := by
  induction rounds with
  | zero => exact fun _ _ => ⟨rfl, rfl⟩
  | succ rounds ih =>
      intro offset mem
      unfold carve
      split
      · exact ih _ _
      · exact ⟨rfl, rfl⟩

theorem carve_outside (index page rounds : Nat) (small : index ≤ 8) :
    ∀ (place : Nat) (mem : Mem), SameOutside mem.bytes
      (carve index page rounds (place * chunkSize index) mem).bytes page pageSize := by
  induction rounds with
  | zero => exact fun _ mem => SameOutside.refl mem.bytes page pageSize
  | succ rounds ih =>
      intro place mem
      unfold carve
      split
      · rename_i within
        rw [← Nat.succ_mul]
        refine SameOutside.trans ?_ (ih (place + 1) _)
        have ends := chunk_end small within
        have long := chunkSize_ge index
        apply (writeWord_outside _ _ _).widen
        · omega
        · omega
      · exact SameOutside.refl mem.bytes page pageSize

end Mem

namespace Layout

variable {poolAddr : Nat} {pages : List Nat} {heap : Heap} {owner : Nat → Option Use}
  {free : List Nat} {pools : Nat → List Nat} {page index size : Nat}

theorem subdivide (layout : Layout poolAddr pages heap owner free pools)
    (known : owner page = some .lostPage) (small : index ≤ 8) :
    Layout poolAddr pages heap (Kernel.subdivide owner page index) free pools := by
  have other : ∀ {addr kind}, kind ≠ .lostPage → kind ≠ .raw index →
      (Kernel.subdivide owner page index addr = some kind ↔ owner addr = some kind) :=
    fun old new => layout.pieces.subdivide_other known old new
  constructor
  · exact layout.pieces.subdivide known small
  · exact layout.freeList.frame (fun _ => other (by simp) (by simp)) (fun _ _ => rfl)
  · intro index
    exact (layout.poolList index).frame (fun _ => other (by simp) (by simp)) (fun _ _ => rfl)
  · exact layout.heldDistinct
  · intro addr
    rw [layout.heldMembers, other (by simp) (by simp)]
  · exact layout.liveDistinct
  · intro block
    rw [layout.liveMembers, other (by simp) (by simp)]
  · intro addr index size now
    rw [other (by simp) (by simp)] at now
    exact layout.headers addr index size now

/-- The loop puts the chunks from a place on onto their list. -/
theorem carve (rounds : Nat) :
    ∀ (place : Nat) (heap : Heap) (owner : Nat → Option Use) (pools : Nat → List Nat),
      PagesOk pages → Layout poolAddr pages heap owner free pools →
      (∀ later, place ≤ later → later * chunkSize index < pageSize →
        owner (page + later * chunkSize index) = some (.raw index)) →
      pageSize ≤ (place + rounds) * chunkSize index →
        ∃ owner' pools', Layout poolAddr pages
            (heap.setMem (Mem.carve index page rounds (place * chunkSize index) heap.mem)) owner'
            free pools' ∧
          (∀ later, place ≤ later → later * chunkSize index < pageSize →
            owner' (page + later * chunkSize index) = some (.chunk index)) ∧
          (∀ addr, (∀ later, place ≤ later → later * chunkSize index < pageSize →
            addr ≠ page + later * chunkSize index) → owner' addr = owner addr) := by
  induction rounds with
  | zero =>
      intro place heap owner pools ok layout raw enough
      refine ⟨owner, pools, layout, ?_, fun _ _ => rfl⟩
      intro later above within
      have more := Nat.mul_le_mul_right (chunkSize index) above
      rw [Nat.add_zero] at enough
      omega
  | succ rounds ih =>
      intro place heap owner pools ok layout raw enough
      have positive := chunkSize_ge index
      unfold Mem.carve
      by_cases within : place * chunkSize index < pageSize
      · rw [if_pos within, ← Nat.succ_mul]
        have known := raw place (Nat.le_refl _) within
        have different : ∀ later, place + 1 ≤ later →
            page + later * chunkSize index ≠ page + place * chunkSize index := by
          intro later above same
          have more := Nat.mul_le_mul_right (chunkSize index) above
          rw [Nat.succ_mul] at more
          omega
        obtain ⟨owner', pools', kept, listed, others⟩ := ih (place + 1)
          (heap.setMem (heap.mem.addToPool index (page + place * chunkSize index))) _ _ ok
          (layout.putChunk ok known)
          (by
            intro later above within'
            rw [Function.update_of_ne (different later above)]
            exact raw later (Nat.le_of_succ_le above) within')
          (by
            rw [show place + 1 + rounds = place + (rounds + 1) by omega]
            exact enough)
        refine ⟨owner', pools', kept, ?_, ?_⟩
        · intro later above within'
          by_cases same : later = place
          · rw [same, others _ (fun more later' _ equal => different more later' equal.symm),
              Function.update_self]
          · exact listed later (by omega) within'
        · intro addr apart
          rw [others addr (fun later above => apart later (Nat.le_of_succ_le above)),
            Function.update_of_ne (apart place (Nat.le_refl _) within)]
      · rw [if_neg within]
        refine ⟨owner, pools, layout, ?_, fun _ _ => rfl⟩
        intro later above within'
        have more := Nat.mul_le_mul_right (chunkSize index) above
        omega

/-! ### The calls -/

theorem hand_zero (mem : Mem) (chunk : Nat) {place : Nat} (within : place < size) :
    (mem.hand poolAddr index size chunk).bytes (chunk + 8 + place) = 0 :=
  fill_inside _ _ within

theorem hand_outside (mem : Mem) (chunk : Nat) (fits : size + 8 ≤ chunkSize index) :
    SameOutside mem.bytes (mem.hand poolAddr index size chunk).bytes chunk (chunkSize index) := by
  have header := (writeWord_outside mem.bytes chunk (poolAddr + 8 * index)).widen
    (Nat.le_refl chunk) (Nat.add_le_add_left (Nat.le_trans (Nat.le_add_left 8 size) fits) chunk)
  apply header.trans
  apply (fill_outside _ _ _ _).widen (Nat.le_add_right chunk 8)
  omega

theorem fromPool (layout : Layout poolAddr pages heap owner free pools)
    (address : poolAddr + 8 * 16 ≤ 2 ^ 64) (positive : 0 < size) (bounded : size ≤ pageSize - 8)
    {chunk : Nat} (head : heap.mem.pool (sizeClass size) = some chunk) :
    owner chunk = some (.chunk (sizeClass size)) ∧
    ∃ mem pools', heap.mem.poolAlloc poolAddr size = (some (chunk + 8), mem) ∧
      Layout poolAddr pages
        { heap with mem := mem, live := { addr := chunk + 8, size := size } :: heap.live }
        (Function.update owner chunk (some (.block (sizeClass size) size))) free pools' ∧
      SameOutside heap.mem.bytes mem.bytes chunk (chunkSize (sizeClass size)) ∧
      (∀ place, place < size → mem.bytes (chunk + 8 + place) = 0) ∧
      mem.count = heap.mem.count := by
  obtain ⟨small, fits⟩ := sizeClass_fits positive bounded
  obtain ⟨known, rest, whole, taken⟩ := layout.takeChunk head
  have handed := taken.hand (Function.update_self _ _ _) positive fits rfl (by omega)
  rw [Function.update_idem] at handed
  refine ⟨known, (heap.mem.popChunk (sizeClass size) chunk).hand poolAddr (sizeClass size) size
    chunk, Function.update pools (sizeClass size) rest, ?_, handed, ?_, ?_, rfl⟩
  · simp only [Mem.poolAlloc, head]
  · exact hand_outside (heap.mem.popChunk (sizeClass size) chunk) chunk fits
  · intro place within
    exact hand_zero _ chunk within

theorem fromPage (layout : Layout poolAddr pages heap owner free pools) (ok : PagesOk pages)
    (address : poolAddr + 8 * 16 ≤ 2 ^ 64) (positive : 0 < size) (bounded : size ≤ pageSize - 8)
    (empty : heap.mem.pool (sizeClass size) = none) (head : heap.mem.freePage = some page) :
    owner page = some .freePage ∧
    ∃ mem owner' rest pools', heap.mem.poolAlloc poolAddr size = (some (page + 8), mem) ∧
      free = page :: rest ∧
      Layout poolAddr pages
        { heap with mem := mem, live := { addr := page + 8, size := size } :: heap.live }
        owner' rest pools' ∧
      owner' page = some (.block (sizeClass size) size) ∧
      (∀ place, 1 ≤ place → place * chunkSize (sizeClass size) < pageSize →
        owner' (page + place * chunkSize (sizeClass size)) = some (.chunk (sizeClass size))) ∧
      (∀ addr, addr < page ∨ page + pageSize ≤ addr → owner' addr = owner addr) ∧
      SameOutside heap.mem.bytes mem.bytes page pageSize ∧
      (∀ place, place < size → mem.bytes (page + 8 + place) = 0) ∧
      mem.count = heap.mem.count + 1 := by
  obtain ⟨small, fits⟩ := sizeClass_fits positive bounded
  have positive' := chunkSize_ge (sizeClass size)
  have zero : 0 * chunkSize (sizeClass size) < pageSize := by simp [pageSize]
  obtain ⟨known, rest, whole, taken⟩ := layout.takePage head (heap.mem.count + 1)
  have lost : Function.update owner page (some .lostPage) page = some .lostPage :=
    Function.update_self _ _ _
  have cut := taken.subdivide lost small
  have enough : pageSize ≤ (1 + pageSize) * chunkSize (sizeClass size) :=
    Nat.le_trans (Nat.le_add_left _ _) (Nat.le_mul_of_pos_right _ (by omega))
  obtain ⟨owner', pools', carved, listed, others⟩ := carve pageSize 1 _ _ _ ok cut
    (fun later _ within => subdivide_chunk within) enough
  have first : owner' page = some (.raw (sizeClass size)) := by
    rw [others page]
    · have start : Kernel.subdivide (Function.update owner page (some .lostPage)) page
          (sizeClass size) (page + 0 * chunkSize (sizeClass size)) = _ := subdivide_chunk zero
      rw [Nat.zero_mul, Nat.add_zero] at start
      exact start
    · intro later above _ same
      have more := Nat.mul_le_mul_right (chunkSize (sizeClass size)) above
      omega
  simp only [Heap.setMem, Nat.one_mul] at carved
  generalize made : Mem.carve (sizeClass size) page pageSize (chunkSize (sizeClass size))
    ((heap.mem.setCount (heap.mem.count + 1)).popPage page) = mem at carved
  have handed := carved.hand first positive fits rfl (by omega)
  refine ⟨known, mem.hand poolAddr (sizeClass size) size page, _, rest, pools', ?_, whole, handed,
    Function.update_self _ _ _, ?_, ?_, ?_, ?_, ?_⟩
  · simp only [Mem.poolAlloc, Mem.kallocPage, empty, head, made]
  · intro place above within
    have different : page + place * chunkSize (sizeClass size) ≠ page := by
      have more := Nat.mul_le_mul_right (chunkSize (sizeClass size)) above
      omega
    rw [Function.update_of_ne different]
    exact listed place above within
  · intro addr outside
    have different : addr ≠ page := by
      simp only [pageSize] at outside
      omega
    rw [Function.update_of_ne different, others addr]
    · unfold Kernel.subdivide
      rw [if_neg (by omega), Function.update_of_ne different]
    · intro later above within same
      omega
  · have cutBytes := Mem.carve_outside (sizeClass size) page pageSize small 1
      ((heap.mem.setCount (heap.mem.count + 1)).popPage page)
    rw [Nat.one_mul, made] at cutBytes
    apply SameOutside.trans cutBytes
    apply (hand_outside mem page fits).widen (Nat.le_refl _)
    have ends := chunk_end small zero
    omega
  · intro place within
    exact hand_zero _ page within
  · have counted := (Mem.carve_freePage (sizeClass size) page pageSize (chunkSize (sizeClass size))
      ((heap.mem.setCount (heap.mem.count + 1)).popPage page)).2
    rw [made] at counted
    exact counted

theorem kallocPage (layout : Layout poolAddr pages heap owner free pools)
    (head : heap.mem.freePage = some page) (count : Int) :
    owner page = some .freePage ∧ ∃ rest, free = page :: rest ∧
      Layout poolAddr pages
        { heap with mem := (heap.mem.setCount count).popPage page, held := page :: heap.held }
        (Function.update owner page (some .heldPage)) rest pools := by
  obtain ⟨known, rest, whole, taken⟩ := layout.takePage head count
  have held := taken.hold (Function.update_self _ _ _)
  rw [Function.update_idem] at held
  exact ⟨known, rest, whole, held⟩

theorem kfreePage (layout : Layout poolAddr pages heap owner free pools) (ok : PagesOk pages)
    (member : page ∈ heap.held) :
    owner page = some .heldPage ∧
      Layout poolAddr pages
        { heap with mem := heap.mem.kfreePage page, held := heap.held.erase page }
        (Function.update owner page (some .freePage)) (page :: free) pools := by
  have known := (layout.heldMembers page).mp member
  have back := (layout.unhold known).putPage ok (Function.update_self _ _ _)
  rw [Function.update_idem] at back
  exact ⟨known, back⟩

theorem poolAt_index (poolAddr : Nat) (small : index ≤ 8) :
    Mem.poolAt poolAddr (poolAddr + 8 * index) = some index := by
  unfold Mem.poolAt
  rw [Nat.add_sub_cancel_left, if_pos (by omega), Nat.mul_div_cancel_left index (by omega)]

/-- A block goes back to the pool whose address is in its header. -/
theorem kfree (layout : Layout poolAddr pages heap owner free pools) (ok : PagesOk pages)
    {block : Block} (member : block ∈ heap.live) :
    owner (block.addr - 8) = some (.block (sizeClass block.size) block.size) ∧
      heap.mem.simplePoolFree poolAddr block.addr =
        some (heap.mem.addToPool (sizeClass block.size) (block.addr - 8)) ∧
      Layout poolAddr pages
        { heap with
          mem := heap.mem.addToPool (sizeClass block.size) (block.addr - 8)
          live := heap.live.erase block }
        (Function.update owner (block.addr - 8) (some (.chunk (sizeClass block.size)))) free
        (Function.update pools (sizeClass block.size)
          ((block.addr - 8) :: pools (sizeClass block.size))) := by
  obtain ⟨above, known⟩ := (layout.liveMembers block).mp member
  have small : sizeClass block.size ≤ 8 := layout.pieces.pooled _ _ known
  have same : ({ addr := block.addr - 8 + 8, size := block.size } : Block) = block := by
    rw [Nat.sub_add_cancel above]
  refine ⟨known, ?_, ?_⟩
  · unfold Mem.simplePoolFree
    rw [(layout.headers _ _ _ known).word, poolAt_index poolAddr small]
  · have back := (layout.release known).putChunk ok (Function.update_self _ _ _)
    rw [Function.update_idem, same] at back
    exact back

theorem writeBlock (layout : Layout poolAddr pages heap owner free pools) {block : Block}
    (member : block ∈ heap.live) {offset : Nat} (within : offset < block.size) (byte : UInt8) :
    Layout poolAddr pages (heap.setByte (block.addr + offset) byte) owner free pools := by
  obtain ⟨above, known⟩ := (layout.liveMembers block).mp member
  have fits := (layout.headers _ _ _ known).fits
  apply layout.scribble known byte
  · omega
  · change _ < block.addr - 8 + chunkSize (sizeClass block.size)
    omega
  · exact Or.inr ⟨⟨_, _, rfl⟩, by omega⟩

theorem writePage (layout : Layout poolAddr pages heap owner free pools)
    (member : page ∈ heap.held) {offset : Nat} (within : offset < pageSize) (byte : UInt8) :
    Layout poolAddr pages (heap.setByte (page + offset) byte) owner free pools := by
  have known := (layout.heldMembers page).mp member
  apply layout.scribble known byte
  · omega
  · change _ < page + pageSize
    omega
  · exact Or.inl rfl

end Layout

/-! ### The beginning -/

theorem Pieces.initial {pages : List Nat} (ok : PagesOk pages) :
    Pieces pages (fun addr => if addr ∈ pages then some .lostPage else none) := by
  have page : ∀ {addr use}, (if addr ∈ pages then some Use.lostPage else none) = some use →
      addr ∈ pages ∧ use = .lostPage := by
    intro addr use now
    split at now
    · rename_i member
      exact ⟨member, (Option.some.inj now).symm⟩
    · cases now
  constructor
  · intro addr use now
    obtain ⟨member, rfl⟩ := page now
    exact ok.aligned addr member
  · intro addr use now
    obtain ⟨member, rfl⟩ := page now
    exact ⟨addr, member, Nat.le_refl _, Nat.le_refl _⟩
  · intro addr use now
    obtain ⟨member, rfl⟩ := page now
    trivial
  · intro addr other use use' now now' different
    obtain ⟨member, rfl⟩ := page now
    obtain ⟨member', rfl⟩ := page now'
    obtain ⟨place, at_⟩ := Nat.dvd_of_mod_eq_zero (ok.aligned addr member)
    obtain ⟨place', at'⟩ := Nat.dvd_of_mod_eq_zero (ok.aligned other member')
    change addr + pageSize ≤ other ∨ other + pageSize ≤ addr
    simp only [pageSize] at at_ at' ⊢
    omega

theorem Layout.initial {poolAddr : Nat} {pages : List Nat} (ok : PagesOk pages) (bytes : Memory) :
    Layout poolAddr pages
      { mem := { bytes := bytes, freePage := none, pool := fun _ => none, count := 0 }
        live := []
        held := [] }
      (fun addr => if addr ∈ pages then some .lostPage else none) [] (fun _ => []) := by
  have other : ∀ {addr kind}, kind ≠ .lostPage →
      ¬(if addr ∈ pages then some Use.lostPage else none) = some kind := by
    intro addr kind different now
    split at now
    · exact different (Option.some.inj now).symm
    · cases now
  constructor
  · exact Pieces.initial ok
  · exact ⟨rfl, List.nodup_nil, fun _ => by simp [other]⟩
  · exact fun _ => ⟨rfl, List.nodup_nil, fun _ => by simp [other]⟩
  · exact List.nodup_nil
  · exact fun _ => by simp [other]
  · exact List.nodup_nil
  · exact fun _ => by simp [other]
  · intro addr index size now
    exact absurd now (other (by simp))

theorem Layout.earlyInit {poolAddr : Nat} {pages : List Nat} {pools : Nat → List Nat}
    (ok : PagesOk pages) (todo : List Nat) :
    ∀ (heap : Heap) (owner : Nat → Option Use) (free : List Nat),
      Layout poolAddr pages heap owner free pools → todo.Nodup →
      (∀ page ∈ todo, owner page = some .lostPage) →
        ∃ owner', Layout poolAddr pages (heap.setMem (todo.foldl Mem.kfreePage heap.mem)) owner'
            (todo.reverse ++ free) pools ∧
          (∀ page ∈ todo, owner' page = some .freePage) ∧
          (∀ addr, addr ∉ todo → owner' addr = owner addr) ∧
          (todo.foldl Mem.kfreePage heap.mem).count = heap.mem.count - todo.length := by
  induction todo with
  | nil =>
      intro heap owner free layout _ _
      exact ⟨owner, layout, by simp, fun _ _ => rfl, by simp⟩
  | cons page rest ih =>
      intro heap owner free layout distinct lost
      rw [List.nodup_cons] at distinct
      have put := layout.putPage ok (lost page List.mem_cons_self)
      obtain ⟨owner', kept, listed, others, count⟩ :=
        ih (heap.setMem (heap.mem.kfreePage page)) _ (page :: free) put distinct.2 (by
          intro later member
          have different : later ≠ page := by
            intro same
            rw [same] at member
            exact distinct.1 member
          rw [Function.update_of_ne different]
          exact lost later (List.mem_cons_of_mem page member))
      refine ⟨owner', ?_, ?_, ?_, ?_⟩
      · rw [List.reverse_cons, List.append_assoc]
        exact kept
      · intro later member
        rcases List.mem_cons.mp member with same | within
        · rw [same, others page distinct.1, Function.update_self]
        · exact listed later within
      · intro addr outside
        rw [List.mem_cons, not_or] at outside
        rw [others addr outside.2, Function.update_of_ne outside.1]
      · rw [List.foldl_cons, List.length_cons]
        have counted : (List.foldl Mem.kfreePage (heap.mem.kfreePage page) rest).count =
            heap.mem.count - 1 - rest.length := count
        rw [counted]
        omega

end LabKernel.Kernel
