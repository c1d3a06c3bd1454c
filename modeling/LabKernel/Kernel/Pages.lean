/-
Where the pages are.

A page is on the list of free pages, with a caller of `kalloc_page`, or cut into chunks that
are all free or allocated, as long as no page is asked for when there is none and no block has
more than half a page. `alloc_page_cnt` then counts the pages that are off the list.
-/

import LabKernel.Kernel.Kalloc

set_option autoImplicit false

namespace LabKernel.Kernel

open ByteMemory Transition

/-! ### Whole pages -/

/-- The page is cut into chunks of a pool, each of them free or allocated. -/
def CutInto (owner : Nat → Option Use) (page index : Nat) : Prop :=
  ∀ place, place * chunkSize index < pageSize →
    owner (page + place * chunkSize index) = some (.chunk index) ∨
      ∃ size, owner (page + place * chunkSize index) = some (.block index size)

inductive Whole (owner : Nat → Option Use) (page : Nat) : Prop
  | free (known : owner page = some .freePage)
  | held (known : owner page = some .heldPage)
  | cut (index : Nat) (chunks : CutInto owner page index)

/-- The changes of use that keep a page whole. -/
inductive Turns : Use → Use → Prop
  | take : Turns .freePage .heldPage
  | give : Turns .heldPage .freePage
  | allocate (index size : Nat) : Turns (.chunk index) (.block index size)
  | release (index size : Nat) : Turns (.block index size) (.chunk index)

section Whole

variable {owner owner' : Nat → Option Use} {pages : List Nat} {page other addr index : Nat}
  {use new : Use}

theorem Whole.turn (whole : Whole owner page) (known : owner addr = some use)
    (turns : Turns use new) : Whole (Function.update owner addr (some new)) page := by
  cases whole with
  | free mine =>
      by_cases same : page = addr
      · rw [same, known] at mine
        cases turns with
        | take => exact .held (by rw [same, Function.update_self])
        | give => cases mine
        | allocate index size => cases mine
        | release index size => cases mine
      · exact .free (by rw [Function.update_of_ne same, mine])
  | held mine =>
      by_cases same : page = addr
      · rw [same, known] at mine
        cases turns with
        | take => cases mine
        | give => exact .free (by rw [same, Function.update_self])
        | allocate index size => cases mine
        | release index size => cases mine
      · exact .held (by rw [Function.update_of_ne same, mine])
  | cut index chunks =>
      apply Whole.cut index
      intro place within
      have mine := chunks place within
      by_cases same : page + place * chunkSize index = addr
      · rw [same, Function.update_self]
        rw [same, known] at mine
        cases turns with
        | take => simp at mine
        | give => simp at mine
        | allocate index size =>
            simp only [Option.some.injEq, Use.chunk.injEq, reduceCtorEq, exists_false,
              or_false] at mine
            rw [mine]
            exact Or.inr ⟨size, rfl⟩
        | release index size =>
            simp only [Option.some.injEq, reduceCtorEq, Use.block.injEq, false_or,
              exists_and_left] at mine
            rw [mine.1]
            exact Or.inl rfl
      · rw [Function.update_of_ne same]
        exact mine

theorem Whole.frame (whole : Whole owner other) (ok : PagesOk pages) (member : page ∈ pages)
    (member' : other ∈ pages) (different : other ≠ page)
    (same : ∀ addr, addr < page ∨ page + pageSize ≤ addr → owner' addr = owner addr) :
    Whole owner' other := by
  have apart : ∀ offset, offset < pageSize → owner' (other + offset) = owner (other + offset) := by
    intro offset within
    apply same
    obtain ⟨place, at_⟩ := Nat.dvd_of_mod_eq_zero (ok.aligned page member)
    obtain ⟨place', at'⟩ := Nat.dvd_of_mod_eq_zero (ok.aligned other member')
    simp only [pageSize] at at_ at' within ⊢
    omega
  have start := apart 0 (by decide)
  rw [Nat.add_zero] at start
  cases whole with
  | free mine => exact .free (by rw [start, mine])
  | held mine => exact .held (by rw [start, mine])
  | cut index chunks =>
      apply Whole.cut index
      intro place within
      rw [apart _ within]
      exact chunks place within

theorem Pieces.page_mem (pieces : Pieces pages owner) (known : owner page = some use)
    (length : use.length = pageSize) : page ∈ pages := by
  obtain ⟨outer, member, below, above⟩ := pieces.inside page use known
  have same : outer = page := by omega
  rw [same] at member
  exact member

end Whole

/-! ### The calls -/

/-- Every page is whole, and the count follows the length of the list of free pages. -/
structure Accounting (poolAddr : Nat) (pages : List Nat) (start : Int) (heap : Heap)
    (owner : Nat → Option Use) (free : List Nat) (pools : Nat → List Nat) : Prop where
  layout : Layout poolAddr pages heap owner free pools
  whole : ∀ page ∈ pages, Whole owner page
  count : heap.mem.count + free.length = start + pages.length

/-- The call asks for a page only if there is one, and for no block of more than half a page. -/
def PageAtHand (heap : Heap) : MemAction → Prop
  | .kallocPage => heap.mem.freePage ≠ none
  | .kalloc size => 0 < size ∧ size ≤ 4088 →
      size ≤ 2040 ∧ (heap.mem.pool (sizeClass size.toNat) = none → heap.mem.freePage ≠ none)
  | _ => True

instance (heap : Heap) (action : MemAction) : Decidable (PageAtHand heap action) := by
  unfold PageAtHand
  split <;> infer_instance

namespace Accounting

variable {poolAddr : Nat} {pages : List Nat} {start : Int} {heap : Heap}
  {owner : Nat → Option Use} {free : List Nat} {pools : Nat → List Nat} {size : Int}

/-- What is left after a call that takes at most one page. -/
inductive Took (poolAddr : Nat) (pages : List Nat) (start : Int) (free : List Nat) (empty : Prop)
    (after : Heap) : Prop
  | none (owner : Nat → Option Use) (pools : Nat → List Nat)
      (kept : Accounting poolAddr pages start after owner free pools)
  | one (page : Nat) (rest : List Nat) (owner : Nat → Option Use) (pools : Nat → List Nat)
      (first : free = page :: rest) (needed : empty)
      (kept : Accounting poolAddr pages start after owner rest pools)

theorem kalloc (accounting : Accounting poolAddr pages start heap owner free pools)
    (ok : PagesOk pages) (address : poolAddr + 8 * 16 ≤ 2 ^ 64)
    (atHand : PageAtHand heap (.kalloc size)) :
    Took poolAddr pages start free (heap.mem.pool (sizeClass size.toNat) = none)
      (heap.alloc size.toNat (heap.mem.simplePoolAlloc poolAddr size)) := by
  have layout := accounting.layout
  unfold Mem.simplePoolAlloc
  split
  · exact .none owner pools accounting
  · rename_i valid
    simp only [pageSize] at valid
    obtain ⟨half, page⟩ := atHand (by omega)
    have positive : 0 < size.toNat := by omega
    have bounded : size.toNat ≤ pageSize - 8 := by
      simp only [pageSize]
      omega
    rw [if_neg (by simp only [pageSize]; omega)]
    cases head : heap.mem.pool (sizeClass size.toNat) with
    | some chunk =>
        obtain ⟨known, mem, pools', taken, kept, -, -, count⟩ :=
          layout.fromPool address positive bounded head
        rw [taken]
        refine .none _ _ ⟨kept, ?_, ?_⟩
        · intro page member
          exact (accounting.whole page member).turn known (.allocate _ _)
        · change mem.count + _ = _
          rw [count]
          exact accounting.count
    | none =>
        cases first : heap.mem.freePage with
        | none => exact absurd first (page head)
        | some page =>
            obtain ⟨known, mem, owner', rest, pools', taken, whole, kept, block, chunks, outside,
              -, -, count⟩ := layout.fromPage ok address positive bounded head first
            rw [taken]
            refine .one page rest owner' pools' whole rfl ⟨kept, ?_, ?_⟩
            · intro other member
              by_cases same : other = page
              · rw [same]
                apply Whole.cut (sizeClass size.toNat)
                intro place within
                cases place with
                | zero =>
                    right
                    rw [Nat.zero_mul, Nat.add_zero]
                    exact ⟨_, block⟩
                | succ place => exact Or.inl (chunks _ (Nat.le_add_left 1 place) within)
              · exact (accounting.whole other member).frame ok (layout.pieces.page_mem known rfl)
                  member same outside
            · change mem.count + _ = _
              have before := accounting.count
              rw [whole, List.length_cons] at before
              rw [count]
              omega

end Accounting

section Balance

variable {poolAddr : Nat} {pages : List Nat} {start : Int} {heap after : Heap}

def Heap.InBalance (poolAddr : Nat) (pages : List Nat) (start : Int) (heap : Heap) : Prop :=
  ∃ owner free pools, Accounting poolAddr pages start heap owner free pools

theorem Heap.InBalance.initial (ok : PagesOk pages) (bytes : Memory) :
    (Heap.initial bytes pages).InBalance poolAddr pages (Heap.initial bytes pages).mem.count := by
  obtain ⟨owner, layout, listed, -, -⟩ := Layout.earlyInit ok pages _ _ []
    (Layout.initial ok bytes) ok.distinct (fun page member => if_pos member)
  refine ⟨owner, _, _, layout, fun page member => .free (listed page member), ?_⟩
  rw [List.append_nil, List.length_reverse]

theorem Heap.InBalance.step (balance : heap.InBalance poolAddr pages start)
    (ok : PagesOk pages) (address : poolAddr + 8 * 16 ≤ 2 ^ 64) {action : MemAction}
    (atHand : PageAtHand heap action) (taken : memStep poolAddr heap action = .ok after) :
    after.InBalance poolAddr pages start := by
  obtain ⟨owner, free, pools, accounting⟩ := balance
  have layout := accounting.layout
  have turned : ∀ {addr use new}, owner addr = some use → Turns use new → ∀ page ∈ pages,
      Whole (Function.update owner addr (some new)) page :=
    fun known turns page member => (accounting.whole page member).turn known turns
  have count := accounting.count
  cases action with
  | kallocPage =>
      cases head : heap.mem.freePage with
      | none => exact absurd head atHand
      | some page =>
          simp only [memStep, Mem.kallocPage, head] at taken
          cases taken
          obtain ⟨known, rest, whole, kept⟩ := layout.kallocPage head (heap.mem.count + 1)
          refine ⟨_, _, _, kept, turned known .take, ?_⟩
          change heap.mem.count + 1 + _ = _
          rw [whole, List.length_cons] at count
          omega
  | kfreePage page =>
      simp only [memStep] at taken
      split at taken
      · rename_i member
        cases taken
        obtain ⟨known, kept⟩ := layout.kfreePage ok member
        refine ⟨_, _, _, kept, turned known .give, ?_⟩
        change heap.mem.count - 1 + _ = _
        rw [List.length_cons]
        omega
      · cases taken
  | kalloc size =>
      rw [memStep_kalloc] at taken
      cases taken
      cases accounting.kalloc ok address atHand with
      | none owner pools kept => exact ⟨owner, free, pools, kept⟩
      | one page rest owner pools first needed kept => exact ⟨owner, rest, pools, kept⟩
  | kfree block =>
      simp only [memStep] at taken
      split at taken
      · rename_i member
        obtain ⟨known, freed, kept⟩ := layout.kfree ok member
        rw [freed] at taken
        cases taken
        exact ⟨_, _, _, kept, turned known (.release _ _), count⟩
      · cases taken
  | writeBlock block offset byte =>
      simp only [memStep] at taken
      split at taken
      · rename_i allowed
        cases taken
        exact ⟨owner, free, pools, layout.writeBlock allowed.1 allowed.2 byte, accounting.whole, count⟩
      · cases taken
  | writePage page offset byte =>
      simp only [memStep] at taken
      split at taken
      · rename_i allowed
        cases taken
        exact ⟨owner, free, pools, layout.writePage allowed.1 allowed.2 byte, accounting.whole, count⟩
      · cases taken

end Balance

/-! ### No page is lost -/

def Heap.HasChunk (heap : Heap) (pools : Nat → List Nat) (index chunk : Nat) : Prop :=
  chunk ∈ pools index ∨ ∃ block ∈ heap.live, block.addr = chunk + 8 ∧ sizeClass block.size = index

/-- The pages off the list are counted, and each of them is with a caller or in chunks. -/
structure Heap.Accounted (pages : List Nat) (start : Int) (heap : Heap) (free : List Nat)
    (pools : Nat → List Nat) : Prop where
  freeList : Chain (nextOf heap.mem.bytes) heap.mem.freePage free
  distinct : free.Nodup
  known : ∀ page ∈ free, page ∈ pages
  poolList : ∀ index, Chain (nextOf heap.mem.bytes) (heap.mem.pool index) (pools index)
  count : heap.mem.count = start + (pages.filter (fun page => page ∉ free)).length
  kept : ∀ page ∈ pages, page ∉ free →
    page ∈ heap.held ∨ ∃ index, index < 16 ∧ ∀ place, place * chunkSize index < pageSize →
      heap.HasChunk pools index (page + place * chunkSize index)

/-- The call takes at most one page, and that only if its pool has no chunk. -/
def TakesOnePage (heap : Heap) (size : Int) (after : Heap) : Prop :=
  ∃ free free', Chain (nextOf heap.mem.bytes) heap.mem.freePage free ∧
    Chain (nextOf after.mem.bytes) after.mem.freePage free' ∧
    (free' = free ∨ heap.mem.pool (sizeClass size.toNat) = none ∧ ∃ page, free = page :: free')

section Accounted

variable {poolAddr : Nat} {pages : List Nat} {start : Int} {heap : Heap}
  {owner : Nat → Option Use} {free : List Nat} {pools : Nat → List Nat}

theorem length_off_list (distinct : pages.Nodup) (listed : free.Nodup)
    (known : ∀ page ∈ free, page ∈ pages) :
    (pages.filter (fun page => page ∉ free)).length + free.length = pages.length := by
  have same : (pages.filter (fun page => page ∈ free)).Perm free := by
    rw [List.perm_ext_iff_of_nodup (distinct.filter _) listed]
    intro page
    rw [List.mem_filter, decide_eq_true_eq]
    exact ⟨fun both => both.2, fun member => ⟨known page member, member⟩⟩
  have parts := List.length_eq_length_filter_add (l := pages) (fun page => decide (page ∈ free))
  simp only [← decide_not] at parts
  rw [parts, same.length_eq, Nat.add_comm]

theorem Accounting.hasChunk (accounting : Accounting poolAddr pages start heap owner free pools)
    {index chunk : Nat} (known : owner chunk = some (.chunk index) ∨
      ∃ size, owner chunk = some (.block index size)) : heap.HasChunk pools index chunk := by
  rcases known with listed | ⟨size, block⟩
  · exact Or.inl (((accounting.layout.poolList index).members chunk).mpr listed)
  · have own := (accounting.layout.headers chunk index size block).own
    refine Or.inr ⟨{ addr := chunk + 8, size := size }, ?_, rfl, own⟩
    rw [accounting.layout.liveMembers]
    constructor
    · exact Nat.le_add_left 8 chunk
    · rw [Nat.add_sub_cancel, own]
      exact block

theorem Accounting.accounted (accounting : Accounting poolAddr pages start heap owner free pools)
    (ok : PagesOk pages) : heap.Accounted pages start free pools := by
  have layout := accounting.layout
  have known : ∀ page ∈ free, page ∈ pages := fun page member =>
    layout.pieces.page_mem ((layout.freeList.members page).mp member) rfl
  constructor
  · exact layout.freeList.chain
  · exact layout.freeList.distinct
  · exact known
  · exact fun index => (layout.poolList index).chain
  · have total := accounting.count
    have parts := length_off_list ok.distinct layout.freeList.distinct known
    omega
  · intro page member outside
    cases accounting.whole page member with
    | free mine => exact absurd ((layout.freeList.members page).mpr mine) outside
    | held mine => exact Or.inl ((layout.heldMembers page).mpr mine)
    | cut index chunks =>
        have small : index ≤ 8 := by
          rcases chunks 0 (by simp [pageSize]) with chunk | ⟨size, block⟩
          · exact layout.pieces.pooled _ _ chunk
          · exact layout.pieces.pooled _ _ block
        refine Or.inr ⟨index, by omega, ?_⟩
        intro place within
        exact accounting.hasChunk (chunks place within)

end Accounted

/-- As long as every call has its page at hand, the count is the number of pages off the list,
none of them is lost, and `kalloc` takes at most one. -/
theorem pages_accounted {poolAddr : Nat} {pages : List Nat} (ok : PagesOk pages)
    (address : poolAddr + 8 * 16 ≤ 2 ^ 64) {bytes : Memory} {actions : List MemAction}
    {heap : Heap}
    (run : Run (memStep poolAddr) PageAtHand (Heap.initial bytes pages) actions heap) :
    (∃ free pools, heap.Accounted pages (Heap.initial bytes pages).mem.count free pools) ∧
      ∀ size, PageAtHand heap (.kalloc size) →
        ∃ after, memStep poolAddr heap (.kalloc size) = .ok after ∧
          TakesOnePage heap size after := by
  have accounting : heap.InBalance poolAddr pages (Heap.initial bytes pages).mem.count := by
    apply run.invariant (Heap.InBalance.initial ok bytes)
    intro before action after holds met taken
    exact holds.step ok address met taken
  obtain ⟨owner, free, pools, accounting⟩ := accounting
  constructor
  · exact ⟨free, pools, accounting.accounted ok⟩
  · intro size atHand
    refine ⟨_, memStep_kalloc poolAddr heap size, ?_⟩
    cases accounting.kalloc ok address atHand with
    | none owner' pools' kept =>
        exact ⟨free, free, accounting.layout.freeList.chain, kept.layout.freeList.chain, Or.inl rfl⟩
    | one page rest owner' pools' first needed kept =>
        exact ⟨free, rest, accounting.layout.freeList.chain, kept.layout.freeList.chain,
          Or.inr ⟨needed, page, first⟩⟩

/-- A page with a caller, one cut into chunks and one still free. -/
theorem pages_accounted_three :
    ∃ heap, Reachable (memStep 1024) (Heap.initial (fun _ => 255) [4096, 8192, 12288]) heap ∧
      heap.held = [12288] ∧ heap.mem.count = -1 ∧
      ∃ free pools, heap.Accounted [4096, 8192, 12288]
        (Heap.initial (fun _ => 255) [4096, 8192, 12288]).mem.count free pools := by
  have ok : PagesOk [4096, 8192, 12288] := by
    constructor
    · decide
    · decide
    · decide
    · decide
  have passed : checkRun (memStep 1024) (fun heap action => decide (PageAtHand heap action))
      (fun heap => heap.held = [12288] ∧ heap.mem.count = -1)
      (Heap.initial (fun _ => 255) [4096, 8192, 12288])
      [.kallocPage, .kalloc 2040, .kalloc 2040, .kfree { addr := 8200, size := 2040 }] = true := by
    decide +kernel
  obtain ⟨heap, run, checked⟩ := Run.of_checkRun (fun _ _ => of_decide_eq_true) passed
  obtain ⟨held, count⟩ := of_decide_eq_true checked
  exact ⟨heap, run.reachable, held, count, (pages_accounted ok (by decide) run).1⟩

/-- A page asked for in vain is counted, and one more is taken for a block of more than half a
page. -/
theorem page_miscounted :
    (∃ heap, Reachable (memStep 1024) (Heap.initial (fun _ => 255) [4096, 8192]) heap ∧
      ¬∃ free pools, heap.Accounted [4096, 8192]
        (Heap.initial (fun _ => 255) [4096, 8192]).mem.count free pools) ∧
    ∃ after, memStep 1024 (Heap.initial (fun _ => 255) [4096, 8192]) (.kalloc 2041) = .ok after ∧
      ¬TakesOnePage (Heap.initial (fun _ => 255) [4096, 8192]) 2041 after ∧
      ¬∃ free pools, after.Accounted [4096, 8192]
        (Heap.initial (fun _ => 255) [4096, 8192]).mem.count free pools := by
  constructor
  · have passed : checkRun (memStep 1024) (fun _ _ => true)
        (fun heap => heap.mem.freePage = none ∧ heap.mem.count = 1)
        (Heap.initial (fun _ => 255) [4096, 8192]) [.kallocPage, .kallocPage, .kallocPage] =
          true := by
      decide +kernel
    obtain ⟨heap, reached, checked⟩ := Reachable.of_checkRun passed
    obtain ⟨empty, count⟩ := of_decide_eq_true checked
    refine ⟨heap, reached, ?_⟩
    rintro ⟨free, pools, accounted⟩
    have listed := accounted.freeList
    rw [empty] at listed
    have total := accounted.count
    rw [listed.of_none, count] at total
    revert total
    decide
  · have before : (Heap.initial (fun _ => 255) [4096, 8192]).mem.freePage = some 8192 ∧
        nextOf (Heap.initial (fun _ => 255) [4096, 8192]).mem.bytes 8192 = some 4096 := by
      decide +kernel
    have checked : ∃ after, memStep 1024 (Heap.initial (fun _ => 255) [4096, 8192])
        (.kalloc 2041) = .ok after ∧ after.mem.freePage = none ∧ after.held = [] ∧
        after.live = [{ addr := 4104, size := 2041 }] ∧
        ∀ index, index < 16 → after.mem.pool index = none :=
      ⟨_, memStep_kalloc _ _ _, by decide +kernel, by decide +kernel, by decide +kernel,
        by decide +kernel⟩
    obtain ⟨after, taken, empty, held, live, bare⟩ := checked
    refine ⟨after, taken, ?_, ?_⟩
    · rintro ⟨free, free', chain, chain', few⟩
      rw [empty] at chain'
      rw [before.1] at chain
      obtain ⟨rest, whole, chain⟩ := chain.tail
      rw [before.2] at chain
      obtain ⟨rest', whole', -⟩ := chain.tail
      rw [chain'.of_none, whole, whole'] at few
      simp at few
    · rintro ⟨free, pools, accounted⟩
      have listed := accounted.freeList
      rw [empty] at listed
      have none := listed.of_none
      rcases accounted.kept 8192 (by decide) (by simp [none]) with mine | ⟨index, small, chunks⟩
      · rw [held] at mine
        cases mine
      · rcases chunks 0 (by simp [pageSize]) with chunk | ⟨block, member, at_, -⟩
        · have list := accounted.poolList index
          rw [bare index small] at list
          rw [list.of_none] at chunk
          cases chunk
        · rw [live, List.mem_singleton] at member
          rw [member] at at_
          simp at at_

end LabKernel.Kernel
