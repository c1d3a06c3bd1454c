/-
Page tables.

A table is a page of 512 entries. An entry that is valid holds the physical address of a table
of the next level together with flags; the entries of the last level hold what the caller stores
there. Tables are made when they are first needed.
-/

import LabKernel.Lib.Bits
import LabKernel.Lib.Descent
import LabKernel.Lib.Transition
import Mathlib.Data.Fin.Basic

set_option autoImplicit false

namespace LabKernel.Kernel.PageTable

open Descent Transition

/-! ### Addresses -/

def nPtePerTable : Nat := 512

def physTop : Nat := 0x3f000000

def kspaceMask : UInt64 := 0xffff000000000000

def k2p (addr : UInt64) : UInt64 := addr - kspaceMask

def p2k (addr : UInt64) : UInt64 := addr + kspaceMask

def pteValid : UInt64 := 0x1

def pteTable : UInt64 := 0x3

def pteAddress (pte : UInt64) : UInt64 := pte &&& ~~~0xFFFF000000000FFF

def vaPart0 (va : UInt64) : UInt64 := (va &&& 0xFF8000000000) >>> 39

def vaPart1 (va : UInt64) : UInt64 := (va &&& 0x7FC0000000) >>> 30

def vaPart2 (va : UInt64) : UInt64 := (va &&& 0x3FE00000) >>> 21

def vaPart3 (va : UInt64) : UInt64 := (va &&& 0x1FF000) >>> 12

abbrev Index := Fin nPtePerTable

/-- `&pt[id]`. -/
def entryAddr (pt : UInt64) (id : Index) : UInt64 := pt + 8 * UInt64.ofNat id.val

def inPage (page addr : UInt64) : Bool := addr - page < 4096

theorem part_toNat {va mask shift : UInt64} {place : Nat} (small : place < 64)
    (by_place : shift.toNat = place) (nine : mask.toNat = (2 ^ 9 - 1) * 2 ^ place) :
    ((va &&& mask) >>> shift).toNat = va.toNat / 2 ^ place % 512 := by
  rw [UInt64.toNat_shiftRight, UInt64.toNat_and, by_place, Nat.mod_eq_of_lt small]
  exact Bits.and_shiftRight nine

theorem vaPart0_toNat (va : UInt64) : (vaPart0 va).toNat = va.toNat / 2 ^ 39 % 512 :=
  part_toNat (by decide) rfl rfl

theorem vaPart1_toNat (va : UInt64) : (vaPart1 va).toNat = va.toNat / 2 ^ 30 % 512 :=
  part_toNat (by decide) rfl rfl

theorem vaPart2_toNat (va : UInt64) : (vaPart2 va).toNat = va.toNat / 2 ^ 21 % 512 :=
  part_toNat (by decide) rfl rfl

theorem vaPart3_toNat (va : UInt64) : (vaPart3 va).toNat = va.toNat / 2 ^ 12 % 512 :=
  part_toNat (by decide) rfl rfl

/-- The entry of an address in a table of level 0, 1, 2 and 3. -/
def index0 (va : UInt64) : Index :=
  ⟨(vaPart0 va).toNat, by rw [vaPart0_toNat]; exact Nat.mod_lt _ (by decide)⟩

def index1 (va : UInt64) : Index :=
  ⟨(vaPart1 va).toNat, by rw [vaPart1_toNat]; exact Nat.mod_lt _ (by decide)⟩

def index2 (va : UInt64) : Index :=
  ⟨(vaPart2 va).toNat, by rw [vaPart2_toNat]; exact Nat.mod_lt _ (by decide)⟩

def index3 (va : UInt64) : Index :=
  ⟨(vaPart3 va).toNat, by rw [vaPart3_toNat]; exact Nat.mod_lt _ (by decide)⟩

/-- The entries that lead to the table of the last level. -/
def tablePath (va : UInt64) : List Index := [index0 va, index1 va, index2 va]

/-- Bits 47 to 12. -/
def pageNumber (va : UInt64) : Nat := va.toNat / 2 ^ 12 % 2 ^ 36

/-- Bits 47 to 21. -/
def regionNumber (va : UInt64) : Nat := va.toNat / 2 ^ 21 % 2 ^ 27

theorem tablePath_eq_iff (va other : UInt64) :
    tablePath va = tablePath other ↔ regionNumber va = regionNumber other := by
  unfold tablePath regionNumber index0 index1 index2
  simp only [List.cons.injEq, Fin.mk.injEq, and_true, vaPart0_toNat, vaPart1_toNat, vaPart2_toNat]
  omega

theorem entry_eq_iff (va other : UInt64) :
    tablePath va = tablePath other ∧ index3 va = index3 other ↔
      pageNumber va = pageNumber other := by
  rw [tablePath_eq_iff]
  unfold regionNumber pageNumber index3
  simp only [Fin.mk.injEq, vaPart3_toNat]
  omega

/-- A page that the kernel can reach below the top of the memory. -/
structure KernelPage (page : UInt64) : Prop where
  aligned : page.toNat % 4096 = 0
  low : 0xffff000000000000 ≤ page.toNat
  high : page.toNat < 0xffff000000000000 + physTop

namespace KernelPage

variable {page other : UInt64}

theorem ne_zero (kernel : KernelPage page) : page ≠ 0 := by
  intro zero
  have low := kernel.low
  rw [zero] at low
  exact absurd low (by decide)

theorem entryAddr_toNat (kernel : KernelPage page) (id : Index) :
    (entryAddr page id).toNat = page.toNat + 8 * id.val := by
  have high := kernel.high
  have bound : id.val < 512 := id.isLt
  unfold physTop at high
  unfold entryAddr
  rw [UInt64.toNat_add, UInt64.toNat_mul, UInt64.toNat_ofNat']
  change (page.toNat + 8 * (id.val % 2 ^ 64) % 2 ^ 64) % 2 ^ 64 = _
  omega

theorem entryAddr_inj (kernel : KernelPage page) (again : KernelPage other) {id place : Index}
    (same : entryAddr page id = entryAddr other place) : page = other ∧ id = place := by
  have numbers := congrArg UInt64.toNat same
  rw [kernel.entryAddr_toNat, again.entryAddr_toNat] at numbers
  have first := kernel.aligned
  have second := again.aligned
  have bound : id.val < 512 := id.isLt
  have limit : place.val < 512 := place.isLt
  constructor
  · apply UInt64.toNat.inj
    omega
  · apply Fin.ext
    omega

theorem inPage_entryAddr (kernel : KernelPage page) (again : KernelPage other) (id : Index) :
    inPage page (entryAddr other id) = decide (page = other) := by
  have first := kernel.aligned
  have second := again.aligned
  have low := kernel.low
  have high := kernel.high
  have lowest := again.low
  have highest := again.high
  have bound : id.val < 512 := id.isLt
  unfold physTop at high highest
  unfold inPage
  apply decide_eq_decide.mpr
  rw [UInt64.lt_iff_toNat_lt, UInt64.toNat_sub, again.entryAddr_toNat]
  change (2 ^ 64 - page.toNat + (other.toNat + 8 * id.val)) % 2 ^ 64 < 4096 ↔ _
  constructor
  · intro near
    apply UInt64.toNat.inj
    omega
  · intro same
    rw [same]
    omega

/-- What is packed into an entry for a table is valid, and the table is read back from it. -/
theorem packed (kernel : KernelPage page) :
    (k2p page + pteTable) &&& pteValid ≠ 0 ∧ p2k (pteAddress (k2p page + pteTable)) = page := by
  have aligned := kernel.aligned
  have low := kernel.low
  have high := kernel.high
  unfold physTop at high
  have entry : (k2p page + pteTable).toNat = page.toNat - 0xffff000000000000 + 3 := by
    unfold k2p
    rw [UInt64.toNat_add, UInt64.toNat_sub]
    change ((2 ^ 64 - 0xffff000000000000 + page.toNat) % 2 ^ 64 + 3) % 2 ^ 64 = _
    omega
  constructor
  · intro invalid
    have number := congrArg UInt64.toNat invalid
    rw [UInt64.toNat_and, entry] at number
    change (page.toNat - 0xffff000000000000 + 3) &&& (2 ^ 1 - 1) = 0 at number
    rw [Nat.and_two_pow_sub_one_eq_mod] at number
    omega
  · apply UInt64.toNat.inj
    unfold p2k pteAddress
    rw [UInt64.toNat_add, UInt64.toNat_and, entry]
    have mask : (~~~(0xFFFF000000000FFF : UInt64)).toNat = (2 ^ 36 - 1) <<< 12 := by decide
    rw [mask, Bits.and_shifted_mask]
    change (_ + 0xffff000000000000) % 2 ^ 64 = _
    omega

end KernelPage

/-! ### Tables -/

inductive Stop where
  | nullPage
  | nullSlot
  deriving DecidableEq, Repr

/-- The memory by the word, `pgdir->pt`, the pages that the next calls of `kalloc_page` return,
the pages it has returned so far, the pages given to `kfree_page`, and `alloc_page_cnt.count`. -/
structure Paging where
  mem : UInt64 → UInt64
  pt : UInt64
  pages : List UInt64
  taken : List UInt64
  freed : List UInt64
  count : Int

def Paging.initial (mem : UInt64 → UInt64) (count : Int) : Paging :=
  { mem := mem
    pt := 0
    pages := []
    taken := []
    freed := []
    count := count }

namespace Paging

variable (state : Paging)

def write (addr value : UInt64) : Paging :=
  { state with mem := Function.update state.mem addr value }

/-- `kalloc_page` and the `memset` behind it. The null pointer cannot be cleared. -/
def newTable : Except Stop (UInt64 × Paging) :=
  match state.pages with
  | [] => .error .nullPage
  | page :: rest =>
      .ok (page,
        { state with
          mem := fun addr => if inPage page addr then 0 else state.mem addr
          pages := rest
          taken := state.taken ++ [page]
          count := state.count + 1 })

/-- The loop of `get_pte` over the levels that are left. -/
def walk (alloc : Bool) : List Index → UInt64 → Paging → Except Stop (Option UInt64 × Paging)
  | [], pt, state => .ok (some pt, state)
  | id :: rest, pt, state =>
      if state.mem (entryAddr pt id) &&& pteValid = 0 then
        if alloc then
          match state.newTable with
          | .error reason => .error reason
          | .ok (page, state) =>
              let state := state.write (entryAddr pt id) (k2p page + pteTable)
              walk alloc rest (p2k (pteAddress (state.mem (entryAddr pt id)))) state
        else .ok (none, state)
      else walk alloc rest (p2k (pteAddress (state.mem (entryAddr pt id)))) state

def makeRoot : Except Stop Paging :=
  if state.pt = 0 then
    match state.newTable with
    | .error reason => .error reason
    | .ok (page, state) => .ok { state with pt := page }
  else .ok state

def getPte (va : UInt64) (alloc : Bool) : Except Stop (Option UInt64 × Paging) :=
  match state.makeRoot with
  | .error reason => .error reason
  | .ok state =>
      match walk alloc (tablePath va) state.pt state with
      | .error reason => .error reason
      | .ok (none, state) => .ok (none, state)
      | .ok (some pt, state) => .ok (some (entryAddr pt (index3 va)), state)

/-- `kfree_page`, which may use the page for its own purposes. -/
def kfreePage (junk : UInt64 → UInt64) (page : UInt64) : Paging :=
  { state with
    mem := fun addr => if inPage page addr then junk addr else state.mem addr
    freed := state.freed ++ [page]
    count := state.count - 1 }

/-- `_free_pt`, with the number of levels below the table. On the last level the loop over the
entries does nothing. -/
def freePt (junk : UInt64 → UInt64) : Nat → UInt64 → Paging → Paging
  | 0, pt, state => state.kfreePage junk pt
  | below + 1, pt, state =>
      let state := (List.finRange nPtePerTable).foldl (fun state id =>
        if state.mem (entryAddr pt id) &&& pteValid = 0 then state
        else freePt junk below (p2k (pteAddress (state.mem (entryAddr pt id)))) state) state
      state.kfreePage junk pt

def freePgdir (junk : UInt64 → UInt64) : Paging :=
  let state := if state.pt = 0 then state else freePt junk 3 state.pt state
  { state with pt := 0 }

end Paging

/-! ### Runs -/

/-- A call of `get_pte` that allocates and the store through the pointer it has returned. -/
structure Request where
  va : UInt64
  slot : UInt64
  value : UInt64
  deriving DecidableEq

/-- The tables and the requests so far, in order. -/
structure PageRun where
  paging : Paging
  requests : List Request

def PageRun.initial (mem : UInt64 → UInt64) (count : Int) : PageRun :=
  { paging := Paging.initial mem count
    requests := [] }

/-- A call of `get_pte` comes with the pages that `kalloc_page` would return in it. Between the
calls other code may run. -/
inductive Action where
  | touch (va : UInt64) (value : UInt64) (pages : List UInt64)
  | lookup (va : UInt64) (pages : List UInt64)
  | elsewhere (mem : UInt64 → UInt64)

def pageStep (run : PageRun) : Action → Except Stop PageRun
  | .touch va value pages =>
      match { run.paging with pages := pages }.getPte va true with
      | .error reason => .error reason
      | .ok (none, _) => .error .nullSlot
      | .ok (some slot, after) =>
          .ok
            { paging := after.write slot value
              requests := run.requests ++ [{ va := va, slot := slot, value := value }] }
  | .lookup va pages =>
      match { run.paging with pages := pages }.getPte va false with
      | .error reason => .error reason
      | .ok (_, after) => .ok { run with paging := after }
  | .elsewhere mem => .ok { run with paging := { run.paging with mem := mem } }

/-- `kalloc_page` returns kernel pages that are not in use. -/
structure Paging.Supplied (state : Paging) : Prop where
  kernel : ∀ page ∈ state.pages, KernelPage page
  distinct : state.pages.Nodup
  unused : ∀ page ∈ state.pages, page ∉ state.taken

/-- The pages are not in use, and nobody else writes into the tables. -/
def PageRun.Kept (run : PageRun) : Action → Prop
  | .touch _ _ pages => { run.paging with pages := pages }.Supplied
  | .lookup _ pages => { run.paging with pages := pages }.Supplied
  | .elsewhere mem => ∀ page ∈ run.paging.taken, ∀ id : Index,
      mem (entryAddr page id) = run.paging.mem (entryAddr page id)

def lastStored (requests : List Request) (page : Nat) : UInt64 :=
  match requests.reverse.find? (fun request => pageNumber request.va = page) with
  | none => 0
  | some request => request.value

end LabKernel.Kernel.PageTable
