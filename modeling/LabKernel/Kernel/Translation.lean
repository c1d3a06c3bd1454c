/-
The translation of addresses, and the kernel's own tables.

`start.S` sets the memory management unit up for addresses of 48 bits and pages of 4 KiB. It walks
the tables at `ttbr0_el1` for an address whose upper 16 bits are clear and those at `ttbr1_el1`,
which are the ones of `kernel_pt.c`, for an address whose upper 16 bits are set.
-/

import LabKernel.Kernel.PageTable

set_option autoImplicit false

namespace LabKernel.Kernel.PageTable

/-! ### Entries -/

def mtDevice : UInt64 := 0x0

def mtNormal : UInt64 := 0x1

def shOuter : UInt64 := (2 : UInt64) <<< 8

def afUsed : UInt64 := (1 : UInt64) <<< 10

def pteNormal : UInt64 := (mtNormal <<< 2) ||| afUsed ||| shOuter

def pteDevice : UInt64 := (mtDevice <<< 2) ||| afUsed

def pteBlock : UInt64 := 0x1

def ptePage : UInt64 := 0x3

def pteKernel : UInt64 := (0 : UInt64) <<< 6

def pteUser : UInt64 := (1 : UInt64) <<< 6

def pteRo : UInt64 := (1 : UInt64) <<< 7

def pteKernelData : UInt64 := pteKernel ||| pteNormal ||| pteBlock

def pteKernelDevice : UInt64 := pteKernel ||| pteDevice ||| pteBlock

def pteUserData : UInt64 := pteUser ||| pteNormal ||| ptePage

def pspace (addr : UInt64) : UInt64 := addr &&& ~~~kspaceMask

/-! ### The unit -/

/-- What the unit takes an entry of a level for. -/
inductive Entry where
  | invalid
  | table (base : UInt64)
  | leaf
  deriving DecidableEq

def readEntry (level : Nat) (pte : UInt64) : Entry :=
  if pte &&& 1 = 0 then .invalid
  else if pte &&& 2 = 0 then
    if level = 1 ∨ level = 2 then .leaf else .invalid
  else if level = 3 then .leaf
  else .table (pteAddress pte)

/-- The entry that ends a walk, and its level. -/
structure Leaf where
  level : Nat
  pte : UInt64
  deriving DecidableEq

def indexAt (va : UInt64) : Nat → Index
  | 0 => index0 va
  | 1 => index1 va
  | 2 => index2 va
  | _ => index3 va

/-- A walk with the number of levels that are left, from the physical address of a table. -/
def tableWalk (phys : UInt64 → UInt64) (va : UInt64) : Nat → UInt64 → Option Leaf
  | 0, _ => none
  | left + 1, table =>
      let pte := phys (entryAddr table (indexAt va (3 - left)))
      match readEntry (3 - left) pte with
      | .invalid => none
      | .table base => tableWalk phys va left base
      | .leaf => some { level := 3 - left, pte := pte }

structure Access where
  user : Bool
  write : Bool

namespace Leaf

variable (leaf : Leaf)

/-- The number of bits of an address that the entry leaves as they are. -/
def offsetBits : Nat := 39 - 9 * leaf.level

def target (va : UInt64) : UInt64 :=
  UInt64.ofNat ((pteAddress leaf.pte).toNat / 2 ^ leaf.offsetBits * 2 ^ leaf.offsetBits +
    va.toNat % 2 ^ leaf.offsetBits)

def permits (access : Access) : Bool :=
  leaf.pte &&& afUsed != 0 && (!access.user || leaf.pte &&& pteUser != 0) &&
    (!access.write || leaf.pte &&& pteRo == 0)

/-- The entry's number of a memory type. -/
def memoryType : UInt64 := (leaf.pte >>> 2) &&& 7

/-- The physical address of an access. -/
def reach (access : Access) (va : UInt64) : Option UInt64 :=
  if leaf.permits access then some (leaf.target va) else none

end Leaf

/-- The walk for an address, from the one or the other base register. -/
def findLeaf (phys : UInt64 → UInt64) (ttbr0 ttbr1 va : UInt64) : Option Leaf :=
  if va >>> 48 = 0 then tableWalk phys va 4 ttbr0
  else if va >>> 48 = 0xffff then tableWalk phys va 4 ttbr1
  else none

/-- The physical address that an access comes to, if it does not fault. -/
def memAccess (phys : UInt64 → UInt64) (ttbr0 ttbr1 : UInt64) (access : Access) (va : UInt64) :
    Option UInt64 :=
  (findLeaf phys ttbr0 ttbr1 va).bind (fun leaf => leaf.reach access va)

/-! ### The kernel's tables -/

/-- `_kernel_pt_level3`: blocks of 2 MiB. -/
def kernelPtLevel3 (id : Index) : UInt64 :=
  UInt64.ofNat (0x200000 * id.val) ||| (if id.val < 504 then pteKernelData else pteKernelDevice)

/-- `_kernel_pt_level2`: a table and blocks of 1 GiB. -/
def kernelPtLevel2 (level3 : UInt64) (id : Index) : UInt64 :=
  if id.val = 0 then k2p level3 + pteTable
  else if id.val = 1 then 0x40000000 ||| pteKernelDevice
  else if id.val = 3 then 0xC0000000 ||| pteKernelDevice
  else 0

def kernelPt (level2 : UInt64) (id : Index) : UInt64 :=
  if id.val = 0 then k2p level2 + pteTable else 0

/-- The three tables are in the physical memory where the linker has put them. -/
structure KernelTables (phys : UInt64 → UInt64) (root level2 level3 : UInt64) : Prop where
  inner : KernelPage level2
  last : KernelPage level3
  atRoot : ∀ id, phys (entryAddr (k2p root) id) = kernelPt level2 id
  atLevel2 : ∀ id, phys (entryAddr (k2p level2) id) = kernelPtLevel2 level3 id
  atLevel3 : ∀ id, phys (entryAddr (k2p level3) id) = kernelPtLevel3 id

/-- The addresses that the kernel's tables map, to themselves without the upper 16 bits. -/
def linearMap (access : Access) (addr : UInt64) : Option UInt64 :=
  if access.user = false ∧ (addr < 0x80000000 ∨ 0xC0000000 ≤ addr ∧ addr < 0x100000000) then
    some addr
  else none

theorem k2p_toNat {page : UInt64} (kernel : KernelPage page) :
    (k2p page).toNat = page.toNat - 0xffff000000000000 := by
  have low := kernel.low
  have high := kernel.high
  unfold physTop at high
  unfold k2p
  rw [UInt64.toNat_sub]
  change (2 ^ 64 - 0xffff000000000000 + page.toNat) % 2 ^ 64 = page.toNat - 0xffff000000000000
  omega

theorem p2k_injective {addr other : UInt64} (same : p2k addr = p2k other) : addr = other :=
  (UInt64.add_left_inj kspaceMask).mp same

theorem p2k_k2p (addr : UInt64) : p2k (k2p addr) = addr := UInt64.sub_add_cancel _ _

theorem KernelPage.readEntry {page : UInt64} (kernel : KernelPage page) {level : Nat}
    (above : level ≠ 3) :
    PageTable.readEntry level (k2p page + pteTable) = .table (k2p page) := by
  have aligned := kernel.aligned
  have low := kernel.low
  have high := kernel.high
  unfold physTop at high
  have number : (k2p page + pteTable).toNat = page.toNat - 0xffff000000000000 + 3 := by
    rw [UInt64.toNat_add, k2p_toNat kernel]
    change (_ + 3) % 2 ^ 64 = _
    omega
  have second : (k2p page + pteTable) &&& 2 ≠ 0 := by
    intro clear
    have bits := congrArg UInt64.toNat clear
    rw [UInt64.toNat_and, number] at bits
    change (page.toNat - 0xffff000000000000 + 3) &&& 2 = 0 at bits
    have tested : (page.toNat - 0xffff000000000000 + 3).testBit 1 = true := by
      rw [Nat.testBit_eq_decide_div_mod_eq]
      exact decide_eq_true (by omega)
    have both := congrArg (fun bits => Nat.testBit bits 1) bits
    simp only [Nat.testBit_and, tested] at both
    cases both
  have valid : ¬ (k2p page + pteTable) &&& 1 = 0 := kernel.packed.1
  have base : pteAddress (k2p page + pteTable) = k2p page :=
    p2k_injective (kernel.packed.2.trans (p2k_k2p page).symm)
  unfold PageTable.readEntry
  rw [if_neg valid, if_neg second, if_neg above, base]

theorem tableWalk_table {phys : UInt64 → UInt64} {va table base : UInt64} {left : Nat}
    (entry : readEntry (3 - left) (phys (entryAddr table (indexAt va (3 - left)))) = .table base) :
    tableWalk phys va (left + 1) table = tableWalk phys va left base := by
  rw [tableWalk]
  simp only [entry]

theorem tableWalk_invalid {phys : UInt64 → UInt64} {va table : UInt64} {left : Nat}
    (entry : readEntry (3 - left) (phys (entryAddr table (indexAt va (3 - left)))) = .invalid) :
    tableWalk phys va (left + 1) table = none := by
  rw [tableWalk]
  simp only [entry]

theorem tableWalk_leaf {phys : UInt64 → UInt64} {va table pte : UInt64} {left : Nat}
    (found : phys (entryAddr table (indexAt va (3 - left))) = pte)
    (entry : readEntry (3 - left) pte = .leaf) :
    tableWalk phys va (left + 1) table = some { level := 3 - left, pte := pte } := by
  rw [tableWalk]
  simp only [found, entry]

theorem kernelPtLevel3_leaf (id : Index) : readEntry 2 (kernelPtLevel3 id) = .leaf ∧
    (pteAddress (kernelPtLevel3 id)).toNat = 0x200000 * id.val ∧
      (kernelPtLevel3 id &&& afUsed != 0) = true ∧ (kernelPtLevel3 id &&& pteUser != 0) = false ∧
        (kernelPtLevel3 id &&& pteRo == 0) = true ∧
          (kernelPtLevel3 id >>> 2) &&& 7 = if id.val < 504 then mtNormal else mtDevice := by
  revert id
  decide +kernel

theorem pspace_toNat (va : UInt64) : (pspace va).toNat = va.toNat % 2 ^ 48 := by
  unfold pspace
  rw [UInt64.toNat_and]
  have mask : (~~~kspaceMask).toNat = 2 ^ 48 - 1 := by decide
  rw [mask, Nat.and_two_pow_sub_one_eq_mod]

/-- The entry that the kernel's tables have for an address. -/
def kernelLeaf (va : UInt64) : Option Leaf :=
  if (pspace va).toNat < 2 ^ 30 then some { level := 2, pte := kernelPtLevel3 (index2 va) }
  else if (pspace va).toNat < 2 ^ 31 then
    some { level := 1, pte := 0x40000000 ||| pteKernelDevice }
  else if 3 * 2 ^ 30 ≤ (pspace va).toNat ∧ (pspace va).toNat < 2 ^ 32 then
    some { level := 1, pte := 0xC0000000 ||| pteKernelDevice }
  else none

theorem KernelTables.walk {phys : UInt64 → UInt64} {root level2 level3 : UInt64}
    (tables : KernelTables phys root level2 level3) (va : UInt64) :
    tableWalk phys va 4 (k2p root) = kernelLeaf va := by
  have first : (index0 va).val = va.toNat / 2 ^ 39 % 512 := vaPart0_toNat va
  have second : (index1 va).val = va.toNat / 2 ^ 30 % 512 := vaPart1_toNat va
  have place := pspace_toNat va
  unfold kernelLeaf
  by_cases outside : (index0 va).val = 0
  · have onward : tableWalk phys va 4 (k2p root) = tableWalk phys va 3 (k2p level2) := by
      apply tableWalk_table
      change readEntry 0 (phys (entryAddr (k2p root) (index0 va))) = _
      rw [tables.atRoot, kernelPt, if_pos outside]
      exact tables.inner.readEntry (by decide)
    have entry := tables.atLevel2 (index1 va)
    rw [onward]
    by_cases zero : (index1 va).val = 0
    · have down : tableWalk phys va 3 (k2p level2) = tableWalk phys va 2 (k2p level3) := by
        apply tableWalk_table
        change readEntry 1 (phys (entryAddr (k2p level2) (index1 va))) = _
        rw [entry, kernelPtLevel2, if_pos zero]
        exact tables.last.readEntry (by decide)
      rw [down, if_pos (by omega)]
      exact tableWalk_leaf (tables.atLevel3 (index2 va)) (kernelPtLevel3_leaf (index2 va)).1
    · rw [if_neg (by omega)]
      by_cases one : (index1 va).val = 1
      · rw [if_pos (by omega)]
        rw [kernelPtLevel2, if_neg zero, if_pos one] at entry
        exact tableWalk_leaf entry (by decide)
      · rw [if_neg (by omega)]
        by_cases three : (index1 va).val = 3
        · rw [if_pos (by omega)]
          rw [kernelPtLevel2, if_neg zero, if_neg one, if_pos three] at entry
          exact tableWalk_leaf entry (by decide)
        · rw [if_neg (by omega)]
          rw [kernelPtLevel2, if_neg zero, if_neg one, if_neg three] at entry
          apply tableWalk_invalid
          change readEntry 1 (phys (entryAddr (k2p level2) (index1 va))) = _
          rw [entry]
          rfl
  · rw [if_neg (by omega), if_neg (by omega), if_neg (by omega)]
    apply tableWalk_invalid
    change readEntry 0 (phys (entryAddr (k2p root) (index0 va))) = _
    rw [tables.atRoot, kernelPt, if_neg outside]
    rfl

theorem linear_iff (addr : UInt64) :
    (addr < 0x80000000 ∨ 0xC0000000 ≤ addr ∧ addr < 0x100000000) ↔
      addr.toNat < 2 ^ 31 ∨ 3 * 2 ^ 30 ≤ addr.toNat ∧ addr.toNat < 2 ^ 32 := by
  rw [UInt64.lt_iff_toNat_lt, UInt64.le_iff_toNat_le, UInt64.lt_iff_toNat_lt]
  rfl

/-- An entry for the kernel whose output address and offset add up to the address. -/
theorem reach_linear {leaf : Leaf} {va : UInt64} (used : (leaf.pte &&& afUsed != 0) = true)
    (privileged : (leaf.pte &&& pteUser != 0) = false) (writable : (leaf.pte &&& pteRo == 0) = true)
    (sum : (pteAddress leaf.pte).toNat / 2 ^ leaf.offsetBits * 2 ^ leaf.offsetBits +
      va.toNat % 2 ^ leaf.offsetBits = (pspace va).toNat)
    (inside : (pspace va).toNat < 2 ^ 31 ∨
      3 * 2 ^ 30 ≤ (pspace va).toNat ∧ (pspace va).toNat < 2 ^ 32)
    (access : Access) : leaf.reach access va = linearMap access (pspace va) := by
  have target : leaf.target va = pspace va := by
    unfold Leaf.target
    rw [sum]
    exact UInt64.ofNat_toNat
  unfold Leaf.reach Leaf.permits linearMap
  rw [used, privileged, writable, target]
  simp only [(linear_iff (pspace va)).mpr inside, and_true]
  cases access.user with
  | true => rfl
  | false =>
      rw [Bool.or_true, Bool.and_true, Bool.true_and]
      rfl

theorem kernelLeaf_reach (access : Access) (va : UInt64) :
    (kernelLeaf va).bind (fun leaf => leaf.reach access va) = linearMap access (pspace va) := by
  have place := pspace_toNat va
  unfold kernelLeaf
  split
  · obtain ⟨-, address, used, privileged, writable, -⟩ := kernelPtLevel3_leaf (index2 va)
    have entry : (index2 va).val = va.toNat / 2 ^ 21 % 512 := vaPart2_toNat va
    apply reach_linear used privileged writable
    · change (pteAddress (kernelPtLevel3 (index2 va))).toNat / 2 ^ 21 * 2 ^ 21 + va.toNat % 2 ^ 21 = _
      rw [address]
      omega
    · omega
  · split
    · apply reach_linear (by decide) (by decide) (by decide)
      · change 0x40000000 / 2 ^ 30 * 2 ^ 30 + va.toNat % 2 ^ 30 = _
        omega
      · omega
    · split
      · apply reach_linear (by decide) (by decide) (by decide)
        · change 0xC0000000 / 2 ^ 30 * 2 ^ 30 + va.toNat % 2 ^ 30 = _
          omega
        · omega
      · rename_i low middle high
        unfold linearMap
        rw [if_neg]
        · rfl
        · rintro ⟨-, inside⟩
          rcases (linear_iff (pspace va)).mp inside with below | between
          · exact middle below
          · exact high between

theorem kernelLeaf_memoryType {va : UInt64} {leaf : Leaf} (found : kernelLeaf va = some leaf) :
    leaf.memoryType = if (pspace va).toNat < physTop then mtNormal else mtDevice := by
  have place := pspace_toNat va
  unfold kernelLeaf at found
  unfold physTop
  split at found
  · cases found
    obtain ⟨-, -, -, -, -, kind⟩ := kernelPtLevel3_leaf (index2 va)
    have entry : (index2 va).val = va.toNat / 2 ^ 21 % 512 := vaPart2_toNat va
    have same : (pspace va).toNat < 0x3f000000 ↔ (index2 va).val < 504 := by omega
    simp only [same]
    exact kind
  · rw [if_neg (by omega)]
    split at found
    · cases found
      rfl
    · split at found
      · cases found
        rfl
      · cases found

/-- Through the kernel's tables the kernel reaches every physical address below 2 GiB, and from
3 GiB to 4 GiB, at that address plus `KSPACE_MASK`, and nothing else. A user program reaches
nothing. Memory is cached below `PHYSTOP` only. -/
theorem kernel_space_linear {phys : UInt64 → UInt64} {ttbr0 root level2 level3 : UInt64}
    (tables : KernelTables phys root level2 level3) (access : Access) {va : UInt64}
    (upper : va >>> 48 = 0xffff) :
    memAccess phys ttbr0 (k2p root) access va = linearMap access (pspace va) ∧
      ∀ leaf, findLeaf phys ttbr0 (k2p root) va = some leaf →
        leaf.memoryType = if (pspace va).toNat < physTop then mtNormal else mtDevice := by
  have walked : findLeaf phys ttbr0 (k2p root) va = kernelLeaf va := by
    unfold findLeaf
    rw [upper, if_neg (by decide), if_pos rfl]
    exact tables.walk va
  constructor
  · unfold memAccess
    rw [walked]
    exact kernelLeaf_reach access va
  · intro leaf found
    rw [walked] at found
    exact kernelLeaf_memoryType found

/-- The kernel's tables in three pages of the memory. -/
def kernelMemory (addr : UInt64) : UInt64 :=
  let id : Index := ⟨addr.toNat / 8 % 512, Nat.mod_lt _ (by decide)⟩
  if inPage 0x90000 addr then kernelPt 0xffff000000091000 id
  else if inPage 0x91000 addr then kernelPtLevel2 0xffff000000092000 id
  else kernelPtLevel3 id

theorem kernelMemory_tables : KernelTables kernelMemory 0xffff000000090000 0xffff000000091000
    0xffff000000092000 := by
  constructor
  · exact ⟨by decide, by decide, by decide⟩
  · exact ⟨by decide, by decide, by decide⟩
  · decide +kernel
  · decide +kernel
  · decide +kernel

/-- A register of a device, an address between the blocks, and a user program at the first. -/
theorem kernel_space_linear_device :
    memAccess kernelMemory 0 0x90000 { user := false, write := true } 0xffff00003f215004 =
        some 0x3f215004 ∧
      memAccess kernelMemory 0 0x90000 { user := false, write := false } 0xffff000080000000 = none ∧
        memAccess kernelMemory 0 0x90000 { user := true, write := false } 0xffff00003f215004 =
          none :=
  ⟨(kernel_space_linear kernelMemory_tables { user := false, write := true } (by decide)).1,
    (kernel_space_linear kernelMemory_tables { user := false, write := false } (by decide)).1,
    (kernel_space_linear kernelMemory_tables { user := true, write := false } (by decide)).1⟩

end LabKernel.Kernel.PageTable
