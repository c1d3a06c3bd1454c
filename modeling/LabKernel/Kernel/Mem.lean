/-
The page and block allocators of `mem.c`, run by one CPU.

Free pages and free chunks are on lists whose links are in the first word of the page or chunk
itself. The first word of an allocated chunk is the address of the list it belongs to.
-/

import LabKernel.Kernel.Sched
import LabKernel.Lib.ByteMemory
import LabKernel.Lib.Chain
import Mathlib.Data.Nat.Log

set_option autoImplicit false

namespace LabKernel.Kernel

open ByteMemory

def pageSize : Nat := 4096

/-- The memory, `free_page`, `simple_alloc_pool` and `alloc_page_cnt.count`. -/
structure Mem where
  bytes : Memory
  freePage : Option Nat
  pool : Nat → Option Nat
  count : Int

/-- The link in the first word of a node; 0 is the null pointer. -/
@[irreducible]
def nextOf (bytes : Memory) (node : Nat) : Option Nat :=
  if readWord bytes node = 0 then none else some (readWord bytes node)

/-- `add_to_queue` on a list with this head. -/
def addToQueue (bytes : Memory) (head : Option Nat) (node : Nat) : Memory :=
  writeWord bytes node (head.getD 0)

namespace Mem

variable (mem : Mem)

def popPage (page : Nat) : Mem := { mem with freePage := nextOf mem.bytes page }

def setCount (count : Int) : Mem := { mem with count := count }

/-- `kalloc_page`: the count goes up before the list is looked at. -/
def kallocPage : Option Nat × Mem :=
  match mem.freePage with
  | none => (none, mem.setCount (mem.count + 1))
  | some page => (some page, (mem.setCount (mem.count + 1)).popPage page)

def kfreePage (page : Nat) : Mem :=
  { mem with
    count := mem.count - 1
    bytes := addToQueue mem.bytes mem.freePage page
    freePage := some page }

end Mem

/-- `__builtin_clz` of a 32-bit number that is not zero. -/
def clz (value : Nat) : Nat := 31 - Nat.log2 value

def sizeClass (size : Nat) : Nat := 32 - clz (size + 8 - 1) - 4

/-- The size of the chunks of a pool: `16u << i`. -/
def chunkSize (index : Nat) : Nat := 16 * 2 ^ index

namespace Mem

variable (mem : Mem)

/-- `add_to_queue(&simple_alloc_pool[index], chunk)`. -/
def addToPool (index chunk : Nat) : Mem :=
  { mem with
    bytes := addToQueue mem.bytes (mem.pool index) chunk
    pool := Function.update mem.pool index (some chunk) }

def popChunk (index chunk : Nat) : Mem :=
  { mem with pool := Function.update mem.pool index (nextOf mem.bytes chunk) }

/-- The loop that puts the chunks of a new page onto their list, from an offset on and in at
most the given number of rounds. -/
def carve (index page : Nat) : Nat → Nat → Mem → Mem
  | 0, _, mem => mem
  | rounds + 1, offset, mem =>
      if offset < pageSize then
        carve index page rounds (offset + chunkSize index) (mem.addToPool index (page + offset))
      else mem

/-- The end of `simple_pool_alloc`: the header and the cleared block. -/
def hand (poolAddr index size chunk : Nat) : Mem :=
  { mem with
    bytes := fill (writeWord mem.bytes chunk (poolAddr + 8 * index)) (chunk + 8) 0 size }

/-- `simple_pool_alloc` from the choice of the pool on. -/
def poolAlloc (poolAddr size : Nat) : Option Nat × Mem :=
  let index := sizeClass size
  match mem.pool index with
  | some chunk => (some (chunk + 8), (mem.popChunk index chunk).hand poolAddr index size chunk)
  | none =>
      match mem.kallocPage with
      | (none, mem) => (none, mem)
      | (some page, mem) =>
          let mem := carve index page pageSize (chunkSize index) mem
          (some (page + 8), mem.hand poolAddr index size page)

/-- `simple_pool_alloc`. For a size of more than half a page a page is taken and forgotten. -/
def simplePoolAlloc (poolAddr : Nat) (size : Int) : Option Nat × Mem :=
  if size > pageSize - 8 ∨ size ≤ 0 then (none, mem)
  else
    let mem := if size > pageSize / 2 - 8 then mem.kallocPage.2 else mem
    mem.poolAlloc poolAddr size.toNat

/-- The pool that an address points to. -/
def poolAt (poolAddr word : Nat) : Option Nat :=
  if poolAddr ≤ word ∧ (word - poolAddr) % 8 = 0 ∧ (word - poolAddr) / 8 < 16 then
    some ((word - poolAddr) / 8)
  else none

/-- `simple_pool_free`. There is no result when the header is not the address of a pool. -/
def simplePoolFree (poolAddr block : Nat) : Option Mem :=
  match poolAt poolAddr (readWord mem.bytes (block - 8)) with
  | none => none
  | some index => some (mem.addToPool index (block - 8))

/-- `define_early_init(mem)`. -/
def earlyInit (bytes : Memory) (pages : List Nat) : Mem :=
  pages.foldl kfreePage
    { bytes := bytes, freePage := none, pool := fun _ => none, count := 0 }

end Mem

/-! ### The system -/

/-- A block that `kalloc` has returned, with the size it was asked for. -/
structure Block where
  addr : Nat
  size : Nat
  deriving DecidableEq, Repr

/-- The allocators with the blocks and pages that their callers have. -/
structure Heap where
  mem : Mem
  live : List Block
  held : List Nat

def Heap.initial (bytes : Memory) (pages : List Nat) : Heap :=
  { mem := Mem.earlyInit bytes pages, live := [], held := [] }

/-- The calls, and the writes of the callers into what they have. -/
inductive MemAction where
  | kallocPage
  | kfreePage (page : Nat)
  | kalloc (size : Int)
  | kfree (block : Block)
  | writeBlock (block : Block) (offset : Nat) (byte : UInt8)
  | writePage (page offset : Nat) (byte : UInt8)
  deriving DecidableEq

def Heap.setByte (heap : Heap) (addr : Nat) (byte : UInt8) : Heap :=
  { heap with mem := { heap.mem with bytes := Function.update heap.mem.bytes addr byte } }

def memStep (poolAddr : Nat) (heap : Heap) : MemAction → Except Stop Heap
  | .kallocPage =>
      match heap.mem.kallocPage with
      | (none, mem) => .ok { heap with mem := mem }
      | (some page, mem) => .ok { heap with mem := mem, held := page :: heap.held }
  | .kfreePage page =>
      if page ∈ heap.held then
        .ok { heap with mem := heap.mem.kfreePage page, held := heap.held.erase page }
      else .error .disabled
  | .kalloc size =>
      match heap.mem.simplePoolAlloc poolAddr size with
      | (none, mem) => .ok { heap with mem := mem }
      | (some addr, mem) =>
          .ok { heap with mem := mem, live := { addr := addr, size := size.toNat } :: heap.live }
  | .kfree block =>
      if block ∈ heap.live then
        match heap.mem.simplePoolFree poolAddr block.addr with
        | none => .error .wildNode
        | some mem => .ok { heap with mem := mem, live := heap.live.erase block }
      else .error .disabled
  | .writeBlock block offset byte =>
      if block ∈ heap.live ∧ offset < block.size then
        .ok (heap.setByte (block.addr + offset) byte)
      else .error .disabled
  | .writePage page offset byte =>
      if page ∈ heap.held ∧ offset < pageSize then .ok (heap.setByte (page + offset) byte)
      else .error .disabled

end LabKernel.Kernel
