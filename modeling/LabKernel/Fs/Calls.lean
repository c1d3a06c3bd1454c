/-
The calls of the block cache, by callers whose calls do not overlap.

Each call runs to its return, but for an `end_op` that is not the last one: its caller
sleeps until the group commits, and nothing it does after that touches the cache. The
state keeps which blocks were returned and not released, and which operations
were begun and not ended, since callers may use only these.
-/

import LabKernel.Fs.Commit
import LabKernel.Fs.Operation

set_option autoImplicit false

namespace LabKernel.Fs

open Common Transition

/-- The static variables of `cache.c`, the contexts, and what the callers hold. -/
structure Bcache where
  volume : Volume
  log : LogVars
  rm : CtxId → Nat
  running : List CtxId
  held : List Addr

namespace Bcache

/-- `init_bcache`, over whatever the memory holds. -/
def init (sblock : SuperBlock) (heap : Addr → Block) (disk : Disk) : Except Stop Bcache := do
  let volume ← recoverFromLog sblock (boot heap disk)
  return { volume := volume
           log := { outstanding := 0, committing := false, mu := 0, mx := sblock.logMx }
           rm := fun _ => 0
           running := []
           held := [] }

variable (bcache : Bcache)

def acquire (blockNo : BlockNo) : Except Stop (Addr × Bcache) := do
  let (addr, volume) ← bcache.volume.cacheAcquire blockNo
  return (addr, { bcache with volume := volume, held := addr :: bcache.held })

def release (addr : Addr) : Except Stop Bcache := do
  let volume ← bcache.volume.cacheRelease addr
  return { bcache with volume := volume, held := bcache.held.erase addr }

def store (addr : Addr) (data : BlockData) : Except Stop Bcache :=
  if addr ∈ bcache.volume.cache.order then
    .ok { bcache with volume :=
      bcache.volume.setBlock addr { bcache.volume.block addr with data := data } }
  else .error .useAfterFree

def data (addr : Addr) : BlockData := (bcache.volume.block addr).data

def beginOp (ctx : CtxId) : Except Stop Bcache :=
  if bcache.log.committing || bcache.log.full bcache.volume.header then .error .blocks
  else
    .ok { bcache with
      log := bcache.log.beginOp
      rm := Function.update bcache.rm ctx opMaxNumBlocks
      running := ctx :: bcache.running }

/-- `cache_sync`; without a context the block goes to the device at once. -/
def sync (ctx : Option CtxId) (addr : Addr) : Except Stop Bcache :=
  match ctx with
  | none => do
      let volume ← bcache.volume.deviceWrite addr
      return { bcache with volume := volume }
  | some ctx =>
      if addr ∈ bcache.volume.cache.order then do
        let block := bcache.volume.block addr
        let synced ← cacheSync bcache.log bcache.volume.header (bcache.rm ctx) block.blockNo
        let volume := { bcache.volume with header := synced.header }
        return { bcache with
          volume := volume.setBlock addr { block with pinned := block.pinned || synced.added }
          log := synced.log
          rm := Function.update bcache.rm ctx synced.rm }
      else .error .useAfterFree

def endOp (sblock : SuperBlock) (ctx : CtxId) : Except Stop Bcache :=
  let closed :=
    { bcache with
      log := bcache.log.endOp (bcache.rm ctx)
      running := bcache.running.erase ctx }
  if closed.log.committing then .error .panicCommitting
  else if closed.log.outstanding = 0 then do
    let volume ← commit sblock closed.volume
    return { closed with volume := volume }
  else .ok closed

end Bcache

/-! ### The block bitmap -/

def bitPerBlock : Nat := blockSize * 8

def bblock (sblock : SuperBlock) (blockNo : UInt64) : BlockNo :=
  blockNo / UInt64.ofNat bitPerBlock + sblock.bitmapStart.toUInt64

/-- `(u8)(1 << (bi % 8))`. -/
def bitMask (bi : Nat) : UInt8 := UInt8.ofNat (1 <<< (bi % 8))

/-- The byte `bi / 8` of a block of bits. -/
def bitByte (bi : Fin bitPerBlock) : Fin blockSize :=
  ⟨bi.val / 8, by have inside := bi.isLt; unfold bitPerBlock at inside; omega⟩

def bitClear (data : BlockData) (bi : Fin bitPerBlock) : Bool :=
  data (bitByte bi) &&& bitMask bi.val = 0

def setBit (data : BlockData) (bi : Fin bitPerBlock) : BlockData :=
  Function.update data (bitByte bi) (data (bitByte bi) ||| bitMask bi.val)

def clearBit (data : BlockData) (bi : Fin bitPerBlock) : BlockData :=
  Function.update data (bitByte bi) (data (bitByte bi) &&& ~~~bitMask bi.val)

/-- The inner loop of `cache_alloc`, from bit `bi` on. -/
def scanBits (data : BlockData) (b numBlocks : UInt32) : Nat → Nat → Option (Fin bitPerBlock)
  | 0, _ => none
  | rounds + 1, bi =>
      if within : bi < bitPerBlock then
        if b + UInt32.ofNat bi < numBlocks then
          if bitClear data ⟨bi, within⟩ then some ⟨bi, within⟩
          else scanBits data b numBlocks rounds (bi + 1)
        else none
      else none

namespace Bcache

def bzero (ctx : Option CtxId) (blockNo : UInt32) (bcache : Bcache) : Except Stop Bcache := do
  let (bp, bcache) ← bcache.acquire blockNo.toUInt64
  let bcache ← bcache.store bp (fun _ => 0)
  let bcache ← bcache.sync ctx bp
  bcache.release bp

/-- The end of `cache_alloc` at a clear bit. -/
def take (ctx : Option CtxId) (bp : Addr) (bi : Fin bitPerBlock) (blockNo : UInt32)
    (bcache : Bcache) : Except Stop Bcache := do
  let bcache ← bcache.store bp (setBit (bcache.data bp) bi)
  let bcache ← bcache.sync ctx bp
  let bcache ← bcache.release bp
  bcache.bzero ctx blockNo

/-- The outer loop of `cache_alloc`, with `b` in 32 bits. After as many rounds as `b` has
values it would begin again. -/
def allocLoop (sblock : SuperBlock) (ctx : Option CtxId) :
    Nat → UInt32 → Bcache → Except Stop (UInt32 × Bcache)
  | 0, _, _ => .error .blocks
  | rounds + 1, b, bcache =>
      if b < sblock.numBlocks then do
        let (bp, bcache) ← bcache.acquire (bblock sblock b.toUInt64)
        match scanBits (bcache.data bp) b sblock.numBlocks bitPerBlock 0 with
        | some bi =>
            let blockNo := b + UInt32.ofNat bi.val
            let bcache ← bcache.take ctx bp bi blockNo
            return (blockNo, bcache)
        | none =>
            let bcache ← bcache.release bp
            allocLoop sblock ctx rounds (b + UInt32.ofNat bitPerBlock) bcache
      else .error .panicNoFreeBlock

def alloc (sblock : SuperBlock) (ctx : Option CtxId) (bcache : Bcache) :
    Except Stop (UInt32 × Bcache) :=
  allocLoop sblock ctx (2 ^ 32 / bitPerBlock) 0 bcache

def free (sblock : SuperBlock) (ctx : Option CtxId) (blockNo : UInt64) (bcache : Bcache) :
    Except Stop Bcache := do
  let (bp, bcache) ← bcache.acquire (bblock sblock blockNo)
  let bi : Fin bitPerBlock := ⟨blockNo.toNat % bitPerBlock, Nat.mod_lt _ (by decide)⟩
  if bitClear (bcache.data bp) bi then .error .panicDoubleFree
  else do
    let bcache ← bcache.store bp (clearBit (bcache.data bp) bi)
    let bcache ← bcache.sync ctx bp
    bcache.release bp

end Bcache

/-! ### Runs of calls -/

inductive Call where
  | acquire (blockNo : BlockNo)
  | store (addr : Addr) (data : BlockData)
  | release (addr : Addr)
  | beginOp (ctx : CtxId)
  | sync (ctx : Option CtxId) (addr : Addr)
  | endOp (ctx : CtxId)
  | alloc (ctx : Option CtxId)
  | free (ctx : Option CtxId) (blockNo : UInt64)

/-- What callers may do: use blocks they hold and operations they have begun. -/
def Call.permitted (bcache : Bcache) : Call → Bool
  | .acquire _ => true
  | .store addr _ | .release addr => addr ∈ bcache.held
  | .beginOp ctx => ctx ∉ bcache.running
  | .sync ctx addr => addr ∈ bcache.held ∧ ∀ own ∈ ctx, own ∈ bcache.running
  | .endOp ctx => ctx ∈ bcache.running
  | .alloc ctx | .free ctx _ => ∀ own ∈ ctx, own ∈ bcache.running

def callStep (sblock : SuperBlock) (bcache : Bcache) (call : Call) : Except Stop Bcache :=
  if call.permitted bcache then
    match call with
    | .acquire blockNo => (bcache.acquire blockNo).map Prod.snd
    | .store addr data => bcache.store addr data
    | .release addr => bcache.release addr
    | .beginOp ctx => bcache.beginOp ctx
    | .sync ctx addr => bcache.sync ctx addr
    | .endOp ctx => bcache.endOp sblock ctx
    | .alloc ctx => (bcache.alloc sblock ctx).map Prod.snd
    | .free ctx blockNo => bcache.free sblock ctx blockNo
  else .error .blocks

end LabKernel.Fs
