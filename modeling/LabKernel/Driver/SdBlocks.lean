/-
The contents of the card behind the request queue.

The card yields the words of a block that is read and stores those of a block that is written. A
call of `sdrw` is recorded when its request is queued, with what its buffer holds then, and when it
returns, with what its buffer holds then.
-/

import Mathlib.Algebra.Group.Nat.Defs
import LabKernel.Lib.Serial
import LabKernel.Driver.SdRuns

set_option autoImplicit false

namespace LabKernel.Driver

open Common Rings Transition Serial SdSystem

/-- A request as its caller means it: to write the data to the block, or to read the block. -/
structure Transfer where
  write : Bool
  blockno : UInt32
  data : Sector

def Buf.transfer (buf : Buf) : Transfer :=
  { write := buf.isWrite
    blockno := buf.blockno
    data := buf.data }

/-- A device that does one transfer at a time. -/
def blockStore : Object (UInt32 → Sector) Transfer Sector :=
  { apply := fun blocks transfer =>
      if transfer.write then Function.update blocks transfer.blockno transfer.data else blocks
    answer := fun blocks transfer =>
      if transfer.write then transfer.data else blocks transfer.blockno }

theorem blockStore_apply_other (blocks : UInt32 → Sector) {transfer : Transfer} {blockno : UInt32}
    (apart : transfer.write = true → transfer.blockno ≠ blockno) :
    blockStore.apply blocks transfer blockno = blocks blockno := by
  change (if transfer.write then Function.update blocks transfer.blockno transfer.data
    else blocks) blockno = blocks blockno
  split
  · rename_i write
    exact Function.update_of_ne (Ne.symm (apart write)) _ _
  · rfl

def Card.block (card : Card) (bno : UInt32) : UInt32 :=
  if card.highCapacity then bno else bno >>> 9

/-- The number can be made an address of the card. -/
def Card.Reaches (card : Card) (blockno : UInt32) : Prop :=
  card.highCapacity = true ∨ blockno.toNat < 2 ^ 23

structure SdDevice where
  sys : SdSystem
  blocks : UInt32 → Sector
  history : List (Event Transfer Sector)

def SdDevice.initial (buf : BufAddr → Buf) (links : Links BufAddr) (highCapacity : Bool)
    (data : Sector) (blocks : UInt32 → Sector) : SdDevice :=
  { sys := SdSystem.initial buf links highCapacity data
    blocks := blocks
    history := [] }

namespace SdDevice

variable (dev : SdDevice)

/-- What `EMMC_DATA` yields when the request is done. -/
def yields (request : Request) : Sector :=
  if request.write then dev.sys.card.data else dev.blocks (dev.sys.card.block request.bno)

def stored (request : Request) : UInt32 → Sector :=
  match request.words with
  | some words => Function.update dev.blocks (dev.sys.card.block request.bno) words
  | none => dev.blocks

def lift : Except Stop SdSystem → Except Stop SdDevice
  | .error stop => .error stop
  | .ok sys => .ok { dev with sys := sys }

def complete : Except Stop SdDevice :=
  match dev.sys.card.inFlight with
  | none => .error .disabled
  | some request =>
      match dev.sys.raise (dev.yields request) with
      | .error stop => .error stop
      | .ok raised => .ok { dev with sys := raised, blocks := dev.stored request }

/-- `sdrw`, with its call recorded. -/
def sdrw (proc : Tid) (buffer : BufAddr) : Except Stop SdDevice :=
  match dev.sys.sdrw proc buffer with
  | .error stop => .error stop
  | .ok started => .ok { dev with
      sys := started
      history := dev.history ++ [.called (dev.sys.buf buffer).transfer] }

def leaving (after : SdSystem) (proc : Tid) : Option Call :=
  match after.place proc with
  | .out => (dev.sys.place proc).call
  | _ => none

def note (after : SdSystem) : Option Call → List (Event Transfer Sector)
  | none => dev.history
  | some call => dev.history ++ [.returned call.ticket (after.buf call.buffer).data]

/-- The test after a wait, with the return recorded. -/
def recheck (proc : Tid) : Except Stop SdDevice :=
  match dev.sys.recheck proc with
  | .error stop => .error stop
  | .ok after => .ok { dev with
      sys := after
      history := dev.note after (dev.leaving after proc) }

end SdDevice

inductive DeviceAction where
  | fill (buffer : BufAddr) (buf : Buf) (prev next : Option BufAddr)
  | sdrw (proc : Tid) (buffer : BufAddr)
  | wait (proc : Tid)
  | recheck (proc : Tid)
  | complete
  | sdIntr

def deviceStep (dev : SdDevice) : DeviceAction → Except Stop SdDevice
  | .fill buffer buf prev next => dev.lift (.ok (dev.sys.fill buffer buf prev next))
  | .sdrw proc buffer => dev.sdrw proc buffer
  | .wait proc => dev.lift (dev.sys.wait proc)
  | .recheck proc => dev.recheck proc
  | .complete => dev.complete
  | .sdIntr => dev.lift dev.sys.sdIntr

/-- The queue is used as it should be, for blocks that the card can be asked for. -/
def deviceGuard (dev : SdDevice) : DeviceAction → Prop
  | .fill buffer buf prev next => sdGuard dev.sys (.fill buffer buf prev next)
  | .sdrw proc buffer => sdGuard dev.sys (.sdrw proc buffer) ∧
      dev.sys.card.Reaches (dev.sys.buf buffer).blockno
  | .sdIntr => sdGuard dev.sys .sdIntr
  | _ => True

/-! ### What the card is asked for -/

theorem Card.block_request {card : Card} (buffer : BufAddr) {buf : Buf}
    (reaches : card.Reaches buf.blockno) :
    card.block (card.request buffer buf).bno = buf.blockno := by
  unfold Card.block Card.request
  rcases reaches with high | small
  · simp only [high, if_true]
  · cases card.highCapacity with
    | true => rfl
    | false =>
        apply UInt32.toNat.inj
        simp only [Bool.false_eq_true, if_false]
        rw [UInt32.toNat_shiftRight, UInt32.toNat_shiftLeft]
        change (buf.blockno.toNat <<< 9 % 2 ^ 32) >>> 9 = _
        rw [Nat.shiftLeft_eq, Nat.shiftRight_eq_div_pow]
        omega

variable {dev after : SdDevice} {start : UInt32 → Sector} {buffer : BufAddr}

theorem SdDevice.stored_request (reaches : dev.sys.card.Reaches (dev.sys.buf buffer).blockno) :
    dev.stored (dev.sys.card.request buffer (dev.sys.buf buffer)) =
      blockStore.apply dev.blocks (dev.sys.buf buffer).transfer := by
  have number := Card.block_request buffer reaches
  unfold stored blockStore Buf.transfer
  rw [number]
  unfold Card.request
  cases (dev.sys.buf buffer).isWrite with
  | true => rfl
  | false => rfl

theorem SdDevice.yields_request (reaches : dev.sys.card.Reaches (dev.sys.buf buffer).blockno)
    (read : (dev.sys.buf buffer).isWrite = false) :
    dev.yields (dev.sys.card.request buffer (dev.sys.buf buffer)) =
      dev.blocks (dev.sys.buf buffer).blockno := by
  unfold yields
  rw [Card.block_request buffer reaches]
  exact if_neg (by rw [Bool.not_eq_true]; exact read)

end LabKernel.Driver
