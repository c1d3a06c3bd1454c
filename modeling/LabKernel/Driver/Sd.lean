/-
The request queue of `sd.c`, with the card behind it.

`sdrw` is split where it gives up the lock of the queue: up to its first wait, the wait, and the
test of the loop after a wait. `sd_intr` holds the lock throughout. The waits that `sd_start` and
`sd_intr` do themselves for the ready interrupts of the card end before they go on.
-/

import LabKernel.Lib.Transition
import LabKernel.Common.Sem
import LabKernel.Common.Queue

set_option autoImplicit false

namespace LabKernel.Driver

open Common Rings

/-- Where a `buf` is, which also names its list node. -/
abbrev BufAddr := Nat

/-- The 128 words of a block. -/
abbrev Sector := Fin 128 → UInt32

structure Buf where
  flags : UInt32
  blockno : UInt32
  data : Sector
  sl : Semaphore

def bValid : UInt32 := 0x2

def bDirty : UInt32 := 0x4

def intReadRdy : UInt32 := 0x20

def intDataDone : UInt32 := 0x2

def Buf.isWrite (buf : Buf) : Bool := buf.flags &&& bDirty ≠ 0

/-- What `sd_start` tells the card: the command with its block, and the words of a write. -/
structure Request where
  buffer : BufAddr
  write : Bool
  bno : UInt32
  words : Option Sector

/-- `EMMC_INTERRUPT`, the words that `EMMC_DATA` yields, and the request the card works on. -/
structure Card where
  highCapacity : Bool
  interrupt : UInt32
  data : Sector
  inFlight : Option Request

/-- The block is addressed by its number or by its first byte. -/
def Card.request (card : Card) (buffer : BufAddr) (buf : Buf) : Request :=
  { buffer := buffer
    write := buf.isWrite
    bno := if card.highCapacity then buf.blockno else buf.blockno <<< 9
    words := if buf.isWrite then some buf.data else none }

/-- A call of `sdrw`: its buffer, and how many requests were queued before its own. -/
structure Call where
  buffer : BufAddr
  ticket : Nat
  deriving DecidableEq

inductive Place where
  | out
  | waiting (call : Call)
  | asleep (call : Call)
  | woken (call : Call)
  deriving DecidableEq

def Place.call : Place → Option Call
  | .out => none
  | .waiting call | .asleep call | .woken call => some call

inductive CardEvent where
  | started (buffer : BufAddr)
  | finished (buffer : BufAddr)
  deriving DecidableEq

inductive Stop where
  | panic
  | nullLink
  | disabled
  deriving DecidableEq

/-- `requests` are the buffers in the order they were queued, of which the first `completed` ones
are done, and `log` is what has happened at the card. -/
structure SdSystem where
  buf : BufAddr → Buf
  links : Links BufAddr
  sdque : Queue BufAddr
  card : Card
  place : Tid → Place
  requests : List BufAddr
  completed : Nat
  log : List CardEvent

/-- After `sd_init`. -/
def SdSystem.initial (buf : BufAddr → Buf) (links : Links BufAddr) (highCapacity : Bool)
    (data : Sector) : SdSystem :=
  { buf := buf
    links := links
    sdque := queueInit
    card :=
      { highCapacity := highCapacity
        interrupt := 0
        data := data
        inFlight := none }
    place := fun _ => .out
    requests := []
    completed := 0
    log := [] }

def liftQueue {α : Type} : Except QueueStop α → Except Stop α
  | .ok value => .ok value
  | .error .panic => .error .panic
  | .error .nullLink => .error .nullLink

namespace SdSystem

variable (sys : SdSystem)

def setBuf (buffer : BufAddr) (buf : Buf) : SdSystem :=
  { sys with buf := Function.update sys.buf buffer buf }

def goto (proc : Tid) (place : Place) : SdSystem :=
  { sys with place := Function.update sys.place proc place }

def setQueue (queue : Links BufAddr × Queue BufAddr) : SdSystem :=
  { sys with
    links := queue.1
    sdque := queue.2 }

/-! ### Starting requests -/

def sdStart (buffer : BufAddr) : Except Stop SdSystem :=
  if sys.card.interrupt ≠ 0 then .error .panic
  else
    .ok { sys with
      card := { sys.card with inFlight := some (sys.card.request buffer (sys.buf buffer)) }
      log := sys.log ++ [.started buffer] }

def requestHead : Except Stop SdSystem :=
  match liftQueue (queueFront sys.sdque) with
  | .error stop => .error stop
  | .ok buffer => sys.sdStart buffer

/-- The card raises the interrupt for the request it works on, once. -/
def raise (words : Sector) : Except Stop SdSystem :=
  match sys.card.inFlight with
  | none => .error .disabled
  | some request =>
      if sys.card.interrupt ≠ 0 then .error .disabled
      else
        .ok { sys with
          card :=
            { sys.card with
              interrupt := if request.write then intDataDone else intReadRdy
              data := words } }

/-! ### The interrupt handler -/

/-- `get_and_clear_EMMC_INTERRUPT`, which ends the request. -/
def acknowledge : SdSystem :=
  { sys with
    card :=
      { sys.card with
        interrupt := 0
        inFlight := none } }

/-- The data of a read is taken from the card, and the flags are set. -/
def finish (buffer : BufAddr) : SdSystem :=
  let buf := sys.buf buffer
  { sys.setBuf buffer
      { buf with
        data := if buf.isWrite then buf.data else sys.card.data
        flags := bValid } with
    completed := sys.completed + 1
    log := sys.log ++ [.finished buffer] }

def wake : Option Tid → SdSystem
  | none => sys
  | some proc =>
      match sys.place proc with
      | .asleep call => sys.goto proc (.woken call)
      | _ => sys

/-- `post_sem(&bid->sl)`. -/
def post (buffer : BufAddr) : Except Stop SdSystem :=
  let buf := sys.buf buffer
  match postSem buf.sl with
  | none => .error .panic
  | some (proc, sl) => .ok ((sys.setBuf buffer { buf with sl := sl }).wake proc)

/-- `queue_pop`, and the next request. -/
def popHead : Except Stop SdSystem :=
  match liftQueue (queuePop sys.links sys.sdque) with
  | .error stop => .error stop
  | .ok popped =>
      if queueEmpty popped.2 then .ok (sys.setQueue popped)
      else (sys.setQueue popped).requestHead

def sdIntr : Except Stop SdSystem :=
  if queueEmpty sys.sdque then .ok sys
  else
    let intr := sys.card.interrupt
    match liftQueue (queueFront sys.sdque) with
    | .error stop => .error stop
    | .ok bid =>
        let isWrite := (sys.buf bid).isWrite
        if intr ≠ intReadRdy ∧ intr ≠ intDataDone then .error .panic
        else if (isWrite = true ∧ intr ≠ intDataDone) ∨ (isWrite = false ∧ intr ≠ intReadRdy) then
          .error .panic
        else
          match (sys.acknowledge.finish bid).post bid with
          | .error stop => .error stop
          | .ok posted => posted.popHead

/-! ### Calls -/

/-- The head of the loop of `sdrw`, up to the wait or the return. -/
def check (proc : Tid) (call : Call) : SdSystem :=
  if (sys.buf call.buffer).flags = bValid then sys.goto proc .out
  else sys.goto proc (.waiting call)

/-- `queue_push`, and `request_head` when the queue was empty. -/
def submit (buffer : BufAddr) : Except Stop SdSystem :=
  match liftQueue (queuePush sys.links sys.sdque buffer) with
  | .error stop => .error stop
  | .ok pushed =>
      let queued := { sys.setQueue pushed with requests := sys.requests ++ [buffer] }
      if queueEmpty sys.sdque then queued.requestHead else .ok queued

/-- `init_sem(&b->sl, 0)`. -/
def initSl (buffer : BufAddr) : SdSystem :=
  sys.setBuf buffer { sys.buf buffer with sl := initSem 0 }

/-- `sdrw` up to its first wait. -/
def sdrw (proc : Tid) (buffer : BufAddr) : Except Stop SdSystem :=
  match sys.place proc with
  | .out =>
      match sys.submit buffer with
      | .error stop => .error stop
      | .ok started =>
          .ok ((started.initSl buffer).check proc
            { buffer := buffer
              ticket := sys.requests.length })
  | _ => .error .disabled

/-- The wait has returned true, or the process sleeps. -/
def waited (proc : Tid) (call : Call) (result : Bool × Semaphore) : SdSystem :=
  (sys.setBuf call.buffer { sys.buf call.buffer with sl := result.2 }).goto proc
    (if result.1 then .woken call else .asleep call)

/-- `unalertable_wait_sem(&b->sl)`, up to the point where it returns or sleeps. -/
def wait (proc : Tid) : Except Stop SdSystem :=
  match sys.place proc with
  | .waiting call => .ok (sys.waited proc call (waitSem proc (sys.buf call.buffer).sl))
  | _ => .error .disabled

def recheck (proc : Tid) : Except Stop SdSystem :=
  match sys.place proc with
  | .woken call => .ok (sys.check proc call)
  | _ => .error .disabled

/-- The owner of a buffer writes to it, or its stack is used for something else. -/
def fill (buffer : BufAddr) (buf : Buf) (prev next : Option BufAddr) : SdSystem :=
  { sys.setBuf buffer buf with
    links := (sys.links.setPrev buffer prev).setNext buffer next }

end SdSystem

/-! ### Steps -/

inductive SdAction where
  | fill (buffer : BufAddr) (buf : Buf) (prev next : Option BufAddr)
  | sdrw (proc : Tid) (buffer : BufAddr)
  | wait (proc : Tid)
  | recheck (proc : Tid)
  | raise (words : Sector)
  | sdIntr

def sdStep (sys : SdSystem) : SdAction → Except Stop SdSystem
  | .fill buffer buf prev next => .ok (sys.fill buffer buf prev next)
  | .sdrw proc buffer => sys.sdrw proc buffer
  | .wait proc => sys.wait proc
  | .recheck proc => sys.recheck proc
  | .raise words => sys.raise words
  | .sdIntr => sys.sdIntr

def SdSystem.pending (sys : SdSystem) : List BufAddr := sys.requests.drop sys.completed

/-- Nobody else writes to the buffer of a running call, `sdrw` is called for a buffer that is not
queued and does not have exactly the valid flag, and the handler runs for an interrupt. -/
def sdGuard (sys : SdSystem) : SdAction → Prop
  | .fill buffer _ _ _ => ∀ proc call, (sys.place proc).call = some call → call.buffer ≠ buffer
  | .sdrw _ buffer => (sys.buf buffer).flags ≠ bValid ∧ buffer ∉ sys.pending
  | .sdIntr => queueEmpty sys.sdque = false → sys.card.interrupt ≠ 0
  | _ => True

end LabKernel.Driver
