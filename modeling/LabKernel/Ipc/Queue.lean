/-
Message queues of `ipc.c`: the identifier table, the waiting lists and what each
critical section does to them.

A list of the source is the list of its elements from `head.next` on. A process
waits with a record on its own stack, so a receiver's record is kept on the
queue's list and the slot `r_msg` with the process.
-/

import LabKernel.Common.Sem
import LabKernel.Ipc.Message
import Mathlib.Logic.Function.Basic

set_option autoImplicit false

namespace LabKernel.Ipc

open Common

/-! ### Constants -/

def enomem : Int := -1
def enoseq : Int := -2
def enoent : Int := -3
def eexist : Int := -4
def einval : Int := -5
def eagain : Int := -6
def eidrm : Int := -7
def e2big : Int := -8
def enomsg : Int := -9

def ipcRmid : Int := 0
def ipcPrivate : Int := 0
def ipcCreate : UInt32 := 2
def ipcExcl : UInt32 := 1
def ipcNowait : UInt32 := 1

/-- `SEQ_MULTIPLIER`, which is also the number of entries. -/
def seqMultiplier : Nat := 16

def maxMsgnum : Int := 256

/-- Why a section does not come to its end: the process cannot take this step, the section reads
outside the table, follows the null link behind a message, reads a slot nobody has written,
or walks a detached node for ever. -/
inductive Stop where
  | blocks
  | outOfBounds
  | nullSegment
  | uninitialised
  | spins
  deriving DecidableEq, Repr

/-! ### Data -/

/-- A message with the number of the call that loaded it. -/
structure Letter extends Msg where
  serial : Nat

/-- `struct msg_receiver` without its slot. -/
structure Receiver where
  proc : Tid
  mtype : Int
  size : Nat
  deriving DecidableEq, Repr

structure MsgQueue where
  key : Int
  seq : UInt16
  maxMsg : Int
  sumMsg : Int
  qMessage : List Letter
  qSender : List Tid
  qReceiver : List Receiver

/-- `struct ipc_ids` without its lock. -/
structure IpcIds where
  inUse : Int
  seq : UInt16
  entries : Fin seqMultiplier → Option MsgQueue

def initIpc : IpcIds := { inUse := 0, seq := 0, entries := fun _ => none }

def IpcIds.setEntry (ids : IpcIds) (slot : Fin seqMultiplier) (entry : Option MsgQueue) : IpcIds :=
  { ids with entries := Function.update ids.entries slot entry }

/-! ### Identifiers -/

/-- The search loops of `ipc_addid` and `ipc_findkey`. -/
def IpcIds.firstSlot (ids : IpcIds) (test : Option MsgQueue → Bool) : Option (Fin seqMultiplier) :=
  (List.finRange seqMultiplier).find? (fun slot => test (ids.entries slot))

def ipcBuildin (slot : Fin seqMultiplier) (seq : UInt16) : Int :=
  (seq.toNat : Int) * seqMultiplier + slot.val

/-- `newque` and the `ipc_addid` in it; `allocated` says whether `kalloc` gave memory. -/
def newque (ids : IpcIds) (key : Int) (allocated : Bool) : Int × IpcIds :=
  if allocated then
    match ids.firstSlot (fun entry => entry.isNone) with
    | none => (enoseq, ids)
    | some slot =>
        let que : MsgQueue :=
          { key := key
            seq := ids.seq
            maxMsg := maxMsgnum
            sumMsg := 0
            qMessage := []
            qSender := []
            qReceiver := [] }
        (ipcBuildin slot que.seq,
          { inUse := ids.inUse + 1
            seq := ids.seq + 1
            entries := Function.update ids.entries slot (some que) })
  else (enomem, ids)

def ipcFindkey (ids : IpcIds) (key : Int) : Option (Fin seqMultiplier) :=
  ids.firstSlot (fun entry => entry.any (fun que => que.key = key))

def sysMsgget (ids : IpcIds) (key : Int) (msgflg : UInt32) (allocated : Bool) : Int × IpcIds :=
  if key = ipcPrivate then newque ids key allocated
  else
    match ipcFindkey ids key with
    | none => if msgflg &&& ipcCreate ≠ 0 then newque ids key allocated else (enoent, ids)
    | some slot =>
        if msgflg &&& ipcExcl ≠ 0 then (eexist, ids)
        else
          match ids.entries slot with
          | none => (enoent, ids)
          | some que => (ipcBuildin slot que.seq, ids)

/-- `get_msgq`: the slot of the queue. A negative remainder indexes in front of the table. -/
def getMsgq (ids : IpcIds) (msgid : Int) : Except Stop (Option (Fin seqMultiplier)) :=
  let id := msgid.tmod seqMultiplier
  if id < 0 then .error .outOfBounds
  else if within : id.toNat < seqMultiplier then
    match ids.entries ⟨id.toNat, within⟩ with
    | none => .ok none
    | some que =>
        if msgid.tdiv seqMultiplier ≠ que.seq.toNat then .ok none
        else .ok (some ⟨id.toNat, within⟩)
  else .ok none

/-! ### Matching -/

def testmsg (rqtype type : Int) : Bool :=
  if rqtype = 0 then true
  else if rqtype < 0 then rqtype + type ≤ 0
  else rqtype = type

/-- The search loop of `sys_msgrcv`. A negative type moves up by one at every message found, and
the search goes on. -/
def searchLoop : Int → List Letter → Option Letter → Option Letter
  | _, [], found => found
  | mtype, msg :: rest, found =>
      if testmsg mtype msg.mtype then
        if mtype < -1 then searchLoop (mtype + 1) rest (some msg) else some msg
      else searchLoop mtype rest found

/-- What `pipeline_send` leaves: the receivers given a null message, the one given the
message, and those still waiting. -/
structure Piped where
  refused : List Receiver
  taker : Option Receiver
  waiting : List Receiver
  deriving DecidableEq, Repr

/-- The node a walk of `_for_in_list` is at: one of the list, or one that has been detached, whose
links lead to itself. -/
inductive Cursor where
  | listed (rest : List Receiver)
  | detached (node : Receiver)

/-- The walk of `pipeline_send`, in at most the given number of rounds. `passed` are the
receivers walked over, `beyond` those behind a detached node. -/
def pipelineLoop (msg : Msg) : Nat → List Receiver → List Receiver → Cursor → List Receiver →
    Option Piped
  | 0, _, _, _, _ => none
  | _ + 1, refused, passed, .listed [], _ =>
      some { refused := refused, taker := none, waiting := passed }
  | rounds + 1, refused, passed, .listed (rcver :: rest), beyond =>
      if testmsg rcver.mtype msg.mtype then
        if rcver.size < msg.size then
          pipelineLoop msg rounds (refused ++ [rcver]) passed (.detached rcver) rest
        else some { refused := refused, taker := some rcver, waiting := passed ++ rest }
      else pipelineLoop msg rounds refused (passed ++ [rcver]) (.listed rest) beyond
  | rounds + 1, refused, passed, .detached rcver, beyond =>
      if testmsg rcver.mtype msg.mtype then
        if rcver.size < msg.size then
          pipelineLoop msg rounds (refused ++ [rcver]) passed (.detached rcver) beyond
        else some { refused := refused, taker := some rcver, waiting := passed ++ beyond }
      else pipelineLoop msg rounds refused passed (.detached rcver) beyond

/-- `pipeline_send`. There is no result when the walk takes more rounds than there are
receivers and the head. -/
def pipelineSend (receivers : List Receiver) (msg : Msg) : Option Piped :=
  pipelineLoop msg (receivers.length + 1) [] [] (.listed receivers) []

end LabKernel.Ipc
