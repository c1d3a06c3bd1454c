/-
The message calls with the messages in their pages.

A message is known by its first page, and what stands there is what was last written. The list
`q_message` is a ring through these pages, a freed page loses its first word to the list of the
free ones, and a receive that was woken with nothing assigned goes on with what lies in the
place of `r_msg` since an earlier receive.
-/

import LabKernel.Ipc.Seats
import LabKernel.Lib.Ring

set_option autoImplicit false

namespace LabKernel.Ipc

open Common Transition Rings

/-- The heads of the queues and the nodes in the first pages of messages. -/
inductive MsgNode where
  | head (slot : Fin seqMultiplier)
  | page (number : Nat)
  deriving DecidableEq, Repr

/-- The message lists of the queues are in the links, and their list fields stay empty. `text` is
the message that was last written to a page, as long as it can be read there, and `stack` what a
process's last receive has left where the next one has its `r_msg`. -/
structure Paged where
  sys : System
  links : Links MsgNode
  text : Nat → Option Letter
  stack : Tid → Slot

def Letter.node (letter : Letter) : MsgNode := .page letter.page.number

/-- The words where the links were hold something else. -/
def wipe (links : Links MsgNode) (numbers : List Nat) : Links MsgNode :=
  { prev := fun node => if node ∈ numbers.map .page then none else links.prev node
    next := fun node => if node ∈ numbers.map .page then none else links.next node }

/-- The message list of a queue that `newque` has put into the first free entry. -/
def initList (before after : IpcIds) (links : Links MsgNode) : Links MsgNode :=
  match before.firstSlot (fun entry => entry.isNone) with
  | none => links
  | some slot => if (after.entries slot).isSome then links.single (.head slot) else links

namespace Paged

variable (paged : Paged) (rounds : Nat)

def initial (pool : List Page) : Paged :=
  { sys := System.initial pool
    links := { prev := fun _ => none, next := fun _ => none }
    text := fun _ => none
    stack := fun _ => .unassigned }

/-- The message behind a pointer, if its pages are still those of one message. -/
def read (number : Nat) : Except Stop Letter :=
  match paged.text number with
  | none => .error .uninitialised
  | some letter =>
      if letter.page.number = number ∧ ∀ seg ∈ letter.segs,
          (paged.text seg.number).map Letter.serial = some letter.serial then .ok letter
      else .error .uninitialised

/-- The pages of a loaded message hold it. Its segments are written from their first word on. -/
def write (letter : Letter) : Paged :=
  { paged with
    links := wipe paged.links (letter.segs.map Page.number)
    text := fun number =>
      if number ∈ letter.pages.map Page.number then some letter else paged.text number }

/-- `free_msg`: the first word of a first page is the link `prev` of its node, and that of a segment
the link to the next one. -/
def free (letter : Letter) : Paged :=
  { paged with
    sys := { paged.sys with pool := freeMsg letter.toMsg paged.sys.pool }
    links := (wipe paged.links (letter.segs.map Page.number)).setPrev letter.node none
    text := fun number =>
      if number ∈ letter.segs.map Page.number then none else paged.text number }

/-- Another call of the process, or its return, leaves something else on its stack. -/
def cover (proc : Tid) (slot : Slot) : Paged :=
  { paged with stack := Function.update paged.stack proc slot }

/-! ### Sections -/

def msgget (proc : Tid) (key : Int) (msgflg : UInt32) (allocated : Bool) : Except Stop Paged :=
  match Ipc.msgget paged.sys proc key msgflg allocated with
  | .error reason => .error reason
  | .ok sys =>
      let links := initList paged.sys.ids sys.ids paged.links
      .ok ({ paged with sys := sys, links := links }.cover proc .unassigned)

/-- A call of `sys_msgsnd` up to `retry`. A load that runs out of pages has written to every free
page. -/
def msgsnd (proc : Tid) (msgid : Int) (msgp : Option MsgBuf) (msgsz : Int) (msgflg : UInt32) :
    Except Stop Paged :=
  match paged.sys.proc proc with
  | .running =>
      match msgp with
      | none => .ok ({ paged with sys := paged.sys.ret proc einval }.cover proc .unassigned)
      | some msgp =>
          if msgsz < 0 ∨ msgp.mtype < 1 then
            .ok ({ paged with sys := paged.sys.ret proc einval }.cover proc .unassigned)
          else
            match loadMsg paged.sys.pool msgp.mtype msgp.data msgsz.toNat with
            | (none, pool) =>
                let numbers := paged.sys.pool.map Page.number
                .ok ({ paged with
                  sys := { paged.sys with pool := pool }.ret proc enomem
                  links := wipe paged.links numbers
                  text := fun number => if number ∈ numbers then none else paged.text number
                }.cover proc .unassigned)
            | (some msg, pool) =>
                let letter : Letter := { msg with serial := paged.sys.calls }
                let loaded := { paged.sys with pool := pool, calls := paged.sys.calls + 1 }
                .ok (({ paged with
                  sys := loaded.goto proc
                    (.sending { msgid := msgid, msgflg := msgflg, letter := letter } true)
                }.write letter).cover proc .unassigned)
  | _ => .error .blocks

/-- `goto free_obj` of `sys_msgsnd`. -/
def refuse (proc : Tid) (number : Nat) (err : Int) : Except Stop Paged :=
  match paged.read number with
  | .error reason => .error reason
  | .ok letter =>
      let freed := paged.free letter
      .ok { freed with sys := freed.sys.ret proc err }

def acceptMsg (proc : Tid) (slot : Fin seqMultiplier) (msgq : MsgQueue) (number : Nat) :
    Except Stop Paged :=
  match paged.read number with
  | .error reason => .error reason
  | .ok letter =>
      match pipelineSend msgq.qReceiver letter.toMsg with
      | none => .error .spins
      | some piped =>
          let left := { msgq with qReceiver := piped.waiting }
          let woken := expungeAll paged.sys piped.refused
          match piped.taker with
          | some rcver =>
              .ok { paged with
                sys :=
                  ((woken.setEntry slot (some left)).goto proc .running).hand (.message letter)
                    rcver.proc |>.record [.accepted slot letter.serial letter.mtype,
                      .handed slot rcver.proc rcver.mtype letter.serial] }
          | none =>
              match paged.links.prev (.head slot) with
              | none => .error .uninitialised
              | some last =>
                  match paged.links.insert last letter.node with
                  | none => .error .uninitialised
                  | some links =>
                      .ok { paged with
                        links := links
                        sys :=
                          ((woken.setEntry slot
                            (some { left with sumMsg := left.sumMsg + 1 })).goto proc .running).record
                              [.accepted slot letter.serial letter.mtype] }

/-- The section of `sys_msgsnd`, from `retry` on. -/
def sendSection (proc : Tid) : Except Stop Paged :=
  match paged.sys.proc proc with
  | .sending call true =>
      match getMsgq paged.sys.ids call.msgid with
      | .error reason => .error reason
      | .ok none => paged.refuse proc call.letter.page.number eidrm
      | .ok (some slot) =>
          match paged.sys.ids.entries slot with
          | none => .error .outOfBounds
          | some msgq =>
              if msgq.maxMsg < msgq.sumMsg + 1 then
                if call.msgflg &&& ipcNowait ≠ 0 then
                  paged.refuse proc call.letter.page.number eagain
                else
                  .ok { paged with
                    sys :=
                      (paged.sys.setEntry slot
                        (some { msgq with qSender := msgq.qSender ++ [proc] })).goto proc
                          (.sending call false) }
              else paged.acceptMsg proc slot msgq call.letter.page.number
  | _ => .error .blocks

/-- The search of `sys_msgrcv`, from a node on. -/
def searchWalk (head : MsgNode) : Nat → Int → Option MsgNode → Option Letter →
    Except Stop (Option Letter)
  | 0, _, _, _ => .error .spins
  | _ + 1, _, none, _ => .error .uninitialised
  | _ + 1, _, some (.head slot), found =>
      if .head slot = head then .ok found else .error .uninitialised
  | rounds + 1, mtype, some (.page number), found =>
      match paged.read number with
      | .error reason => .error reason
      | .ok msg =>
          let next := paged.links.next (.page number)
          if testmsg mtype msg.mtype then
            if mtype < -1 then searchWalk head rounds (mtype + 1) next (some msg) else .ok (some msg)
          else searchWalk head rounds mtype next found

/-- The end of `sys_msgrcv` with a message. -/
def takeMsg (proc : Tid) (call : ReceiveCall) (letter : Letter) : Except Stop Paged :=
  match Ipc.takeMsg paged.sys proc call letter with
  | .error reason => .error reason
  | .ok sys => .ok { paged.free letter with sys := sys }

/-- `sys_msgrcv` with a message from the queue. -/
def takeFound (proc : Tid) (slot : Fin seqMultiplier) (msgq : MsgQueue) (call : ReceiveCall)
    (found : Letter) : Except Stop Paged :=
  match paged.links.detach found.node with
  | none => .error .uninitialised
  | some links =>
      let left := { msgq with sumMsg := msgq.sumMsg - 1, qSender := [] }
      { paged with
        links := links
        sys :=
          (ssWakeup (paged.sys.setEntry slot (some left)) msgq.qSender).record
            [.handed slot proc call.mtype found.serial] }.takeMsg proc call found

/-- `sys_msgrcv`, up to its return or its sleep. -/
def msgrcv (proc : Tid) (msgid : Int) (msgp : Option MsgBuf) (msgsz mtype : Int)
    (msgflg : UInt32) : Except Stop Paged :=
  match paged.sys.proc proc with
  | .running =>
      match msgp with
      | none => .ok { paged with sys := paged.sys.ret proc einval }
      | some msgp =>
          if msgsz < 0 then .ok { paged with sys := paged.sys.ret proc einval }
          else
            let call : ReceiveCall :=
              { msgid := msgid, msgp := msgp, msgsz := msgsz.toNat, mtype := mtype }
            match getMsgq paged.sys.ids msgid with
            | .error reason => .error reason
            | .ok none => .ok { paged with sys := paged.sys.ret proc eidrm }
            | .ok (some slot) =>
                match paged.sys.ids.entries slot with
                | none => .error .outOfBounds
                | some msgq =>
                    match paged.searchWalk (.head slot) rounds mtype
                      (paged.links.next (.head slot)) none with
                    | .error reason => .error reason
                    | .ok (some found) =>
                        if call.msgsz < found.size then
                          .ok { paged with sys := paged.sys.ret proc e2big }
                        else paged.takeFound proc slot msgq call found
                    | .ok none =>
                        if msgflg &&& ipcNowait ≠ 0 then
                          .ok { paged with sys := paged.sys.ret proc enomsg }
                        else
                          let rcver : Receiver :=
                            { proc := proc, mtype := mtype, size := call.msgsz }
                          .ok { paged with
                            sys :=
                              (paged.sys.setEntry slot
                                (some { msgq with qReceiver := msgq.qReceiver ++ [rcver] })).goto
                                  proc (.receiving call .unassigned false) }
  | _ => .error .blocks

/-- What follows the sleep, with what is in `r_msg`. -/
def goOn (proc : Tid) (call : ReceiveCall) : Slot → Except Stop Paged
  | .unassigned => .error .uninitialised
  | .null => .ok ({ paged with sys := paged.sys.ret proc e2big }.cover proc .null)
  | .message letter =>
      match paged.read letter.page.number with
      | .error reason => .error reason
      | .ok found => (paged.cover proc (.message found)).takeMsg proc call found

/-- `sys_msgrcv` after its sleep. A slot that was not assigned holds what was there before. -/
def resume (proc : Tid) : Except Stop Paged :=
  match paged.sys.proc proc with
  | .receiving call .unassigned true => paged.goOn proc call (paged.stack proc)
  | .receiving call slot true => paged.goOn proc call slot
  | _ => .error .blocks

/-- The loop of `freeque` over the messages. -/
def drainMsgs (head : MsgNode) : Nat → Paged → Except Stop Paged
  | 0, _ => .error .spins
  | rounds + 1, paged =>
      match paged.links.next head with
      | none => .error .uninitialised
      | some (.head slot) => if .head slot = head then .ok paged else .error .uninitialised
      | some (.page number) =>
          match paged.links.detach (.page number), paged.read number with
          | some links, .ok letter => drainMsgs head rounds ({ paged with links := links }.free letter)
          | none, _ => .error .uninitialised
          | some _, .error reason => .error reason

/-- What `freeque` does to a live queue. -/
def freeMsgq (slot : Fin seqMultiplier) (msgq : MsgQueue) : Except Stop Paged :=
  let woken := ssWakeup (paged.sys.setEntry slot none) (msgq.qReceiver.map Receiver.proc)
  match drainMsgs (.head slot) rounds { paged with sys := woken } with
  | .error reason => .error reason
  | .ok drained =>
      .ok { drained with
        sys :=
          { drained.sys with
            ids := { drained.sys.ids with inUse := drained.sys.ids.inUse - 1 } } }

def msgctl (proc : Tid) (msgid cmd : Int) : Except Stop Paged :=
  match paged.sys.proc proc with
  | .running =>
      if cmd = ipcRmid then
        match getMsgq paged.sys.ids msgid with
        | .error reason => .error reason
        | .ok none => .ok ({ paged with sys := paged.sys.ret proc 0 }.cover proc .unassigned)
        | .ok (some slot) =>
            match paged.sys.ids.entries slot with
            | none => .error .outOfBounds
            | some msgq =>
                match paged.freeMsgq rounds slot msgq with
                | .error reason => .error reason
                | .ok freed =>
                    .ok ({ freed with sys := freed.sys.ret proc 0 }.cover proc .unassigned)
      else .ok ({ paged with sys := paged.sys.ret proc einval }.cover proc .unassigned)
  | _ => .error .blocks

end Paged

/-- One section. The loops over the message lists take at most the given number of rounds. -/
def pagedStep (rounds : Nat) (paged : Paged) : Action → Except Stop Paged
  | .msgget proc key msgflg allocated => paged.msgget proc key msgflg allocated
  | .msgsnd proc msgid msgp msgsz msgflg => paged.msgsnd proc msgid msgp msgsz msgflg
  | .sendSection proc => paged.sendSection proc
  | .msgrcv proc msgid msgp msgsz mtype msgflg =>
      paged.msgrcv rounds proc msgid msgp msgsz mtype msgflg
  | .resume proc => paged.resume proc
  | .msgctl proc msgid cmd => paged.msgctl rounds proc msgid cmd

/-- What is expected of a live queue: its message list is a ring of messages, as many as it counts
and no more than it may hold, senders wait only when it is full, and no message on it is for a
receiver that waits. -/
structure Paged.QueueOk (paged : Paged) (slot : Fin seqMultiplier) (msgq : MsgQueue) : Prop where
  listed : ∃ letters : List Letter, IsRing paged.links (.head slot) (letters.map Letter.node) ∧
    (∀ letter ∈ letters, paged.text letter.page.number = some letter) ∧
    msgq.sumMsg = (letters.length : Int) ∧
    ∀ letter ∈ letters, ∀ rcver ∈ msgq.qReceiver, testmsg rcver.mtype letter.mtype = false
  bounded : msgq.sumMsg ≤ msgq.maxMsg
  full : msgq.qSender ≠ [] → msgq.sumMsg = msgq.maxMsg

/-- No call gets an identifier with a negative remainder, and a queue is removed only when no
receiver waits on it. -/
def Paged.Undisturbed (paged : Paged) : Action → Prop
  | .msgget _ _ _ _ | .resume _ | .sendSection _ => True
  | .msgsnd _ msgid _ _ _ | .msgrcv _ msgid _ _ _ _ => 0 ≤ msgid.tmod seqMultiplier
  | .msgctl _ msgid cmd => cmd = ipcRmid → 0 ≤ msgid.tmod seqMultiplier ∧
      ∀ slot, getMsgq paged.sys.ids msgid = .ok (some slot) →
        ∀ msgq ∈ paged.sys.ids.entries slot, msgq.qReceiver = []

instance (paged : Paged) (action : Action) : Decidable (paged.Undisturbed action) :=
  match action with
  | .msgget _ _ _ _ | .resume _ | .sendSection _ => .isTrue True.intro
  | .msgsnd _ msgid _ _ _ | .msgrcv _ msgid _ _ _ _ =>
      inferInstanceAs (Decidable (0 ≤ msgid.tmod seqMultiplier))
  | .msgctl _ msgid cmd => inferInstanceAs (Decidable (cmd = ipcRmid →
      0 ≤ msgid.tmod seqMultiplier ∧ ∀ slot, getMsgq paged.sys.ids msgid = .ok (some slot) →
        ∀ msgq ∈ paged.sys.ids.entries slot, msgq.qReceiver = []))

end LabKernel.Ipc
