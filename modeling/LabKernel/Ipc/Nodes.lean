/-
The message calls with their waiting lists in memory, and `kill`.

`q_sender` and `q_receiver` are rings of nodes, and the node of a process is on its own stack.
`kill` makes a sleeping process runnable and leaves its node where it is, and a process that was
killed does not sleep any more.
-/

import LabKernel.Ipc.Seats
import LabKernel.Lib.Ring

set_option autoImplicit false

namespace LabKernel.Ipc

open Common Transition Rings

inductive WaitKind where
  | sender
  | receiver
  deriving DecidableEq, Repr

/-- The heads in the queue of an entry, and the nodes on the stacks of the processes. -/
inductive WaitNode where
  | head (kind : WaitKind) (slot : Fin seqMultiplier)
  | wait (kind : WaitKind) (proc : Tid)
  deriving DecidableEq

/-- The processes and the links of the nodes. The lists of a queue are in the links, and its
list fields stay empty. -/
structure Wired where
  sys : System
  links : Links WaitNode
  killed : Tid → Bool

def Wired.initial (pool : List Page) : Wired :=
  { sys := System.initial pool
    links := { prev := fun _ => none, next := fun _ => none }
    killed := fun _ => false }

/-! ### Lists -/

/-- `_insert_into_list(head->prev, node)`. -/
def insertTail (links : Links WaitNode) (head node : WaitNode) : Option (Links WaitNode) :=
  match links.prev head with
  | none => none
  | some last => links.insert last node

/-- The loop of `ss_wakeup` and `expunge_all`, in at most the given number of rounds: the
processes whose nodes it takes off the list. -/
def drainLoop (head : WaitNode) : Nat → Links WaitNode → Except Stop (List Tid × Links WaitNode)
  | 0, _ => .error .spins
  | rounds + 1, links =>
      match links.next head with
      | none => .error .uninitialised
      | some node =>
          if node = head then .ok ([], links)
          else
            match node, links.detach node with
            | .wait _ proc, some links =>
                match drainLoop head rounds links with
                | .error reason => .error reason
                | .ok (procs, links) => .ok (proc :: procs, links)
            | _, _ => .error .uninitialised

/-- The walk of `pipeline_send` from a node on: the receiver that takes the message. A receiver
that is too small is detached, and the walk does not come away from it. -/
def pipelineWalk (wired : Wired) (head : WaitNode) (msg : Msg) :
    Nat → Option WaitNode → Except Stop (Option Receiver)
  | 0, _ => .error .spins
  | _ + 1, none => .error .uninitialised
  | rounds + 1, some node =>
      if node = head then .ok none
      else
        match node with
        | .wait .receiver proc =>
            match wired.sys.proc proc with
            | .receiving call _ _ =>
                if testmsg call.mtype msg.mtype then
                  if call.msgsz < msg.size then .error .spins
                  else .ok (some { proc := proc, mtype := call.mtype, size := call.msgsz })
                else pipelineWalk wired head msg rounds (wired.links.next node)
            | _ => .error .uninitialised
        | _ => .error .uninitialised

/-- The lists of a queue that `newque` has put into the first free entry. -/
def initLists (before after : IpcIds) (links : Links WaitNode) : Links WaitNode :=
  match before.firstSlot (fun entry => entry.isNone) with
  | none => links
  | some slot =>
      if (after.entries slot).isSome then
        (links.single (.head .sender slot)).single (.head .receiver slot)
      else links

/-! ### Sections -/

namespace Wired

variable (rounds : Nat) (wired : Wired)

/-- Insert the node of the process and sleep. A process that was killed does not sleep. -/
def sleepOn (kind : WaitKind) (slot : Fin seqMultiplier) (proc : Tid) (next : Bool → ProcState) :
    Except Stop Wired :=
  match insertTail wired.links (.head kind slot) (.wait kind proc) with
  | none => .error .uninitialised
  | some links =>
      .ok { wired with
        links := links
        sys := wired.sys.goto proc (next (wired.killed proc)) }

def acceptMsg (proc : Tid) (slot : Fin seqMultiplier) (msgq : MsgQueue) (letter : Letter) :
    Except Stop Wired :=
  match pipelineWalk wired (.head .receiver slot) letter.toMsg rounds
    (wired.links.next (.head .receiver slot)) with
  | .error reason => .error reason
  | .ok none =>
      let queued :=
        { msgq with
          qMessage := msgq.qMessage ++ [letter]
          sumMsg := msgq.sumMsg + 1 }
      .ok { wired with
        sys :=
          ((wired.sys.setEntry slot (some queued)).goto proc .running).record
            [.accepted slot letter.serial letter.mtype] }
  | .ok (some rcver) =>
      match wired.links.detach (.wait .receiver rcver.proc) with
      | none => .error .uninitialised
      | some links =>
          .ok { wired with
            links := links
            sys :=
              ((wired.sys.goto proc .running).hand (.message letter) rcver.proc).record
                [.accepted slot letter.serial letter.mtype,
                  .handed slot rcver.proc rcver.mtype letter.serial] }

/-- The section of `sys_msgsnd`, from `retry` on. -/
def sendSection (proc : Tid) : Except Stop Wired :=
  match wired.sys.proc proc with
  | .sending call true =>
      match getMsgq wired.sys.ids call.msgid with
      | .error reason => .error reason
      | .ok none => .ok { wired with sys := refuse wired.sys proc call.letter eidrm }
      | .ok (some slot) =>
          match wired.sys.ids.entries slot with
          | none => .error .outOfBounds
          | some msgq =>
              if msgq.maxMsg < msgq.sumMsg + 1 then
                if call.msgflg &&& ipcNowait ≠ 0 then
                  .ok { wired with sys := refuse wired.sys proc call.letter eagain }
                else wired.sleepOn .sender slot proc (.sending call)
              else wired.acceptMsg rounds proc slot msgq call.letter
  | _ => .error .blocks

/-- `sys_msgrcv` with a message from the queue. -/
def takeFound (proc : Tid) (slot : Fin seqMultiplier) (msgq : MsgQueue) (call : ReceiveCall)
    (found : Letter) : Except Stop Wired :=
  let left :=
    { msgq with
      qMessage := msgq.qMessage.eraseP (fun msg => msg.serial = found.serial)
      sumMsg := msgq.sumMsg - 1 }
  match drainLoop (.head .sender slot) rounds wired.links with
  | .error reason => .error reason
  | .ok (procs, links) =>
      match takeMsg ((ssWakeup (wired.sys.setEntry slot (some left)) procs).record
        [.handed slot proc call.mtype found.serial]) proc call found with
      | .error reason => .error reason
      | .ok sys => .ok { wired with links := links, sys := sys }

/-- `sys_msgrcv`, up to its return or its sleep. -/
def msgrcv (proc : Tid) (msgid : Int) (msgp : Option MsgBuf) (msgsz mtype : Int)
    (msgflg : UInt32) : Except Stop Wired :=
  match wired.sys.proc proc with
  | .running =>
      match msgp with
      | none => .ok { wired with sys := wired.sys.ret proc einval }
      | some msgp =>
          if msgsz < 0 then .ok { wired with sys := wired.sys.ret proc einval }
          else
            let call : ReceiveCall :=
              { msgid := msgid, msgp := msgp, msgsz := msgsz.toNat, mtype := mtype }
            match getMsgq wired.sys.ids msgid with
            | .error reason => .error reason
            | .ok none => .ok { wired with sys := wired.sys.ret proc eidrm }
            | .ok (some slot) =>
                match wired.sys.ids.entries slot with
                | none => .error .outOfBounds
                | some msgq =>
                    match searchLoop mtype msgq.qMessage none with
                    | some found =>
                        if call.msgsz < found.size then
                          .ok { wired with sys := wired.sys.ret proc e2big }
                        else wired.takeFound rounds proc slot msgq call found
                    | none =>
                        if msgflg &&& ipcNowait ≠ 0 then
                          .ok { wired with sys := wired.sys.ret proc enomsg }
                        else wired.sleepOn .receiver slot proc (.receiving call .unassigned)
  | _ => .error .blocks

/-- What `freeque` does to a live queue. -/
def freeMsgq (slot : Fin seqMultiplier) (msgq : MsgQueue) : Except Stop Wired :=
  match drainLoop (.head .receiver slot) rounds wired.links with
  | .error reason => .error reason
  | .ok (woken, links) =>
      match drainLoop (.head .receiver slot) rounds links with
      | .error reason => .error reason
      | .ok (expunged, links) =>
          let sys := ssWakeup (wired.sys.setEntry slot none) woken
          let sys := expunged.foldl (fun sys proc => sys.hand .null proc) sys
          .ok { wired with
            links := links
            sys :=
              { sys with
                pool := msgq.qMessage.foldl (fun pool letter => freeMsg letter.toMsg pool) sys.pool
                ids := { sys.ids with inUse := sys.ids.inUse - 1 } } }

def msgctl (proc : Tid) (msgid cmd : Int) : Except Stop Wired :=
  match wired.sys.proc proc with
  | .running =>
      if cmd = ipcRmid then
        match getMsgq wired.sys.ids msgid with
        | .error reason => .error reason
        | .ok none => .ok { wired with sys := wired.sys.ret proc 0 }
        | .ok (some slot) =>
            match wired.sys.ids.entries slot with
            | none => .error .outOfBounds
            | some msgq =>
                match wired.freeMsgq rounds slot msgq with
                | .error reason => .error reason
                | .ok after => .ok { after with sys := after.sys.ret proc 0 }
      else .ok { wired with sys := wired.sys.ret proc einval }
  | _ => .error .blocks

/-- `kill` of a process it finds, and the `alert_proc` in it. -/
def kill (proc : Tid) : Wired :=
  { wired with
    killed := Function.update wired.killed proc true
    sys := wired.sys.activate proc }

end Wired

inductive WiredAction where
  | call (action : Action)
  | kill (proc : Tid)

/-- One section, or a kill. The loops over the lists take at most the given number of rounds. -/
def wiredStep (rounds : Nat) (wired : Wired) : WiredAction → Except Stop Wired
  | .kill proc => .ok (wired.kill proc)
  | .call (.sendSection proc) => wired.sendSection rounds proc
  | .call (.msgrcv proc msgid msgp msgsz mtype msgflg) =>
      wired.msgrcv rounds proc msgid msgp msgsz mtype msgflg
  | .call (.msgctl proc msgid cmd) => wired.msgctl rounds proc msgid cmd
  | .call (.msgget proc key msgflg allocated) =>
      match msgget wired.sys proc key msgflg allocated with
      | .error reason => .error reason
      | .ok sys => .ok { wired with sys := sys, links := initLists wired.sys.ids sys.ids wired.links }
  | .call (.msgsnd proc msgid msgp msgsz msgflg) =>
      match msgsnd wired.sys proc msgid msgp msgsz msgflg with
      | .error reason => .error reason
      | .ok sys => .ok { wired with sys := sys }
  | .call (.resume proc) =>
      match resume wired.sys proc with
      | .error reason => .error reason
      | .ok sys => .ok { wired with sys := sys }

/-! ### What is expected of the lists -/

/-- The call gets to its `_sched(SLEEPING)`. -/
def Wired.Blocks (wired : Wired) : Action → Prop
  | .sendSection proc => ∃ call slot msgq, wired.sys.proc proc = .sending call true ∧
      getMsgq wired.sys.ids call.msgid = .ok (some slot) ∧
      wired.sys.ids.entries slot = some msgq ∧ msgq.maxMsg < msgq.sumMsg + 1 ∧
      call.msgflg &&& ipcNowait = 0
  | .msgrcv _ msgid msgp msgsz mtype msgflg => ∃ slot msgq, msgp ≠ none ∧ 0 ≤ msgsz ∧
      getMsgq wired.sys.ids msgid = .ok (some slot) ∧
      wired.sys.ids.entries slot = some msgq ∧ searchLoop mtype msgq.qMessage none = none ∧
      msgflg &&& ipcNowait = 0
  | _ => False

/-- No process is killed while it sleeps in a message call, no killed process gets to the sleep
of one, and a queue is removed only when no receiver waits on it. -/
def Wired.Undisturbed (wired : Wired) : WiredAction → Prop
  | .kill proc => ¬(wired.sys.proc proc).Asleep
  | .call action =>
      match action with
      | .sendSection proc => wired.killed proc = true → ¬wired.Blocks action
      | .msgrcv proc _ _ _ _ _ => wired.killed proc = true → ¬wired.Blocks action
      | .msgctl _ msgid cmd => cmd = ipcRmid → ∀ slot,
          getMsgq wired.sys.ids msgid = .ok (some slot) →
            wired.links.next (.head .receiver slot) = some (.head .receiver slot)
      | _ => True

end LabKernel.Ipc
