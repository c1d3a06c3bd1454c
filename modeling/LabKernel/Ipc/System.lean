/-
The message calls as a system of processes.

Every section under `msg_ids.lock` is one step. What a call does before it takes the
lock (checking its arguments, loading the payload) and after it has left it
(storing and freeing a message that is its own) touches nothing shared but the
free pages, and belongs to a step of its own or to the step of the section. A process that
sleeps goes on only after it has been activated.
-/

import LabKernel.Ipc.Queue
import LabKernel.Lib.Transition

set_option autoImplicit false

namespace LabKernel.Ipc

open Common Transition

/-! ### Processes -/

structure SendCall where
  msgid : Int
  msgflg : UInt32
  letter : Letter

structure ReceiveCall where
  msgid : Int
  msgp : MsgBuf
  msgsz : Nat
  mtype : Int

/-- `receiver.r_msg`, on the stack of its process. -/
inductive Slot where
  | unassigned
  | null
  | message (letter : Letter)

/-- A process is outside the message calls, before the section of a send, or behind the
section of a receive. In the last two it may be asleep. -/
inductive ProcState where
  | running
  | sending (call : SendCall) (awake : Bool)
  | receiving (call : ReceiveCall) (slot : Slot) (awake : Bool)

def ProcState.activate : ProcState → ProcState
  | .running => .running
  | .sending call _ => .sending call true
  | .receiving call slot _ => .receiving call slot true

/-- `r_msg = …`. -/
def ProcState.assign (slot : Slot) : ProcState → ProcState
  | .receiving call _ awake => .receiving call slot awake
  | other => other

/-- What has happened: a queue accepted a message, whose send thereby returns 0, a message of a
queue was handed to a receive of a type, a receive returned a message, or a call returned a
number. -/
inductive Event where
  | accepted (slot : Fin seqMultiplier) (serial : Nat) (mtype : Int)
  | handed (slot : Fin seqMultiplier) (proc : Tid) (rqtype : Int) (serial : Nat)
  | received (proc : Tid) (rqtype : Int) (serial : Nat)
  | returned (proc : Tid) (ret : Int)
  deriving DecidableEq, Repr

/-- The table, the free pages and the processes. `calls` numbers the loaded messages and
`history` records what has happened, in order. -/
structure System where
  ids : IpcIds
  pool : List Page
  proc : Tid → ProcState
  calls : Nat
  history : List Event

def System.initial (pool : List Page) : System :=
  { ids := initIpc
    pool := pool
    proc := fun _ => .running
    calls := 0
    history := [] }

namespace System

variable (state : System)

def record (events : List Event) : System := { state with history := state.history ++ events }

def goto (proc : Tid) (next : ProcState) : System :=
  { state with proc := Function.update state.proc proc next }

/-- The call of a process ends with this result. -/
def ret (proc : Tid) (value : Int) : System :=
  (state.goto proc .running).record [.returned proc value]

def setEntry (slot : Fin seqMultiplier) (entry : Option MsgQueue) : System :=
  { state with ids := state.ids.setEntry slot entry }

def activate (proc : Tid) : System := state.goto proc (state.proc proc).activate

/-- Assign `r_msg` and activate the receiver. -/
def hand (slot : Slot) (proc : Tid) : System :=
  state.goto proc ((state.proc proc).assign slot).activate

end System

/-! ### Sections -/

/-- `ss_wakeup` on the processes of a list. -/
def ssWakeup (state : System) (procs : List Tid) : System := procs.foldl System.activate state

/-- `expunge_all` on the receivers of a list. -/
def expungeAll (state : System) (receivers : List Receiver) : System :=
  receivers.foldl (fun state rcver => state.hand .null rcver.proc) state

/-- A call of `sys_msgsnd` up to `retry`. -/
def msgsnd (state : System) (proc : Tid) (msgid : Int) (msgp : Option MsgBuf) (msgsz : Int)
    (msgflg : UInt32) : Except Stop System :=
  match state.proc proc with
  | .running =>
      match msgp with
      | none => .ok (state.ret proc einval)
      | some msgp =>
          if msgsz < 0 ∨ msgp.mtype < 1 then .ok (state.ret proc einval)
          else
            match loadMsg state.pool msgp.mtype msgp.data msgsz.toNat with
            | (none, pool) => .ok ({ state with pool := pool }.ret proc enomem)
            | (some msg, pool) =>
                let letter : Letter := { msg with serial := state.calls }
                .ok ({ state with pool := pool, calls := state.calls + 1 }.goto proc
                  (.sending { msgid := msgid, msgflg := msgflg, letter := letter } true))
  | _ => .error .blocks

/-- `goto free_obj` of `sys_msgsnd`. -/
def refuse (state : System) (proc : Tid) (letter : Letter) (err : Int) : System :=
  { state with pool := freeMsg letter.toMsg state.pool }.ret proc err

/-- A queue with room takes the message: a receiver gets it, or it is queued. -/
def acceptMsg (state : System) (proc : Tid) (slot : Fin seqMultiplier) (msgq : MsgQueue)
    (letter : Letter) : Except Stop System :=
  match pipelineSend msgq.qReceiver letter.toMsg with
  | none => .error .spins
  | some piped =>
      let left := { msgq with qReceiver := piped.waiting }
      let woken := expungeAll state piped.refused
      match piped.taker with
      | some rcver =>
          .ok (((woken.setEntry slot (some left)).goto proc .running).hand (.message letter)
            rcver.proc |>.record [.accepted slot letter.serial letter.mtype,
              .handed slot rcver.proc rcver.mtype letter.serial])
      | none =>
          let queued :=
            { left with
              qMessage := left.qMessage ++ [letter]
              sumMsg := left.sumMsg + 1 }
          .ok (((woken.setEntry slot (some queued)).goto proc .running).record
            [.accepted slot letter.serial letter.mtype])

/-- The section of `sys_msgsnd`, from `retry` on. -/
def sendSection (state : System) (proc : Tid) : Except Stop System :=
  match state.proc proc with
  | .sending call true =>
      match getMsgq state.ids call.msgid with
      | .error reason => .error reason
      | .ok none => .ok (refuse state proc call.letter eidrm)
      | .ok (some slot) =>
          match state.ids.entries slot with
          | none => .error .outOfBounds
          | some msgq =>
              if msgq.maxMsg < msgq.sumMsg + 1 then
                if call.msgflg &&& ipcNowait ≠ 0 then .ok (refuse state proc call.letter eagain)
                else
                  .ok ((state.setEntry slot (some { msgq with qSender := msgq.qSender ++ [proc] })).goto
                    proc (.sending call false))
              else acceptMsg state proc slot msgq call.letter
  | _ => .error .blocks

/-- The end of `sys_msgrcv` with a message. -/
def takeMsg (state : System) (proc : Tid) (call : ReceiveCall) (letter : Letter) :
    Except Stop System :=
  match deliver call.msgp letter.toMsg call.msgsz state.pool with
  | none => .error .nullSegment
  | some (ret, _, pool) =>
      .ok (({ state with pool := pool }.goto proc .running).record
        [.received proc call.mtype letter.serial, .returned proc ret])

/-- `sys_msgrcv`, up to its return or its sleep. -/
def msgrcv (state : System) (proc : Tid) (msgid : Int) (msgp : Option MsgBuf) (msgsz mtype : Int)
    (msgflg : UInt32) : Except Stop System :=
  match state.proc proc with
  | .running =>
      match msgp with
      | none => .ok (state.ret proc einval)
      | some msgp =>
          if msgsz < 0 then .ok (state.ret proc einval)
          else
            let call : ReceiveCall :=
              { msgid := msgid, msgp := msgp, msgsz := msgsz.toNat, mtype := mtype }
            match getMsgq state.ids msgid with
            | .error reason => .error reason
            | .ok none => .ok (state.ret proc eidrm)
            | .ok (some slot) =>
                match state.ids.entries slot with
                | none => .error .outOfBounds
                | some msgq =>
                    match searchLoop mtype msgq.qMessage none with
                    | some found =>
                        if call.msgsz < found.size then .ok (state.ret proc e2big)
                        else
                          let left :=
                            { msgq with
                              qMessage := msgq.qMessage.eraseP (fun msg => msg.serial = found.serial)
                              sumMsg := msgq.sumMsg - 1
                              qSender := [] }
                          takeMsg ((ssWakeup (state.setEntry slot (some left)) msgq.qSender).record
                            [.handed slot proc mtype found.serial]) proc call found
                    | none =>
                        if msgflg &&& ipcNowait ≠ 0 then .ok (state.ret proc enomsg)
                        else
                          let rcver : Receiver :=
                            { proc := proc, mtype := mtype, size := call.msgsz }
                          .ok ((state.setEntry slot
                            (some { msgq with qReceiver := msgq.qReceiver ++ [rcver] })).goto proc
                              (.receiving call .unassigned false))
  | _ => .error .blocks

/-- `sys_msgrcv` after its sleep. -/
def resume (state : System) (proc : Tid) : Except Stop System :=
  match state.proc proc with
  | .receiving call (.message letter) true => takeMsg state proc call letter
  | .receiving _ .null true => .ok (state.ret proc e2big)
  | .receiving _ .unassigned true => .error .uninitialised
  | _ => .error .blocks

/-- What `freeque` does to a live queue, and the queue as it is freed. -/
def freeMsgq (state : System) (slot : Fin seqMultiplier) (msgq : MsgQueue) : System × MsgQueue :=
  let unlinked := state.setEntry slot none
  let woken := ssWakeup unlinked (msgq.qReceiver.map Receiver.proc)
  let drained := { msgq with qReceiver := [] }
  let expunged := expungeAll woken drained.qReceiver
  let pool := drained.qMessage.foldl (fun pool letter => freeMsg letter.toMsg pool) expunged.pool
  ({ expunged with
      pool := pool
      ids := { expunged.ids with inUse := expunged.ids.inUse - 1 } },
    { drained with qMessage := [] })

def freeque (state : System) (id : Int) : Except Stop System :=
  match getMsgq state.ids id with
  | .error reason => .error reason
  | .ok none => .ok state
  | .ok (some slot) =>
      match state.ids.entries slot with
      | none => .error .outOfBounds
      | some msgq => .ok (freeMsgq state slot msgq).1

def msgctl (state : System) (proc : Tid) (msgid cmd : Int) : Except Stop System :=
  match state.proc proc with
  | .running =>
      if cmd = ipcRmid then
        match freeque state msgid with
        | .error reason => .error reason
        | .ok after => .ok (after.ret proc 0)
      else .ok (state.ret proc einval)
  | _ => .error .blocks

def msgget (state : System) (proc : Tid) (key : Int) (msgflg : UInt32) (allocated : Bool) :
    Except Stop System :=
  match state.proc proc with
  | .running =>
      let (value, ids) := sysMsgget state.ids key msgflg allocated
      .ok ({ state with ids := ids }.ret proc value)
  | _ => .error .blocks

inductive Action where
  | msgget (proc : Tid) (key : Int) (msgflg : UInt32) (allocated : Bool)
  | msgsnd (proc : Tid) (msgid : Int) (msgp : Option MsgBuf) (msgsz : Int) (msgflg : UInt32)
  | sendSection (proc : Tid)
  | msgrcv (proc : Tid) (msgid : Int) (msgp : Option MsgBuf) (msgsz mtype : Int) (msgflg : UInt32)
  | resume (proc : Tid)
  | msgctl (proc : Tid) (msgid cmd : Int)

def ipcStep (state : System) : Action → Except Stop System
  | .msgget proc key msgflg allocated => msgget state proc key msgflg allocated
  | .msgsnd proc msgid msgp msgsz msgflg => msgsnd state proc msgid msgp msgsz msgflg
  | .sendSection proc => sendSection state proc
  | .msgrcv proc msgid msgp msgsz mtype msgflg => msgrcv state proc msgid msgp msgsz mtype msgflg
  | .resume proc => resume state proc
  | .msgctl proc msgid cmd => msgctl state proc msgid cmd

/-! ### What a section finds and does -/

theorem getMsgq_some {ids : IpcIds} {msgid : Int} {slot : Fin seqMultiplier}
    (found : getMsgq ids msgid = .ok (some slot)) :
    ((slot.val : Nat) : Int) = msgid.tmod seqMultiplier ∧ ∃ que, ids.entries slot = some que ∧
      msgid.tdiv seqMultiplier = que.seq.toNat := by
  unfold getMsgq at found
  simp only at found
  split at found
  · cases found
  · rename_i positive
    split at found
    · split at found
      · cases found
      · rename_i que entry
        split at found
        · cases found
        · rename_i same
          cases found
          exact ⟨Int.toNat_of_nonneg (Int.not_lt.mp positive), que, entry, not_not.mp same⟩
    · cases found

/-- A walk that comes to its end has refused nobody: it serves the first receiver that
matches, or finds that none does. -/
theorem pipelineLoop_some {msg : Msg} :
    ∀ (rest passed beyond : List Receiver) (rounds : Nat) (piped : Piped),
      pipelineLoop msg rounds [] passed (.listed rest) beyond = some piped →
      (piped = { refused := [], taker := none, waiting := passed ++ rest } ∧
          ∀ rcver ∈ rest, testmsg rcver.mtype msg.mtype = false) ∨
        ∃ before rcver after, rest = before ++ rcver :: after ∧
          piped = { refused := [], taker := some rcver, waiting := passed ++ before ++ after } ∧
          testmsg rcver.mtype msg.mtype = true ∧ msg.size ≤ rcver.size ∧
          ∀ other ∈ before, testmsg other.mtype msg.mtype = false := by
  have stuck : ∀ (rounds : Nat) (refused passed beyond : List Receiver) (rcver : Receiver),
      testmsg rcver.mtype msg.mtype = true → rcver.size < msg.size →
      pipelineLoop msg rounds refused passed (.detached rcver) beyond = none := by
    intro rounds
    induction rounds with
    | zero =>
        intro refused passed beyond rcver _ _
        rfl
    | succ rounds ih =>
        intro refused passed beyond rcver wanted small
        simp only [pipelineLoop, wanted, small, if_true]
        exact ih _ _ _ _ wanted small
  intro rest
  induction rest with
  | nil =>
      intro passed beyond rounds piped walked
      cases rounds with
      | zero => cases walked
      | succ rounds =>
          cases walked
          rw [List.append_nil]
          exact Or.inl ⟨rfl, fun _ member => by cases member⟩
  | cons head rest ih =>
      intro passed beyond rounds piped walked
      cases rounds with
      | zero => cases walked
      | succ rounds =>
          simp only [pipelineLoop] at walked
          split at walked
          · rename_i wanted
            split at walked
            · rename_i small
              rw [stuck _ _ _ _ _ wanted small] at walked
              cases walked
            · rename_i large
              cases walked
              refine Or.inr ⟨[], head, rest, rfl, ?_, wanted, Nat.le_of_not_lt large, ?_⟩
              · rw [List.append_nil]
              · intro other member
                cases member
          · rename_i unwanted
            rw [Bool.not_eq_true] at unwanted
            rcases ih _ _ _ _ walked with
              ⟨rfl, nobody⟩ | ⟨before, rcver, after, rfl, rfl, wanted, large, nobody⟩
            · refine Or.inl ⟨?_, List.forall_mem_cons.mpr ⟨unwanted, nobody⟩⟩
              rw [List.append_assoc, List.singleton_append]
            · refine Or.inr ⟨head :: before, rcver, after, rfl, ?_, wanted, large,
                List.forall_mem_cons.mpr ⟨unwanted, nobody⟩⟩
              simp only [List.append_assoc, List.cons_append, List.nil_append]

theorem pipelineSend_some {receivers : List Receiver} {msg : Msg} {piped : Piped}
    (walked : pipelineSend receivers msg = some piped) :
    (piped = { refused := [], taker := none, waiting := receivers } ∧
        ∀ rcver ∈ receivers, testmsg rcver.mtype msg.mtype = false) ∨
      ∃ before rcver after, receivers = before ++ rcver :: after ∧
        piped = { refused := [], taker := some rcver, waiting := before ++ after } ∧
        testmsg rcver.mtype msg.mtype = true ∧ msg.size ≤ rcver.size ∧
        ∀ other ∈ before, testmsg other.mtype msg.mtype = false :=
  pipelineLoop_some receivers [] [] _ piped walked

theorem searchLoop_eq_none {msgs : List Letter} :
    ∀ {mtype : Int} {found : Option Letter}, searchLoop mtype msgs found = none →
      found = none ∧ ∀ msg ∈ msgs, testmsg mtype msg.mtype = false := by
  induction msgs with
  | nil =>
      intro mtype found missing
      exact ⟨missing, fun _ member => by cases member⟩
  | cons head rest ih =>
      intro mtype found missing
      simp only [searchLoop] at missing
      split at missing
      · split at missing
        · cases (ih missing).1
        · cases missing
      · rename_i unwanted
        rw [Bool.not_eq_true] at unwanted
        exact ⟨(ih missing).1, List.forall_mem_cons.mpr ⟨unwanted, (ih missing).2⟩⟩

theorem searchLoop_mem {msgs : List Letter} {msg : Letter} :
    ∀ {mtype : Int} {found : Option Letter}, searchLoop mtype msgs found = some msg →
      msg ∈ msgs ∨ found = some msg := by
  induction msgs with
  | nil =>
      intro mtype found hit
      exact Or.inr hit
  | cons head rest ih =>
      intro mtype found hit
      simp only [searchLoop] at hit
      split at hit
      · split at hit
        · rcases ih hit with later | here
          · exact Or.inl (List.mem_cons_of_mem _ later)
          · cases here
            exact Or.inl List.mem_cons_self
        · cases hit
          exact Or.inl List.mem_cons_self
      · rcases ih hit with later | earlier
        · exact Or.inl (List.mem_cons_of_mem _ later)
        · exact Or.inr earlier

/-- For a type that is not negative the search takes the first message that matches. -/
theorem searchLoop_eq_find {mtype : Int} (nonneg : 0 ≤ mtype) (msgs : List Letter) :
    searchLoop mtype msgs none = msgs.find? (fun msg => testmsg mtype msg.mtype) := by
  induction msgs with
  | nil => rfl
  | cons head rest ih =>
      have stops : ¬mtype < -1 := by omega
      simp only [searchLoop, stops, if_false, List.find?_cons]
      cases testmsg mtype head.mtype with
      | true => rfl
      | false => exact ih

inductive Outcome (state : System) : Action → System → Prop
  /-- A call returns without an effect on the queues. -/
  | returned {action : Action} (proc : Tid) (value : Int) (pool : List Page)
      (idle : state.proc proc = .running)
      (kept : (pool.map Page.number).Perm (state.pool.map Page.number)) :
      Outcome state action ({ state with pool := pool }.ret proc value)
  /-- A queue is created in a free entry. -/
  | created {key : Int} {msgflg : UInt32} (proc : Tid) (slot : Fin seqMultiplier)
      (idle : state.proc proc = .running) (free : state.ids.entries slot = none) :
      Outcome state (.msgget proc key msgflg true)
        ({ state with ids :=
          { inUse := state.ids.inUse + 1
            seq := state.ids.seq + 1
            entries := Function.update state.ids.entries slot (some
              { key := key, seq := state.ids.seq, maxMsg := maxMsgnum, sumMsg := 0
                qMessage := [], qSender := [], qReceiver := [] }) } }.ret proc
          (ipcBuildin slot state.ids.seq))
  /-- A send has loaded its message. -/
  | loaded {msgp : Option MsgBuf} {msgsz : Int} (proc : Tid) (call : SendCall) (pool : List Page)
      (idle : state.proc proc = .running) (numbered : call.letter.serial = state.calls)
      (taken : (call.letter.pages.map Page.number ++ pool.map Page.number).Perm
        (state.pool.map Page.number)) :
      Outcome state (.msgsnd proc call.msgid msgp msgsz call.msgflg)
        ({ state with pool := pool, calls := state.calls + 1 }.goto proc (.sending call true))
  /-- A send gives up its message. -/
  | refused (proc : Tid) (call : SendCall) (err : Int)
      (located : state.proc proc = .sending call true) :
      Outcome state (.sendSection proc) (refuse state proc call.letter err)
  /-- A send goes to sleep on a full queue. -/
  | slept (proc : Tid) (call : SendCall) (slot : Fin seqMultiplier) (msgq : MsgQueue)
      (located : state.proc proc = .sending call true)
      (addressed : getMsgq state.ids call.msgid = .ok (some slot))
      (live : state.ids.entries slot = some msgq) (full : msgq.maxMsg < msgq.sumMsg + 1) :
      Outcome state (.sendSection proc)
        ((state.setEntry slot (some { msgq with qSender := msgq.qSender ++ [proc] })).goto proc
          (.sending call false))
  /-- A send queues its message; no receiver waits for it. -/
  | queued (proc : Tid) (call : SendCall) (slot : Fin seqMultiplier) (msgq : MsgQueue)
      (located : state.proc proc = .sending call true)
      (addressed : getMsgq state.ids call.msgid = .ok (some slot))
      (live : state.ids.entries slot = some msgq) (room : msgq.sumMsg + 1 ≤ msgq.maxMsg)
      (nobody : ∀ rcver ∈ msgq.qReceiver, testmsg rcver.mtype call.letter.mtype = false) :
      Outcome state (.sendSection proc)
        (((state.setEntry slot (some { msgq with
            qMessage := msgq.qMessage ++ [call.letter]
            sumMsg := msgq.sumMsg + 1 })).goto proc .running).record
          [.accepted slot call.letter.serial call.letter.mtype])
  /-- A send hands its message to the first receiver that waits for it. -/
  | piped (proc : Tid) (call : SendCall) (slot : Fin seqMultiplier) (msgq : MsgQueue)
      (before after : List Receiver) (rcver : Receiver)
      (located : state.proc proc = .sending call true)
      (addressed : getMsgq state.ids call.msgid = .ok (some slot))
      (live : state.ids.entries slot = some msgq) (room : msgq.sumMsg + 1 ≤ msgq.maxMsg)
      (waiting : msgq.qReceiver = before ++ rcver :: after)
      (wanted : testmsg rcver.mtype call.letter.mtype = true)
      (fits : call.letter.size ≤ rcver.size) :
      Outcome state (.sendSection proc)
        ((((state.setEntry slot (some { msgq with qReceiver := before ++ after })).goto proc
          .running).hand (.message call.letter) rcver.proc).record
            [.accepted slot call.letter.serial call.letter.mtype,
              .handed slot rcver.proc rcver.mtype call.letter.serial])
  /-- A receive takes a message from the queue and wakes the senders. -/
  | taken {msgid msgsz mtype : Int} {msgp : Option MsgBuf} {msgflg : UInt32} (proc : Tid)
      (slot : Fin seqMultiplier) (msgq : MsgQueue) (found : Letter) (pool : List Page) (value : Int)
      (idle : state.proc proc = .running)
      (addressed : getMsgq state.ids msgid = .ok (some slot))
      (live : state.ids.entries slot = some msgq)
      (hit : searchLoop mtype msgq.qMessage none = some found)
      (freed : pool = freeMsg found.toMsg state.pool) :
      Outcome state (.msgrcv proc msgid msgp msgsz mtype msgflg)
        ((({ ssWakeup (state.setEntry slot (some { msgq with
              qMessage := msgq.qMessage.eraseP (fun msg => msg.serial = found.serial)
              sumMsg := msgq.sumMsg - 1
              qSender := [] })) msgq.qSender with pool := pool }).goto proc .running).record
          [.handed slot proc mtype found.serial, .received proc mtype found.serial,
            .returned proc value])
  /-- A receive goes to sleep; no queued message is for it. -/
  | waited {msgsz : Int} {msgp : Option MsgBuf} {msgflg : UInt32} (proc : Tid)
      (slot : Fin seqMultiplier) (msgq : MsgQueue) (call : ReceiveCall)
      (idle : state.proc proc = .running)
      (addressed : getMsgq state.ids call.msgid = .ok (some slot))
      (live : state.ids.entries slot = some msgq)
      (nothing : ∀ msg ∈ msgq.qMessage, testmsg call.mtype msg.mtype = false) :
      Outcome state (.msgrcv proc call.msgid msgp msgsz call.mtype msgflg)
        ((state.setEntry slot (some { msgq with qReceiver := msgq.qReceiver ++
          [{ proc := proc, mtype := call.mtype, size := call.msgsz }] })).goto proc
            (.receiving call .unassigned false))
  /-- A receive that was handed a message returns it. -/
  | resumed (proc : Tid) (call : ReceiveCall) (letter : Letter) (pool : List Page) (value : Int)
      (located : state.proc proc = .receiving call (.message letter) true)
      (freed : pool = freeMsg letter.toMsg state.pool) :
      Outcome state (.resume proc)
        (({ state with pool := pool }.goto proc .running).record
          [.received proc call.mtype letter.serial, .returned proc value])
  /-- A receive that was handed nothing returns. -/
  | dismissed (proc : Tid) (call : ReceiveCall)
      (located : state.proc proc = .receiving call .null true) :
      Outcome state (.resume proc) (state.ret proc e2big)
  /-- A queue is removed. -/
  | removed {msgid : Int} (proc : Tid) (slot : Fin seqMultiplier) (msgq : MsgQueue)
      (idle : state.proc proc = .running)
      (addressed : getMsgq state.ids msgid = .ok (some slot))
      (live : state.ids.entries slot = some msgq) :
      Outcome state (.msgctl proc msgid ipcRmid) ((freeMsgq state slot msgq).1.ret proc 0)

section

variable (state : System) (procs : List Tid)

private theorem ssWakeup_frame : (ssWakeup state procs).ids = state.ids ∧
    (ssWakeup state procs).pool = state.pool ∧ (ssWakeup state procs).calls = state.calls ∧
    (ssWakeup state procs).history = state.history := by
  unfold ssWakeup
  induction procs generalizing state with
  | nil => exact ⟨rfl, rfl, rfl, rfl⟩
  | cons proc procs ih => exact ih (state.activate proc)

@[simp]
theorem ssWakeup_ids : (ssWakeup state procs).ids = state.ids := (ssWakeup_frame state procs).1

@[simp]
theorem ssWakeup_pool : (ssWakeup state procs).pool = state.pool :=
  (ssWakeup_frame state procs).2.1

@[simp]
theorem ssWakeup_calls : (ssWakeup state procs).calls = state.calls :=
  (ssWakeup_frame state procs).2.2.1

@[simp]
theorem ssWakeup_history : (ssWakeup state procs).history = state.history :=
  (ssWakeup_frame state procs).2.2.2

theorem ProcState.activate_activate (current : ProcState) :
    current.activate.activate = current.activate := by
  cases current <;> rfl

theorem ssWakeup_proc (proc : Tid) :
    (ssWakeup state procs).proc proc =
      if proc ∈ procs then (state.proc proc).activate else state.proc proc := by
  unfold ssWakeup
  induction procs generalizing state with
  | nil => rfl
  | cons head procs ih =>
      have here : (state.activate head).proc proc =
          if proc = head then (state.proc proc).activate else state.proc proc := by
        by_cases same : proc = head
        · subst same
          rw [if_pos rfl]
          exact Function.update_self _ _ _
        · rw [if_neg same]
          exact Function.update_of_ne same _ _
      rw [List.foldl_cons, ih, here]
      by_cases same : proc = head
      · rw [if_pos same, ProcState.activate_activate, ite_self, if_pos]
        rw [same]
        exact List.mem_cons_self
      · rw [if_neg same]
        simp only [List.mem_cons, same, false_or]

end

namespace Outcome

variable {state after : System} {proc : Tid}

/-- A call returns and leaves even the order of the free pages alone. -/
theorem unchanged {action : Action} (value : Int) (idle : state.proc proc = .running) :
    Outcome state action (state.ret proc value) :=
  .returned proc value state.pool idle (List.Perm.refl _)

theorem ofNewque {key : Int} {msgflg : UInt32} {allocated : Bool}
    (idle : state.proc proc = .running) :
    Outcome state (.msgget proc key msgflg allocated)
      ({ state with ids := (newque state.ids key allocated).2 }.ret proc
        (newque state.ids key allocated).1) := by
  cases allocated with
  | false => exact unchanged enomem idle
  | true =>
      unfold newque
      rw [if_pos rfl]
      cases searched : state.ids.firstSlot (fun entry => entry.isNone) with
      | none => exact unchanged enoseq idle
      | some slot =>
          have free : state.ids.entries slot = none := by
            have empty := List.find?_some searched
            exact Option.isNone_iff_eq_none.mp empty
          exact .created proc slot idle free

theorem ofMsgget {key : Int} {msgflg : UInt32} {allocated : Bool}
    (taken : msgget state proc key msgflg allocated = .ok after) :
    Outcome state (.msgget proc key msgflg allocated) after := by
  unfold msgget at taken
  split at taken
  · rename_i idle
    have effect : after = { state with ids := (sysMsgget state.ids key msgflg allocated).2 }.ret
        proc (sysMsgget state.ids key msgflg allocated).1 := (Except.ok.inj taken).symm
    rw [effect]
    unfold sysMsgget
    split
    · exact ofNewque idle
    · split
      · split
        · exact ofNewque idle
        · exact unchanged enoent idle
      · split
        · exact unchanged eexist idle
        · split
          · exact unchanged enoent idle
          · exact unchanged _ idle
  · cases taken

theorem ofMsgsnd {msgid : Int} {msgp : Option MsgBuf} {msgsz : Int} {msgflg : UInt32}
    (taken : msgsnd state proc msgid msgp msgsz msgflg = .ok after) :
    Outcome state (.msgsnd proc msgid msgp msgsz msgflg) after := by
  unfold msgsnd at taken
  split at taken
  · rename_i idle
    split at taken
    · cases taken
      exact unchanged einval idle
    · rename_i buffer
      split at taken
      · cases taken
        exact unchanged einval idle
      · have pages := loadMsg_pages state.pool buffer.mtype buffer.data msgsz.toNat
        split at taken
        · rename_i pool loaded
          rw [loaded] at pages
          cases taken
          exact .returned proc enomem pool idle pages
        · rename_i msg pool loaded
          rw [loaded] at pages
          cases taken
          exact .loaded proc { msgid := msgid, msgflg := msgflg, letter := _ } pool idle rfl pages
  · cases taken

theorem ofAcceptMsg {call : SendCall} {slot : Fin seqMultiplier} {msgq : MsgQueue}
    (located : state.proc proc = .sending call true)
    (addressed : getMsgq state.ids call.msgid = .ok (some slot))
    (live : state.ids.entries slot = some msgq) (room : msgq.sumMsg + 1 ≤ msgq.maxMsg)
    (taken : acceptMsg state proc slot msgq call.letter = .ok after) :
    Outcome state (.sendSection proc) after := by
  unfold acceptMsg at taken
  split at taken
  · cases taken
  · rename_i piped walked
    rcases pipelineSend_some walked with
      ⟨rfl, nobody⟩ | ⟨before, rcver, later, waiting, rfl, wanted, fits, _⟩
    · cases taken
      exact .queued proc call slot msgq located addressed live room nobody
    · cases taken
      exact .piped proc call slot msgq before later rcver located addressed live room waiting wanted
        fits

theorem ofSendSection (taken : sendSection state proc = .ok after) :
    Outcome state (.sendSection proc) after := by
  unfold sendSection at taken
  split at taken
  · rename_i call located
    split at taken
    · cases taken
    · cases taken
      exact .refused proc call eidrm located
    · rename_i slot addressed
      split at taken
      · cases taken
      · rename_i msgq live
        split at taken
        · rename_i full
          split at taken
          · cases taken
            exact .refused proc call eagain located
          · cases taken
            exact .slept proc call slot msgq located addressed live full
        · rename_i room
          exact ofAcceptMsg located addressed live (Int.not_lt.mp room) taken
  · cases taken

/-- The message a receive ends with goes back to the free pages. -/
theorem takeMsg_ok {call : ReceiveCall} {letter : Letter}
    (taken : takeMsg state proc call letter = .ok after) :
    ∃ value : Int, after =
      ({ state with pool := freeMsg letter.toMsg state.pool }.goto proc .running).record
        [.received proc call.mtype letter.serial, .returned proc value] := by
  unfold takeMsg deliver at taken
  simp only at taken
  split at taken
  · cases taken
  · rename_i value stored pool delivered
    cases taken
    split at delivered
    · cases delivered
    · cases delivered
      exact ⟨_, rfl⟩

theorem ofMsgrcv {msgid msgsz mtype : Int} {msgp : Option MsgBuf} {msgflg : UInt32}
    (taken : msgrcv state proc msgid msgp msgsz mtype msgflg = .ok after) :
    Outcome state (.msgrcv proc msgid msgp msgsz mtype msgflg) after := by
  unfold msgrcv at taken
  split at taken
  · rename_i idle
    split at taken
    · cases taken
      exact unchanged einval idle
    · rename_i buffer
      split at taken
      · cases taken
        exact unchanged einval idle
      · simp only at taken
        split at taken
        · cases taken
        · cases taken
          exact unchanged eidrm idle
        · rename_i slot addressed
          split at taken
          · cases taken
          · rename_i msgq live
            split at taken
            · rename_i found hit
              split at taken
              · cases taken
                exact unchanged e2big idle
              · obtain ⟨value, rfl⟩ := takeMsg_ok taken
                simp only [System.record, System.goto, List.append_assoc, List.cons_append,
                  List.nil_append]
                exact .taken proc slot msgq found _ value idle addressed live hit
                  (by rw [ssWakeup_pool]; rfl)
            · rename_i missing
              split at taken
              · cases taken
                exact unchanged enomsg idle
              · cases taken
                exact .waited proc slot msgq
                  { msgid := msgid, msgp := buffer, msgsz := msgsz.toNat, mtype := mtype } idle
                  addressed live (searchLoop_eq_none missing).2
  · cases taken

theorem ofResume (taken : resume state proc = .ok after) :
    Outcome state (.resume proc) after := by
  unfold resume at taken
  split at taken
  · rename_i call letter located
    obtain ⟨value, rfl⟩ := takeMsg_ok taken
    exact .resumed proc call letter _ value located rfl
  · rename_i call located
    cases taken
    exact .dismissed proc call located
  · cases taken
  · cases taken

theorem ofMsgctl {msgid cmd : Int} (taken : msgctl state proc msgid cmd = .ok after) :
    Outcome state (.msgctl proc msgid cmd) after := by
  unfold msgctl at taken
  split at taken
  · rename_i idle
    split at taken
    · rename_i removal
      subst removal
      unfold freeque at taken
      split at taken
      · cases taken
      · rename_i freed removed
        cases taken
        split at removed
        · cases removed
        · cases removed
          exact unchanged 0 idle
        · rename_i slot addressed
          split at removed
          · cases removed
          · rename_i msgq live
            cases removed
            exact .removed proc slot msgq idle addressed live
    · cases taken
      exact unchanged einval idle
  · cases taken

end Outcome

theorem ipcStep_outcome {state after : System} {action : Action}
    (taken : ipcStep state action = .ok after) : Outcome state action after := by
  cases action with
  | msgget proc key msgflg allocated => exact Outcome.ofMsgget taken
  | msgsnd proc msgid msgp msgsz msgflg => exact Outcome.ofMsgsnd taken
  | sendSection proc => exact Outcome.ofSendSection taken
  | msgrcv proc msgid msgp msgsz mtype msgflg => exact Outcome.ofMsgrcv taken
  | resume proc => exact Outcome.ofResume taken
  | msgctl proc msgid cmd => exact Outcome.ofMsgctl taken

end LabKernel.Ipc
