/-
Who waits on a queue, and why.

Senders sleep only on a full queue, and receivers only while nothing that is queued
is for them. Both facts rest on the count of messages being right, and every section
keeps the three of them together.
-/

import LabKernel.Ipc.System

set_option autoImplicit false

namespace LabKernel.Ipc

open Common Transition

structure MsgQueue.Balanced (msgq : MsgQueue) : Prop where
  counted : msgq.sumMsg = (msgq.qMessage.length : Int)
  bounded : msgq.sumMsg ≤ msgq.maxMsg
  full : msgq.qSender ≠ [] → msgq.sumMsg = msgq.maxMsg
  unmatched : ∀ msg, msg ∈ msgq.qMessage → ∀ rcver, rcver ∈ msgq.qReceiver →
    testmsg rcver.mtype msg.mtype = false

namespace MsgQueue.Balanced

variable {msgq : MsgQueue}

theorem empty (key : Int) (seq : UInt16) :
    MsgQueue.Balanced { key := key, seq := seq, maxMsg := maxMsgnum, sumMsg := 0, qMessage := []
                        qSender := [], qReceiver := [] } := by
  constructor
  · rfl
  · change (0 : Int) ≤ maxMsgnum
    decide
  · intro senders
    exact absurd rfl senders
  · intro msg member
    cases member

theorem sleeps (balanced : msgq.Balanced) (full : msgq.maxMsg < msgq.sumMsg + 1) (proc : Tid) :
    MsgQueue.Balanced { msgq with qSender := msgq.qSender ++ [proc] } := by
  constructor
  · exact balanced.counted
  · exact balanced.bounded
  · intro _
    have bounded := balanced.bounded
    change msgq.sumMsg = msgq.maxMsg
    omega
  · exact balanced.unmatched

/-- With room nobody sleeps in front of the queue, before and after the message. -/
theorem queues (balanced : msgq.Balanced) {letter : Letter}
    (room : msgq.sumMsg + 1 ≤ msgq.maxMsg)
    (nobody : ∀ rcver ∈ msgq.qReceiver, testmsg rcver.mtype letter.mtype = false) :
    MsgQueue.Balanced
      { msgq with qMessage := msgq.qMessage ++ [letter], sumMsg := msgq.sumMsg + 1 } := by
  constructor
  · have counted := balanced.counted
    simp only [List.length_append, List.length_singleton]
    omega
  · exact room
  · intro senders
    have full := balanced.full senders
    omega
  · intro msg member rcver waits
    rcases List.mem_append.mp member with earlier | last
    · exact balanced.unmatched msg earlier rcver waits
    · rw [List.mem_singleton.mp last]
      exact nobody rcver waits

theorem pipes (balanced : msgq.Balanced) {before after : List Receiver} {rcver : Receiver}
    (waiting : msgq.qReceiver = before ++ rcver :: after) :
    MsgQueue.Balanced { msgq with qReceiver := before ++ after } := by
  constructor
  · exact balanced.counted
  · exact balanced.bounded
  · exact balanced.full
  · intro msg member other waits
    apply balanced.unmatched msg member other
    rw [waiting]
    rcases List.mem_append.mp waits with earlier | later
    · exact List.mem_append_left _ earlier
    · exact List.mem_append_right _ (List.mem_cons_of_mem _ later)

theorem takes (balanced : msgq.Balanced) {found : Letter} (member : found ∈ msgq.qMessage) :
    MsgQueue.Balanced
      { msgq with
        qMessage := msgq.qMessage.eraseP (fun msg => msg.serial = found.serial)
        sumMsg := msgq.sumMsg - 1
        qSender := [] } := by
  have counted := balanced.counted
  have bounded := balanced.bounded
  constructor
  · have shorter := List.length_eraseP_of_mem (p := fun msg => decide (msg.serial = found.serial))
      member (decide_eq_true rfl)
    have positive := List.length_pos_of_mem member
    change msgq.sumMsg - 1 = ((msgq.qMessage.eraseP _).length : Int)
    rw [shorter]
    omega
  · change msgq.sumMsg - 1 ≤ msgq.maxMsg
    omega
  · intro senders
    exact absurd rfl senders
  · intro msg still rcver waits
    exact balanced.unmatched msg (List.mem_of_mem_eraseP still) rcver waits

theorem waits (balanced : msgq.Balanced) {rcver : Receiver}
    (nothing : ∀ msg ∈ msgq.qMessage, testmsg rcver.mtype msg.mtype = false) :
    MsgQueue.Balanced { msgq with qReceiver := msgq.qReceiver ++ [rcver] } := by
  constructor
  · exact balanced.counted
  · exact balanced.bounded
  · exact balanced.full
  · intro msg member other waiting
    rcases List.mem_append.mp waiting with earlier | last
    · exact balanced.unmatched msg member other earlier
    · rw [List.mem_singleton.mp last]
      exact nothing msg member

end MsgQueue.Balanced

def IpcIds.Balanced (ids : IpcIds) : Prop :=
  ∀ slot msgq, ids.entries slot = some msgq → msgq.Balanced

theorem IpcIds.Balanced.update {entries : Fin seqMultiplier → Option MsgQueue}
    (balanced : ∀ slot msgq, entries slot = some msgq → msgq.Balanced) {slot : Fin seqMultiplier}
    {entry : Option MsgQueue} (new : ∀ msgq, entry = some msgq → msgq.Balanced) :
    ∀ other msgq, Function.update entries slot entry other = some msgq → msgq.Balanced := by
  intro other msgq live
  by_cases same : other = slot
  · rw [same, Function.update_self] at live
    exact new msgq live
  · rw [Function.update_of_ne same] at live
    exact balanced other msgq live

theorem IpcIds.Balanced.replace {ids : IpcIds} (balanced : ids.Balanced) {slot : Fin seqMultiplier}
    {msgq : MsgQueue} (new : msgq.Balanced) : (ids.setEntry slot (some msgq)).Balanced := by
  apply IpcIds.Balanced.update balanced
  intro other same
  rw [← Option.some.inj same]
  exact new

theorem freeMsgq_entries (state : System) (slot : Fin seqMultiplier) (msgq : MsgQueue) :
    (freeMsgq state slot msgq).1.ids.entries = Function.update state.ids.entries slot none := by
  change (ssWakeup (state.setEntry slot none) (msgq.qReceiver.map Receiver.proc)).ids.entries = _
  rw [ssWakeup_ids]
  rfl

theorem IpcIds.Balanced.step {state after : System} {action : Action}
    (balanced : state.ids.Balanced) (outcome : Outcome state action after) :
    after.ids.Balanced := by
  cases outcome with
  | returned proc value pool idle kept => exact balanced
  | created proc slot idle free =>
      apply IpcIds.Balanced.update balanced
      intro msgq same
      rw [← Option.some.inj same]
      exact MsgQueue.Balanced.empty _ _
  | loaded proc call pool idle numbered taken => exact balanced
  | refused proc call err located => exact balanced
  | slept proc call slot msgq located addressed live full =>
      exact balanced.replace ((balanced slot msgq live).sleeps full proc)
  | queued proc call slot msgq located addressed live room nobody =>
      exact balanced.replace ((balanced slot msgq live).queues room nobody)
  | piped proc call slot msgq before after rcver located addressed live room waiting wanted fits =>
      exact balanced.replace ((balanced slot msgq live).pipes waiting)
  | taken proc slot msgq found pool value idle addressed live hit freed =>
      have member : found ∈ msgq.qMessage := by
        rcases searchLoop_mem hit with member | impossible
        · exact member
        · cases impossible
      change (ssWakeup _ _).ids.Balanced
      rw [ssWakeup_ids]
      exact balanced.replace ((balanced slot msgq live).takes member)
  | waited proc slot msgq call idle addressed live nothing =>
      exact balanced.replace ((balanced slot msgq live).waits nothing)
  | resumed proc call letter pool value located freed => exact balanced
  | dismissed proc call located => exact balanced
  | removed proc slot msgq idle addressed live =>
      change ∀ other msgq', (freeMsgq state slot msgq).1.ids.entries other = some msgq' → _
      rw [freeMsgq_entries]
      apply IpcIds.Balanced.update balanced
      intro msgq impossible
      cases impossible

end LabKernel.Ipc
