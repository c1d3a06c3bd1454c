/-
Where processes sit.

A process on a waiting list is asleep in the call that put it there, on the list of
the entry its call addressed, and a receiver's slot is unwritten until it is taken off
the list.
-/

import LabKernel.Ipc.Waiting
import Mathlib.Data.List.Nodup

set_option autoImplicit false

namespace LabKernel.Ipc

open Common Transition

/-! ### Seats on the waiting lists -/

/-- The process sleeps in a send addressed to this entry. -/
def System.SeatedSender (state : System) (slot : Fin seqMultiplier) (proc : Tid) : Prop :=
  ∃ call, state.proc proc = .sending call false ∧
    ((slot.val : Nat) : Int) = call.msgid.tmod seqMultiplier

/-- The process sleeps in the receive whose record is on the list of this entry. -/
def System.SeatedReceiver (state : System) (slot : Fin seqMultiplier) (rcver : Receiver) : Prop :=
  ∃ call, state.proc rcver.proc = .receiving call .unassigned false ∧
    ((slot.val : Nat) : Int) = call.msgid.tmod seqMultiplier ∧
    rcver.mtype = call.mtype ∧ rcver.size = call.msgsz

structure Seated (state : System) : Prop where
  senders : ∀ slot msgq, state.ids.entries slot = some msgq → ∀ proc, proc ∈ msgq.qSender →
    state.SeatedSender slot proc
  receivers : ∀ slot msgq, state.ids.entries slot = some msgq → ∀ rcver, rcver ∈ msgq.qReceiver →
    state.SeatedReceiver slot rcver
  once : ∀ slot msgq, state.ids.entries slot = some msgq →
    (msgq.qReceiver.map Receiver.proc).Nodup
  unwritten : ∀ proc call slot, state.proc proc = .receiving call slot false → slot = .unassigned

def ProcState.Asleep : ProcState → Prop
  | .running => False
  | .sending _ awake => awake = false
  | .receiving _ _ awake => awake = false

namespace Seated

variable {state after : System}

theorem sender_asleep {slot : Fin seqMultiplier} {proc : Tid}
    (seat : state.SeatedSender slot proc) : (state.proc proc).Asleep := by
  obtain ⟨call, located, _⟩ := seat
  rw [located]
  rfl

theorem receiver_asleep {slot : Fin seqMultiplier} {rcver : Receiver}
    (seat : state.SeatedReceiver slot rcver) : (state.proc rcver.proc).Asleep := by
  obtain ⟨call, located, _⟩ := seat
  rw [located]
  rfl

/-- A process sits at one entry only. -/
theorem sender_slot {left right : Fin seqMultiplier} {proc : Tid}
    (leftSeat : state.SeatedSender left proc) (rightSeat : state.SeatedSender right proc) :
    left = right := by
  obtain ⟨call, located, leftSlot⟩ := leftSeat
  obtain ⟨again, relocated, rightSlot⟩ := rightSeat
  rw [located] at relocated
  cases relocated
  apply Fin.ext
  omega

theorem receiver_slot {left right : Fin seqMultiplier} {rcver other : Receiver}
    (leftSeat : state.SeatedReceiver left rcver) (rightSeat : state.SeatedReceiver right other)
    (same : rcver.proc = other.proc) : left = right := by
  obtain ⟨call, located, leftSlot, _⟩ := leftSeat
  obtain ⟨again, relocated, rightSlot, _⟩ := rightSeat
  rw [same, relocated] at located
  cases located
  apply Fin.ext
  omega

theorem sender_ne_receiver {left right : Fin seqMultiplier} {proc : Tid} {rcver : Receiver}
    (leftSeat : state.SeatedSender left proc) (rightSeat : state.SeatedReceiver right rcver) :
    proc ≠ rcver.proc := by
  obtain ⟨call, located, _⟩ := leftSeat
  obtain ⟨again, relocated, _⟩ := rightSeat
  intro same
  rw [same, relocated] at located
  cases located

/-- After a step every listed process either was listed before and has not moved, or has
taken its seat in this step. -/
theorem move (seated : Seated state)
    (senders : ∀ slot msgq, after.ids.entries slot = some msgq → ∀ proc, proc ∈ msgq.qSender →
      (∃ old, state.ids.entries slot = some old ∧ proc ∈ old.qSender ∧
        after.proc proc = state.proc proc) ∨ after.SeatedSender slot proc)
    (receivers : ∀ slot msgq, after.ids.entries slot = some msgq → ∀ rcver,
      rcver ∈ msgq.qReceiver → (∃ old, state.ids.entries slot = some old ∧ rcver ∈ old.qReceiver ∧
        after.proc rcver.proc = state.proc rcver.proc) ∨ after.SeatedReceiver slot rcver)
    (once : ∀ slot msgq, after.ids.entries slot = some msgq →
      (msgq.qReceiver.map Receiver.proc).Nodup)
    (unwritten : ∀ proc call slot, after.proc proc = .receiving call slot false →
      slot = .unassigned) : Seated after := by
  constructor
  · intro slot msgq live proc member
    rcases senders slot msgq live proc member with ⟨old, before, listed, same⟩ | seat
    · obtain ⟨call, located, addressed⟩ := seated.senders slot old before proc listed
      exact ⟨call, same.trans located, addressed⟩
    · exact seat
  · intro slot msgq live rcver member
    rcases receivers slot msgq live rcver member with ⟨old, before, listed, same⟩ | seat
    · obtain ⟨call, located, addressed⟩ := seated.receivers slot old before rcver listed
      exact ⟨call, same.trans located, addressed⟩
    · exact seat
  · exact once
  · exact unwritten

theorem awake (seated : Seated state) {proc : Tid} {next : ProcState}
    (procs : after.proc = Function.update state.proc proc next)
    (roused : ¬(state.proc proc).Asleep) (stays : ¬next.Asleep)
    (lists : ∀ slot msgq, after.ids.entries slot = some msgq →
      (msgq.qSender = [] ∧ msgq.qReceiver = []) ∨ ∃ old, state.ids.entries slot = some old ∧
        msgq.qSender = old.qSender ∧ msgq.qReceiver = old.qReceiver) : Seated after := by
  have unmoved {other : Tid} (asleep : (state.proc other).Asleep) :
      after.proc other = state.proc other := by
    rw [procs]
    apply Function.update_of_ne
    intro same
    exact roused (same ▸ asleep)
  apply seated.move
  · intro slot msgq live other member
    rcases lists slot msgq live with ⟨empty, _⟩ | ⟨old, before, same, _⟩
    · rw [empty] at member
      cases member
    · rw [same] at member
      exact Or.inl ⟨old, before, member,
        unmoved (sender_asleep (seated.senders slot old before other member))⟩
  · intro slot msgq live rcver member
    rcases lists slot msgq live with ⟨_, empty⟩ | ⟨old, before, _, same⟩
    · rw [empty] at member
      cases member
    · rw [same] at member
      exact Or.inl ⟨old, before, member,
        unmoved (receiver_asleep (seated.receivers slot old before rcver member))⟩
  · intro slot msgq live
    rcases lists slot msgq live with ⟨_, empty⟩ | ⟨old, before, _, same⟩
    · rw [empty]
      exact List.nodup_nil
    · rw [same]
      exact seated.once slot old before
  · intro other call slot located
    rw [procs] at located
    by_cases same : other = proc
    · rw [same, Function.update_self] at located
      rw [located] at stays
      exact absurd rfl stays
    · rw [Function.update_of_ne same] at located
      exact seated.unwritten other call slot located

/-- A live entry of a table in which one entry was replaced. -/
theorem entries_update {entries : Fin seqMultiplier → Option MsgQueue}
    {slot other : Fin seqMultiplier} {entry : Option MsgQueue} {msgq : MsgQueue}
    (live : Function.update entries slot entry other = some msgq) :
    (other = slot ∧ entry = some msgq) ∨ (other ≠ slot ∧ entries other = some msgq) := by
  by_cases same : other = slot
  · rw [same, Function.update_self] at live
    exact Or.inl ⟨same, live⟩
  · rw [Function.update_of_ne same] at live
    exact Or.inr ⟨same, live⟩

theorem lists_kept {slot : Fin seqMultiplier} {old new : MsgQueue}
    (live : state.ids.entries slot = some old)
    (entries : after.ids.entries = Function.update state.ids.entries slot (some new))
    (senders : new.qSender = old.qSender) (receivers : new.qReceiver = old.qReceiver) :
    ∀ other msgq, after.ids.entries other = some msgq →
      (msgq.qSender = [] ∧ msgq.qReceiver = []) ∨ ∃ before, state.ids.entries other = some before ∧
        msgq.qSender = before.qSender ∧ msgq.qReceiver = before.qReceiver := by
  intro other msgq live'
  rw [entries] at live'
  rcases entries_update live' with ⟨rfl, same⟩ | ⟨_, before⟩
  · cases same
    exact Or.inr ⟨old, live, senders, receivers⟩
  · exact Or.inr ⟨msgq, before, rfl, rfl⟩

theorem slept (seated : Seated state) {proc : Tid} {call : SendCall} {slot : Fin seqMultiplier}
    {msgq : MsgQueue} (roused : ¬(state.proc proc).Asleep)
    (addressed : ((slot.val : Nat) : Int) = call.msgid.tmod seqMultiplier)
    (live : state.ids.entries slot = some msgq)
    (procs : after.proc = Function.update state.proc proc (.sending call false))
    (entries : after.ids.entries = Function.update state.ids.entries slot
      (some { msgq with qSender := msgq.qSender ++ [proc] })) : Seated after := by
  have unmoved {other : Tid} (asleep : (state.proc other).Asleep) :
      after.proc other = state.proc other := by
    rw [procs]
    apply Function.update_of_ne
    intro same
    exact roused (same ▸ asleep)
  have receiversOf {other : Fin seqMultiplier} {current : MsgQueue}
      (live' : after.ids.entries other = some current) :
      ∃ old, state.ids.entries other = some old ∧ current.qReceiver = old.qReceiver := by
    rw [entries] at live'
    rcases entries_update live' with ⟨rfl, same⟩ | ⟨_, before⟩
    · cases same
      exact ⟨msgq, live, rfl⟩
    · exact ⟨current, before, rfl⟩
  apply seated.move
  · intro other current live' sleeper member
    rw [entries] at live'
    rcases entries_update live' with ⟨rfl, same⟩ | ⟨_, before⟩
    · cases same
      rcases List.mem_append.mp member with listed | last
      · exact Or.inl ⟨msgq, live, listed,
          unmoved (sender_asleep (seated.senders other msgq live sleeper listed))⟩
      · rw [List.mem_singleton.mp last]
        exact Or.inr ⟨call, by rw [procs, Function.update_self], addressed⟩
    · exact Or.inl ⟨current, before, member,
        unmoved (sender_asleep (seated.senders other current before sleeper member))⟩
  · intro other current live' rcver member
    obtain ⟨old, before, same⟩ := receiversOf live'
    rw [same] at member
    exact Or.inl ⟨old, before, member,
      unmoved (receiver_asleep (seated.receivers other old before rcver member))⟩
  · intro other current live'
    obtain ⟨old, before, same⟩ := receiversOf live'
    rw [same]
    exact seated.once other old before
  · intro other current place located
    rw [procs] at located
    by_cases same : other = proc
    · rw [same, Function.update_self] at located
      cases located
    · rw [Function.update_of_ne same] at located
      exact seated.unwritten other current place located

/-- A receiver lies down on the list of its queue. -/
theorem waited (seated : Seated state) {proc : Tid} {call : ReceiveCall}
    {slot : Fin seqMultiplier} {msgq : MsgQueue} (roused : ¬(state.proc proc).Asleep)
    (addressed : ((slot.val : Nat) : Int) = call.msgid.tmod seqMultiplier)
    (live : state.ids.entries slot = some msgq)
    (procs : after.proc = Function.update state.proc proc (.receiving call .unassigned false))
    (entries : after.ids.entries = Function.update state.ids.entries slot
      (some { msgq with qReceiver := msgq.qReceiver ++
        [{ proc := proc, mtype := call.mtype, size := call.msgsz }] })) : Seated after := by
  have unmoved {other : Tid} (asleep : (state.proc other).Asleep) :
      after.proc other = state.proc other := by
    rw [procs]
    apply Function.update_of_ne
    intro same
    exact roused (same ▸ asleep)
  apply seated.move
  · intro other current live' sleeper member
    rw [entries] at live'
    rcases entries_update live' with ⟨rfl, same⟩ | ⟨_, before⟩
    · cases same
      exact Or.inl ⟨msgq, live, member,
        unmoved (sender_asleep (seated.senders other msgq live sleeper member))⟩
    · exact Or.inl ⟨current, before, member,
        unmoved (sender_asleep (seated.senders other current before sleeper member))⟩
  · intro other current live' rcver member
    rw [entries] at live'
    rcases entries_update live' with ⟨rfl, same⟩ | ⟨_, before⟩
    · cases same
      rcases List.mem_append.mp member with listed | last
      · exact Or.inl ⟨msgq, live, listed,
          unmoved (receiver_asleep (seated.receivers other msgq live rcver listed))⟩
      · rw [List.mem_singleton.mp last]
        exact Or.inr ⟨call, by rw [procs, Function.update_self], addressed, rfl, rfl⟩
    · exact Or.inl ⟨current, before, member,
        unmoved (receiver_asleep (seated.receivers other current before rcver member))⟩
  · intro other current live'
    rw [entries] at live'
    rcases entries_update live' with ⟨rfl, same⟩ | ⟨_, before⟩
    · cases same
      rw [List.map_append, List.map_singleton, List.nodup_append]
      refine ⟨seated.once other msgq live, List.nodup_singleton _, ?_⟩
      intro sleeper listed newcomer last same
      rw [List.mem_singleton.mp last] at same
      obtain ⟨rcver, member, rfl⟩ := List.mem_map.mp listed
      change rcver.proc = proc at same
      exact roused (same ▸ receiver_asleep (seated.receivers other msgq live rcver member))
    · exact seated.once other current before
  · intro other current place located
    rw [procs] at located
    by_cases same : other = proc
    · rw [same, Function.update_self] at located
      cases located
      rfl
    · rw [Function.update_of_ne same] at located
      exact seated.unwritten other current place located

/-- A receiver is taken off its list and handed a message. -/
theorem piped (seated : Seated state) {proc : Tid} {slot : Fin seqMultiplier} {msgq : MsgQueue}
    {before later : List Receiver} {rcver : Receiver} {call : ReceiveCall} {given : Slot}
    (roused : ¬(state.proc proc).Asleep) (live : state.ids.entries slot = some msgq)
    (waiting : msgq.qReceiver = before ++ rcver :: later)
    (procs : after.proc = Function.update (Function.update state.proc proc .running) rcver.proc
      (.receiving call given true))
    (entries : after.ids.entries = Function.update state.ids.entries slot
      (some { msgq with qReceiver := before ++ later })) : Seated after := by
  have member : rcver ∈ msgq.qReceiver := by
    rw [waiting]
    exact List.mem_append_right _ List.mem_cons_self
  have seat := seated.receivers slot msgq live rcver member
  have unmoved {other : Tid} (asleep : (state.proc other).Asleep) (different : other ≠ rcver.proc) :
      after.proc other = state.proc other := by
    rw [procs, Function.update_of_ne different]
    apply Function.update_of_ne
    intro same
    exact roused (same ▸ asleep)
  have kept : (before ++ later).Sublist msgq.qReceiver := by
    rw [waiting]
    exact (List.sublist_cons_self rcver later).append_left before
  have distinct := seated.once slot msgq live
  apply seated.move
  · intro other current live' sleeper listed
    rw [entries] at live'
    rcases entries_update live' with ⟨rfl, same⟩ | ⟨_, earlier⟩
    · cases same
      have seated' := seated.senders other msgq live sleeper listed
      exact Or.inl ⟨msgq, live, listed,
        unmoved (sender_asleep seated') (sender_ne_receiver seated' seat)⟩
    · have seated' := seated.senders other current earlier sleeper listed
      exact Or.inl ⟨current, earlier, listed,
        unmoved (sender_asleep seated') (sender_ne_receiver seated' seat)⟩
  · intro other current live' sleeper listed
    rw [entries] at live'
    rcases entries_update live' with ⟨rfl, same⟩ | ⟨elsewhere, earlier⟩
    · cases same
      have seated' := seated.receivers other msgq live sleeper (kept.subset listed)
      refine Or.inl ⟨msgq, live, kept.subset listed, unmoved (receiver_asleep seated') ?_⟩
      intro same
      rw [waiting, List.map_append, List.map_cons, List.nodup_middle, List.nodup_cons,
        ← List.map_append] at distinct
      exact distinct.1 (List.mem_map.mpr ⟨sleeper, listed, same⟩)
    · have seated' := seated.receivers other current earlier sleeper listed
      refine Or.inl ⟨current, earlier, listed, unmoved (receiver_asleep seated') ?_⟩
      intro same
      exact elsewhere (receiver_slot seated' seat same)
  · intro other current live'
    rw [entries] at live'
    rcases entries_update live' with ⟨rfl, same⟩ | ⟨_, earlier⟩
    · cases same
      exact (kept.map Receiver.proc).nodup distinct
    · exact seated.once other current earlier
  · intro other current place located
    rw [procs] at located
    by_cases served : other = rcver.proc
    · rw [served, Function.update_self] at located
      cases located
    · rw [Function.update_of_ne served] at located
      by_cases sender : other = proc
      · rw [sender, Function.update_self] at located
        cases located
      · rw [Function.update_of_ne sender] at located
        exact seated.unwritten other current place located

theorem woken (seated : Seated state) {proc : Tid} (woken : List Tid)
    (roused : ¬(state.proc proc).Asleep)
    (procs : after.proc = Function.update (fun other =>
      if other ∈ woken then (state.proc other).activate else state.proc other) proc .running)
    (lists : ∀ slot msgq, after.ids.entries slot = some msgq → ∃ old,
      state.ids.entries slot = some old ∧ msgq.qSender.Sublist old.qSender ∧
      msgq.qReceiver.Sublist old.qReceiver ∧ (∀ other ∈ msgq.qSender, other ∉ woken) ∧
      ∀ rcver ∈ msgq.qReceiver, rcver.proc ∉ woken) : Seated after := by
  have unmoved {other : Tid} (asleep : (state.proc other).Asleep) (absent : other ∉ woken) :
      after.proc other = state.proc other := by
    have different : other ≠ proc := fun same => roused (same ▸ asleep)
    rw [procs, Function.update_of_ne different, if_neg absent]
  apply seated.move
  · intro slot msgq live other member
    obtain ⟨old, before, senders, _, absent, _⟩ := lists slot msgq live
    have seat := seated.senders slot old before other (senders.subset member)
    exact Or.inl ⟨old, before, senders.subset member,
      unmoved (sender_asleep seat) (absent other member)⟩
  · intro slot msgq live rcver member
    obtain ⟨old, before, _, receivers, _, absent⟩ := lists slot msgq live
    have seat := seated.receivers slot old before rcver (receivers.subset member)
    exact Or.inl ⟨old, before, receivers.subset member,
      unmoved (receiver_asleep seat) (absent rcver member)⟩
  · intro slot msgq live
    obtain ⟨old, before, _, receivers, _, _⟩ := lists slot msgq live
    exact (receivers.map Receiver.proc).nodup (seated.once slot old before)
  · intro other call slot located
    rw [procs] at located
    by_cases same : other = proc
    · rw [same, Function.update_self] at located
      cases located
    · rw [Function.update_of_ne same] at located
      split at located
      · cases current : state.proc other with
        | running =>
            rw [current] at located
            cases located
        | sending call awake =>
            rw [current] at located
            cases located
        | receiving call place awake =>
            rw [current] at located
            cases located
      · exact seated.unwritten other call slot located

theorem initial (pool : List Page) : Seated (System.initial pool) := by
  constructor
  · intro slot msgq live
    cases live
  · intro slot msgq live
    cases live
  · intro slot msgq live
    cases live
  · intro proc call slot located
    cases located

theorem not_asleep {proc : Tid} {current : ProcState} (located : state.proc proc = current)
    (awake : ¬current.Asleep) : ¬(state.proc proc).Asleep := by
  rw [located]
  exact awake

theorem ssWakeup_procs (state : System) (procs : List Tid) :
    (ssWakeup state procs).proc = fun other =>
      if other ∈ procs then (state.proc other).activate else state.proc other := by
  funext other
  exact ssWakeup_proc state procs other

theorem step (seated : Seated state) {action : Action} (outcome : Outcome state action after) :
    Seated after := by
  have same_lists : ∀ slot msgq, state.ids.entries slot = some msgq →
      (msgq.qSender = [] ∧ msgq.qReceiver = []) ∨ ∃ old, state.ids.entries slot = some old ∧
        msgq.qSender = old.qSender ∧ msgq.qReceiver = old.qReceiver := by
    intro slot msgq live
    exact Or.inr ⟨msgq, live, rfl, rfl⟩
  cases outcome with
  | returned proc value pool idle kept =>
      exact seated.awake rfl (not_asleep idle id) id same_lists
  | created proc slot idle free =>
      apply seated.awake rfl (not_asleep idle id) id
      intro other msgq live
      rcases entries_update live with ⟨_, same⟩ | ⟨_, before⟩
      · cases same
        exact Or.inl ⟨rfl, rfl⟩
      · exact Or.inr ⟨msgq, before, rfl, rfl⟩
  | loaded proc call pool idle numbered taken =>
      exact seated.awake rfl (not_asleep idle id) nofun same_lists
  | refused proc call err located =>
      exact seated.awake rfl (not_asleep located nofun) id same_lists
  | slept proc call slot msgq located addressed live full =>
      exact seated.slept (not_asleep located nofun) (getMsgq_some addressed).1 live rfl rfl
  | queued proc call slot msgq located addressed live room nobody =>
      exact seated.awake rfl (not_asleep located nofun) id (lists_kept live rfl rfl rfl)
  | piped proc call slot msgq before later rcver located addressed live room waiting wanted fits =>
      have member : rcver ∈ msgq.qReceiver := by
        rw [waiting]
        exact List.mem_append_right _ List.mem_cons_self
      obtain ⟨receive, asleep, _⟩ := seated.receivers slot msgq live rcver member
      have different : rcver.proc ≠ proc := by
        intro same
        rw [same, located] at asleep
        cases asleep
      have procs : Function.update (Function.update state.proc proc .running) rcver.proc
          ((Function.update state.proc proc .running rcver.proc).assign
            (.message call.letter)).activate =
          Function.update (Function.update state.proc proc .running) rcver.proc
            (.receiving receive (.message call.letter) true) := by
        rw [Function.update_of_ne different, asleep]
        rfl
      exact seated.piped (not_asleep located nofun) live waiting procs rfl
  | taken proc slot msgq found pool value idle addressed live hit freed =>
      apply seated.woken msgq.qSender (not_asleep idle id)
      · change Function.update (ssWakeup _ _).proc proc .running = _
        rw [ssWakeup_procs]
        rfl
      intro other current live'
      change (ssWakeup _ msgq.qSender).ids.entries other = _ at live'
      rw [ssWakeup_ids] at live'
      rcases entries_update live' with ⟨rfl, same⟩ | ⟨elsewhere, before⟩
      · cases same
        refine ⟨msgq, live, List.nil_sublist _, List.Sublist.refl _, ?_, ?_⟩
        · intro sleeper member
          cases member
        · intro rcver member listed
          exact sender_ne_receiver (seated.senders other msgq live _ listed)
            (seated.receivers other msgq live rcver member) rfl
      · refine ⟨current, before, List.Sublist.refl _, List.Sublist.refl _, ?_, ?_⟩
        · intro sleeper member listed
          exact elsewhere (sender_slot (seated.senders other current before sleeper member)
            (seated.senders slot msgq live sleeper listed))
        · intro rcver member listed
          exact sender_ne_receiver (seated.senders slot msgq live _ listed)
            (seated.receivers other current before rcver member) rfl
  | waited proc slot msgq call idle addressed live nothing =>
      exact seated.waited (not_asleep idle id) (getMsgq_some addressed).1 live rfl rfl
  | resumed proc call letter pool value located freed =>
      exact seated.awake rfl (not_asleep located nofun) id same_lists
  | dismissed proc call located =>
      exact seated.awake rfl (not_asleep located nofun) id same_lists
  | removed proc slot msgq idle addressed live =>
      apply seated.woken (msgq.qReceiver.map Receiver.proc) (not_asleep idle id)
      · change Function.update (ssWakeup _ _).proc proc .running = _
        rw [ssWakeup_procs]
        rfl
      intro other current live'
      change (freeMsgq state slot msgq).1.ids.entries other = _ at live'
      rw [freeMsgq_entries] at live'
      rcases entries_update live' with ⟨_, impossible⟩ | ⟨elsewhere, before⟩
      · cases impossible
      · refine ⟨current, before, List.Sublist.refl _, List.Sublist.refl _, ?_, ?_⟩
        · intro sleeper member listed
          obtain ⟨rcver, waiting, same⟩ := List.mem_map.mp listed
          exact sender_ne_receiver (seated.senders other current before sleeper member)
            (seated.receivers slot msgq live rcver waiting) same.symm
        · intro rcver member listed
          obtain ⟨woken, waiting, same⟩ := List.mem_map.mp listed
          exact elsewhere (receiver_slot (seated.receivers other current before rcver member)
            (seated.receivers slot msgq live woken waiting) same.symm)

end Seated

end LabKernel.Ipc
