/-
Whole runs of the card with its contents.

However calls of `sdrw` overlap, the card goes through their transfers in the order the requests
were queued, and every call returns with what its transfer was answered there.
-/

import LabKernel.Driver.SdBlocks

set_option autoImplicit false

namespace LabKernel.Driver

open Common Rings Transition Serial SdSystem

variable {dev after : SdDevice} {start : UInt32 → Sector} {buffer : BufAddr} {proc : Tid}
  {call : Call}

/-- How many transfers the card has ended. -/
def SdDevice.ended (dev : SdDevice) : Nat :=
  dev.sys.completed + if dev.sys.card.interrupt = 0 then 0 else 1

/-- The transfers that have been called for, in the order of their requests. -/
def SdDevice.transfers (dev : SdDevice) : List Transfer := calls dev.history

/-- The lock of the queue is free, and the card has gone through the transfers up to some point. -/
structure Serialised (start : UInt32 → Sector) (dev : SdDevice) : Prop where
  settled : dev.sys.Settled
  counted : dev.transfers.length = dev.sys.requests.length
  queued : ∀ index buffer, dev.sys.completed ≤ index → dev.sys.requests[index]? = some buffer →
    dev.transfers[index]? = some (dev.sys.buf buffer).transfer ∧
      dev.sys.card.Reaches (dev.sys.buf buffer).blockno
  blocks : dev.blocks = blockStore.replay start (dev.transfers.take dev.ended)
  words : dev.sys.card.interrupt ≠ 0 → ∀ transfer,
    dev.transfers[dev.sys.completed]? = some transfer → transfer.write = false →
      dev.sys.card.data =
        blockStore.replay start (dev.transfers.take dev.sys.completed) transfer.blockno
  answered : ∀ proc call, (dev.sys.place proc).call = some call →
    call.ticket < dev.sys.completed →
      blockStore.answerAt start dev.transfers call.ticket = some (dev.sys.buf call.buffer).data
  explained : blockStore.Explains start dev.history
  running : ∀ proc call, (dev.sys.place proc).call = some call →
    ∀ result, .returned call.ticket result ∉ dev.history

namespace Serialised

theorem initial (buf : BufAddr → Buf) (links : Links BufAddr) (highCapacity : Bool)
    (data : Sector) (start : UInt32 → Sector) :
    Serialised start (SdDevice.initial buf links highCapacity data start) := by
  constructor
  · exact initial_settled buf links highCapacity data
  · rfl
  · intro index buffer _ found
    cases found
  · rfl
  · intro raised
    exact absurd rfl raised
  · intro proc call running
    cases running
  · exact History.Each.nil
  · intro proc call running
    cases running

/-- While there is an interrupt, the request in flight is not counted as done. -/
theorem ended_le (serialised : Serialised start dev) : dev.ended ≤ dev.transfers.length := by
  have settled := serialised.settled
  have counted := settled.counted
  rw [serialised.counted]
  unfold SdDevice.ended
  split
  · exact counted
  · rename_i raised
    have busy : dev.sys.pending ≠ [] := fun empty => raised (settled.quiet empty)
    have longer : 0 < dev.sys.pending.length := List.length_pos_iff.mpr busy
    unfold SdSystem.pending at longer
    rw [List.length_drop] at longer
    omega

/-- A step that makes no request and ends none, and leaves the buffers of running calls. -/
theorem frame (serialised : Serialised start dev) (after : SdDevice) (settled : after.sys.Settled)
    (transfers : after.transfers = dev.transfers) (requests : after.sys.requests = dev.sys.requests)
    (completed : after.sys.completed = dev.sys.completed) (card : after.sys.card = dev.sys.card)
    (blocks : after.blocks = dev.blocks)
    (calls : ∀ proc call, (after.sys.place proc).call = some call →
      (dev.sys.place proc).call = some call)
    (buf : ∀ proc call, (dev.sys.place proc).call = some call →
      (after.sys.buf call.buffer).transfer = (dev.sys.buf call.buffer).transfer)
    (explained : blockStore.Explains start after.history)
    (running : ∀ proc call, (after.sys.place proc).call = some call →
      ∀ result, .returned call.ticket result ∉ after.history) : Serialised start after := by
  have ended : after.ended = dev.ended := by
    unfold SdDevice.ended
    rw [completed, card]
  constructor
  · exact settled
  · rw [transfers, requests]
    exact serialised.counted
  · intro index buffer later found
    rw [completed] at later
    rw [requests] at found
    obtain ⟨transfer, reaches⟩ := serialised.queued index buffer later found
    have member : buffer ∈ dev.sys.pending := mem_pending.mpr ⟨index, later, found⟩
    obtain ⟨proc, call, owner, same⟩ := serialised.settled.pending_owner member
    have kept := buf proc call owner
    rw [same] at kept
    have number : (after.sys.buf buffer).blockno = (dev.sys.buf buffer).blockno :=
      congrArg Transfer.blockno kept
    rw [transfers, kept, card, number]
    exact ⟨transfer, reaches⟩
  · rw [blocks, transfers, ended]
    exact serialised.blocks
  · rw [card, transfers, completed]
    exact serialised.words
  · intro proc call also before
    rw [completed] at before
    have was := calls proc call also
    have data : (after.sys.buf call.buffer).data = (dev.sys.buf call.buffer).data :=
      congrArg Transfer.data (buf proc call was)
    rw [transfers, data]
    exact serialised.answered proc call was before
  · exact explained
  · exact running

/-! ### Steps of one process -/

theorem fill (serialised : Serialised start dev) (buf : Buf) (prev next : Option BufAddr)
    (unused : ∀ proc call, (dev.sys.place proc).call = some call → call.buffer ≠ buffer) :
    Serialised start { dev with sys := dev.sys.fill buffer buf prev next } := by
  apply serialised.frame { dev with sys := dev.sys.fill buffer buf prev next }
    (serialised.settled.fill buf prev next unused) rfl rfl rfl rfl rfl
  · exact fun _ _ => id
  · intro proc call running
    change Buf.transfer (Function.update dev.sys.buf buffer buf call.buffer) = _
    rw [Function.update_of_ne (unused proc call running)]
  · exact serialised.explained
  · exact serialised.running

theorem moved (serialised : Serialised start dev) {sys : SdSystem}
    (moves : Moves dev.sys sys proc call) (settled : sys.Settled)
    (calls : ∀ other call', (sys.place other).call = some call' →
      (dev.sys.place other).call = some call') : Serialised start { dev with sys := sys } := by
  apply serialised.frame { dev with sys := sys } settled rfl moves.requests moves.completed
    moves.card rfl calls
  · intro other call' _
    change (sys.buf call'.buffer).transfer = _
    by_cases same : call'.buffer = call.buffer
    · obtain ⟨sl, changed⟩ := moves.sl
      rw [same, changed]
      rfl
    · rw [moves.buf call'.buffer same]
  · exact serialised.explained
  · intro other call' also
    exact serialised.running other call' (calls other call' also)

theorem wait (serialised : Serialised start dev) {sys : SdSystem}
    (taken : dev.sys.wait proc = .ok sys) : Serialised start { dev with sys := sys } := by
  cases here : dev.sys.place proc with
  | waiting call =>
      obtain ⟨_, stepped, settled, -⟩ := serialised.settled.wait here
      rw [taken] at stepped
      cases stepped
      unfold SdSystem.wait at taken
      rw [here] at taken
      cases taken
      apply serialised.moved (waited_moves dev.sys proc call _) settled
      intro other call' also
      by_cases same : other = proc
      · subst same
        change (Function.update dev.sys.place other _ other).call = some call' at also
        rw [Function.update_self] at also
        rw [here]
        split at also
        · exact also
        · exact also
      · rw [(waited_moves dev.sys proc call _).place other same] at also
        exact also
  | out | asleep call | woken call =>
      unfold SdSystem.wait at taken
      rw [here] at taken
      cases taken

/-- A call returns, with the answer to its transfer in its buffer. -/
theorem recheck (serialised : Serialised start dev) (taken : dev.recheck proc = .ok after) :
    ∃ call, (dev.sys.place proc).call = some call ∧
      after.history = dev.history ++ [.returned call.ticket (dev.sys.buf call.buffer).data] ∧
      Serialised start after := by
  cases here : dev.sys.place proc with
  | woken call =>
      have own : (dev.sys.place proc).call = some call := by
        rw [here]
        rfl
      obtain ⟨before, -, stepped, settled⟩ := serialised.settled.recheck here
      have gone : (dev.sys.goto proc .out).place proc = .out := Function.update_self _ _ _
      have note : dev.note (dev.sys.goto proc .out) (dev.leaving (dev.sys.goto proc .out) proc) =
          dev.history ++ [.returned call.ticket (dev.sys.buf call.buffer).data] := by
        unfold SdDevice.leaving
        rw [gone]
        simp only [own]
        rfl
      unfold SdDevice.recheck at taken
      rw [stepped] at taken
      simp only [note] at taken
      cases taken
      refine ⟨call, rfl, rfl, ?_⟩
      have calls : ∀ other call', ((dev.sys.goto proc .out).place other).call = some call' →
          other ≠ proc ∧ (dev.sys.place other).call = some call' := by
        intro other call' also
        by_cases same : other = proc
        · rw [same, gone] at also
          cases also
        · refine ⟨same, ?_⟩
          change (Function.update dev.sys.place proc _ other).call = some call' at also
          rw [Function.update_of_ne same] at also
          exact also
      apply serialised.frame
        { dev with
          sys := dev.sys.goto proc .out
          history := dev.history ++ [.returned call.ticket (dev.sys.buf call.buffer).data] }
        settled (calls_returned _ _ _) rfl rfl rfl rfl
      · exact fun other call' also => (calls other call' also).2
      · exact fun _ _ _ => rfl
      · exact serialised.explained.returned (serialised.answered proc call own before)
          (serialised.running proc call own)
      · intro other call' also result member
        obtain ⟨different, was⟩ := calls other call' also
        rcases List.mem_append.mp member with old | new
        · exact serialised.running other call' was result old
        · obtain ⟨ticket, -⟩ := Event.returned.inj (List.mem_singleton.mp new)
          have first := (serialised.settled.calls proc call own).1
          have second := (serialised.settled.calls other call' was).1
          rw [ticket, first] at second
          exact different (serialised.settled.apart other proc call' call was own
            (Option.some.inj second).symm)
  | out | waiting call | asleep call =>
      unfold SdDevice.recheck SdSystem.recheck at taken
      rw [here] at taken
      cases taken

end Serialised

/-! ### Queueing a request -/

/-- What `sdrw` does to what does not concern the queue. -/
structure Queues (sys after : SdSystem) (proc : Tid) (buffer : BufAddr) : Prop where
  settled : after.Settled
  requests : after.requests = sys.requests ++ [buffer]
  completed : after.completed = sys.completed
  interrupt : after.card.interrupt = sys.card.interrupt
  data : after.card.data = sys.card.data
  capacity : after.card.highCapacity = sys.card.highCapacity
  others : ∀ other, other ≠ buffer → after.buf other = sys.buf other
  own : (after.buf buffer).transfer = (sys.buf buffer).transfer
  unused : ∀ other call, (sys.place other).call = some call → call.buffer ≠ buffer
  calls : ∀ other call, (after.place other).call = some call →
    (sys.place other).call = some call ∨ call = { buffer := buffer, ticket := sys.requests.length }

theorem submitted_data (sys : SdSystem) (queue : Links BufAddr × Queue BufAddr)
    (buffer : BufAddr) : (sys.submitted queue buffer).card.data = sys.card.data := by
  unfold submitted
  split
  · rfl
  · rfl

theorem sdrw_queues {sys after : SdSystem} (settled : sys.Settled)
    (allowed : sdGuard sys (.sdrw proc buffer)) (taken : sys.sdrw proc buffer = .ok after) :
    Queues sys after proc buffer := by
  obtain ⟨invalid, fresh⟩ := allowed
  cases here : sys.place proc with
  | out =>
      obtain ⟨_, stepped, kept, -⟩ := settled.sdrw here invalid fresh
      rw [taken] at stepped
      cases stepped
      obtain ⟨queue, -, stepped⟩ := settled.sdrw_eq here invalid fresh
      rw [taken] at stepped
      cases stepped
      obtain ⟨buf, place, requests, completed, -, -, capacity⟩ := submitted_frame sys queue buffer
      obtain ⟨-, interrupt, -⟩ := submitted_card sys queue buffer settled
      constructor
      · exact kept
      · exact requests
      · exact completed
      · exact interrupt
      · exact submitted_data sys queue buffer
      · exact capacity
      · intro other different
        rw [← buf]
        exact Function.update_of_ne different _ _
      · change Buf.transfer (Function.update (sys.submitted queue buffer).buf buffer _ buffer) = _
        rw [Function.update_self, buf]
        rfl
      · intro other call running same
        rcases settled.running_buffer running with member | valid
        · exact fresh (same ▸ member)
        · exact invalid (same ▸ valid)
      · intro other call running
        change (Function.update (sys.submitted queue buffer).place proc _ other).call = _ at running
        by_cases same : other = proc
        · subst same
          rw [Function.update_self] at running
          exact Or.inr (Option.some.inj running).symm
        · rw [Function.update_of_ne same, place] at running
          exact Or.inl running
  | waiting call | asleep call | woken call =>
      unfold SdSystem.sdrw at taken
      rw [here] at taken
      cases taken

namespace Serialised

theorem sdrw (serialised : Serialised start dev) (allowed : deviceGuard dev (.sdrw proc buffer))
    (taken : dev.sdrw proc buffer = .ok after) : Serialised start after := by
  obtain ⟨permitted, reaches⟩ := allowed
  unfold SdDevice.sdrw at taken
  split at taken
  · cases taken
  rename_i sys stepped
  cases taken
  have queues := sdrw_queues serialised.settled permitted stepped
  generalize stateEq : ({ dev with
    sys := sys
    history := dev.history ++ [.called (dev.sys.buf buffer).transfer] } : SdDevice) = after
  have system : after.sys = sys := by rw [← stateEq]
  have transfers : after.transfers = dev.transfers ++ [(dev.sys.buf buffer).transfer] := by
    rw [← stateEq]
    exact calls_called _ _
  have length := serialised.counted
  have within := serialised.settled.counted
  have ended : after.ended = dev.ended := by
    unfold SdDevice.ended
    rw [system, queues.completed, queues.interrupt]
  constructor
  · rw [system]
    exact queues.settled
  · rw [transfers, system, queues.requests, List.length_append, List.length_append, length]
    rfl
  · intro index other later found
    rw [system, queues.completed] at later
    rw [system, queues.requests] at found
    have reach : ∀ blockno, after.sys.card.Reaches blockno ↔ dev.sys.card.Reaches blockno := by
      intro blockno
      unfold Card.Reaches
      rw [system, queues.capacity]
    rw [transfers, reach, system]
    by_cases old : index < dev.sys.requests.length
    · rw [List.getElem?_append_left old] at found
      have member : other ∈ dev.sys.pending := mem_pending.mpr ⟨index, later, found⟩
      rw [queues.others other (fun same => permitted.2 (same ▸ member)),
        List.getElem?_append_left (by omega)]
      exact serialised.queued index other later found
    · have last : index = dev.sys.requests.length := by
        have bound := (List.getElem?_eq_some_iff.mp found).1
        rw [List.length_append, List.length_singleton] at bound
        omega
      subst last
      rw [List.getElem?_concat_length] at found
      cases found
      have number : (sys.buf buffer).blockno = (dev.sys.buf buffer).blockno :=
        congrArg Transfer.blockno queues.own
      rw [queues.own, number, ← length, List.getElem?_concat_length]
      exact ⟨rfl, reaches⟩
  · rw [transfers, ended, List.take_append_of_le_length serialised.ended_le, ← stateEq]
    exact serialised.blocks
  · intro raised transfer found read
    rw [system, queues.interrupt] at raised
    have bound := serialised.ended_le
    unfold SdDevice.ended at bound
    rw [if_neg raised] at bound
    rw [transfers, system, queues.completed, List.getElem?_append_left (by omega)] at found
    rw [transfers, system, queues.completed, queues.data,
      List.take_append_of_le_length (by omega)]
    exact serialised.words raised transfer found read
  · intro other call running before
    rw [system] at running
    rw [system, queues.completed] at before
    rw [transfers, system]
    rcases queues.calls other call running with was | new
    · rw [Object.answerAt_append (by omega), queues.others _ (queues.unused other call was)]
      exact serialised.answered other call was before
    · rw [new] at before
      exact absurd within (Nat.not_le.mpr before)
  · rw [← stateEq]
    exact serialised.explained.called _
  · intro other call running result member
    rw [system] at running
    rw [← stateEq] at member
    rcases List.mem_append.mp member with old | impossible
    · rcases queues.calls other call running with was | new
      · exact serialised.running other call was result old
      · have answer := Object.lt_of_answerAt (serialised.explained.answer old)
        rw [new] at answer
        change dev.sys.requests.length < dev.transfers.length at answer
        omega
    · cases List.mem_singleton.mp impossible

end Serialised

/-! ### The card -/

theorem Serialised.oldest (serialised : Serialised start dev) {rest : List BufAddr}
    (listed : dev.sys.pending = buffer :: rest) :
    dev.sys.requests[dev.sys.completed]? = some buffer ∧
      dev.transfers[dev.sys.completed]? = some (dev.sys.buf buffer).transfer ∧
      dev.sys.card.Reaches (dev.sys.buf buffer).blockno := by
  have found : dev.sys.requests[dev.sys.completed]? = some buffer := by
    have first : dev.sys.pending[0]? = some buffer := by
      rw [listed]
      rfl
    unfold SdSystem.pending at first
    rw [List.getElem?_drop] at first
    exact first
  exact ⟨found, serialised.queued dev.sys.completed buffer (Nat.le_refl _) found⟩

theorem Serialised.complete (serialised : Serialised start dev)
    (taken : dev.complete = .ok after) : Serialised start after := by
  unfold SdDevice.complete at taken
  split at taken
  · cases taken
  rename_i request busy
  split at taken
  · cases taken
  rename_i raised stepped
  cases taken
  have quiet : dev.sys.card.interrupt = 0 := by
    unfold SdSystem.raise at stepped
    rw [busy] at stepped
    simp only at stepped
    split at stepped
    · cases stepped
    · rename_i none
      exact not_not.mp none
  obtain ⟨_, again, settled, raisedUp, -⟩ :=
    serialised.settled.raise (dev.yields request) busy quiet
  rw [stepped] at again
  cases again
  unfold SdSystem.raise at stepped
  rw [busy] at stepped
  simp only at stepped
  rw [if_neg (not_not.mpr quiet)] at stepped
  have inFlight := serialised.settled.card
  rw [busy] at inFlight
  cases listed : dev.sys.pending with
  | nil =>
      rw [listed] at inFlight
      cases inFlight
  | cons buffer rest =>
      rw [listed] at inFlight
      have asked : request = dev.sys.card.request buffer (dev.sys.buf buffer) :=
        Option.some.inj inFlight
      obtain ⟨found, transfer, reaches⟩ := serialised.oldest listed
      have before : dev.ended = dev.sys.completed := by
        unfold SdDevice.ended
        rw [if_pos quiet]
        rfl
      have blocks := serialised.blocks
      rw [before] at blocks
      have later : SdDevice.ended { dev with sys := raised, blocks := dev.stored request } =
          raised.completed + 1 := by
        unfold SdDevice.ended
        rw [if_neg raisedUp]
      have data : raised.card.data = dev.yields request := by
        cases stepped
        rfl
      have frame : raised.requests = dev.sys.requests ∧ raised.completed = dev.sys.completed ∧
          raised.buf = dev.sys.buf ∧ raised.place = dev.sys.place ∧
          raised.card.highCapacity = dev.sys.card.highCapacity := by
        cases stepped
        exact ⟨rfl, rfl, rfl, rfl, rfl⟩
      obtain ⟨requests, completed, buf, place, capacity⟩ := frame
      have reach : ∀ blockno, raised.card.Reaches blockno ↔ dev.sys.card.Reaches blockno := by
        intro blockno
        unfold Card.Reaches
        rw [capacity]
      constructor
      · exact settled
      · change dev.transfers.length = raised.requests.length
        rw [requests]
        exact serialised.counted
      · change ∀ index other, raised.completed ≤ index → raised.requests[index]? = some other →
          dev.transfers[index]? = some (raised.buf other).transfer ∧
            raised.card.Reaches (raised.buf other).blockno
        rw [requests, completed, buf]
        intro index other late queued
        rw [reach]
        exact serialised.queued index other late queued
      · rw [later, completed]
        change dev.stored request =
          blockStore.replay start (dev.transfers.take (dev.sys.completed + 1))
        rw [asked, SdDevice.stored_request reaches, Object.replay_take_succ transfer, blocks]
      · intro _ other same read
        change raised.card.data =
          blockStore.replay start (dev.transfers.take raised.completed) other.blockno
        change dev.transfers[raised.completed]? = some other at same
        rw [completed, transfer] at same
        cases same
        rw [data, completed, asked, SdDevice.yields_request reaches read, blocks]
        rfl
      · change ∀ proc call, (raised.place proc).call = some call →
          call.ticket < raised.completed → _ = some (raised.buf call.buffer).data
        rw [place, completed, buf]
        exact serialised.answered
      · exact serialised.explained
      · change ∀ proc call, (raised.place proc).call = some call → _
        rw [place]
        exact serialised.running

/-! ### The interrupt handler -/

theorem post_data {sys after : SdSystem} (posted : sys.post buffer = .ok after) :
    after.card = sys.card ∧ ∀ other, (after.buf other).data = (sys.buf other).data := by
  have woken : ∀ (state : SdSystem) (proc : Option Tid), (state.wake proc).card = state.card ∧
      (state.wake proc).buf = state.buf := by
    intro state proc
    cases proc with
    | none => exact ⟨rfl, rfl⟩
    | some proc =>
        unfold wake
        split
        · rename_i impossible
          cases impossible
        · rename_i own
          split
          · exact ⟨rfl, rfl⟩
          · exact ⟨rfl, rfl⟩
  unfold post at posted
  simp only at posted
  split at posted
  · cases posted
  · cases posted
    rw [(woken _ _).1, (woken _ _).2]
    refine ⟨rfl, ?_⟩
    intro other
    by_cases same : other = buffer
    · rw [same, setBuf_self]
    · change (Function.update sys.buf buffer _ other).data = _
      rw [Function.update_of_ne same]

/-- The handler gives the oldest buffer the data of the card, if it is for a read. -/
theorem sdIntr_data {sys after : SdSystem} {rest : List BufAddr} (settled : sys.Settled)
    (listed : sys.pending = buffer :: rest) (raised : sys.card.interrupt ≠ 0)
    (taken : sys.sdIntr = .ok after) :
    after.card.interrupt = 0 ∧ after.card.highCapacity = sys.card.highCapacity ∧
      (∀ other, other ≠ buffer → after.buf other = sys.buf other) ∧
      (after.buf buffer).data =
        if (sys.buf buffer).isWrite then (sys.buf buffer).data else sys.card.data := by
  have found : sys.requests[sys.completed]? = some buffer := by
    have first : sys.pending[0]? = some buffer := by
      rw [listed]
      rfl
    unfold SdSystem.pending at first
    rw [List.getElem?_drop] at first
    exact first
  obtain ⟨proc, attends⟩ := settled.owner sys.completed buffer (Nat.le_refl _) found
  obtain ⟨posted, step, handled⟩ := post_spec attends
  have holds : posted.sdque.Holds posted.links (buffer :: rest) := by
    rw [handled.sdque, handled.links, ← listed]
    exact settled.queue
  obtain ⟨queue, popped, -⟩ := popHead_eq holds handled.quiet handled.idle
  rw [settled.sdIntr_eq listed raised] at taken
  simp only [step] at taken
  rw [popped] at taken
  cases taken
  refine ⟨handled.quiet, handled.capacity, handled.buf, ?_⟩
  change (posted.buf buffer).data = _
  rw [(post_data step).2]
  change Buf.data (Function.update sys.buf buffer _ buffer) = _
  rw [Function.update_self]
  rfl

theorem Serialised.sdIntr (serialised : Serialised start dev) {sys : SdSystem}
    (allowed : sdGuard dev.sys .sdIntr) (taken : dev.sys.sdIntr = .ok sys) :
    Serialised start { dev with sys := sys } := by
  cases listed : dev.sys.pending with
  | nil =>
      unfold SdSystem.sdIntr at taken
      rw [if_pos (serialised.settled.queue.empty_iff.mpr listed)] at taken
      cases taken
      exact serialised
  | cons buffer rest =>
      have busy : queueEmpty dev.sys.sdque = false := by
        rw [Bool.eq_false_iff]
        intro empty
        rw [serialised.settled.queue.empty_iff.mp empty] at listed
        cases listed
      have raised := allowed busy
      obtain ⟨_, stepped, settled, requests, completed, calls⟩ :=
        serialised.settled.sdIntr listed raised
      rw [taken] at stepped
      cases stepped
      obtain ⟨quiet, capacity, others, own⟩ := sdIntr_data serialised.settled listed raised taken
      obtain ⟨found, transfer, -⟩ := serialised.oldest listed
      have ended : SdDevice.ended { dev with sys := sys } = dev.ended := by
        unfold SdDevice.ended
        rw [if_pos quiet, if_neg raised, completed]
      have answer : blockStore.answerAt start dev.transfers dev.sys.completed =
          some (sys.buf buffer).data := by
        rw [Object.answerAt_eq transfer, own]
        unfold blockStore Buf.transfer
        cases kind : (dev.sys.buf buffer).isWrite with
        | true => rfl
        | false =>
            simp only [Bool.false_eq_true, if_false]
            rw [serialised.words raised _ transfer kind]
            rfl
      constructor
      · exact settled
      · change dev.transfers.length = sys.requests.length
        rw [requests]
        exact serialised.counted
      · change ∀ index other, sys.completed ≤ index → sys.requests[index]? = some other →
          dev.transfers[index]? = some (sys.buf other).transfer ∧
            sys.card.Reaches (sys.buf other).blockno
        rw [requests, completed]
        intro index other late queued
        have member : other ∈ rest := by
          have left : sys.pending = rest := by
            unfold SdSystem.pending at listed ⊢
            rw [requests, completed, ← List.tail_drop, listed]
            rfl
          rw [← left]
          apply mem_pending.mpr
          rw [requests, completed]
          exact ⟨index, late, queued⟩
        have distinct := serialised.settled.queue.nodup
        rw [listed] at distinct
        have different : other ≠ buffer := by
          intro same
          exact (List.nodup_cons.mp distinct).1 (same ▸ member)
        have reach : ∀ blockno, sys.card.Reaches blockno ↔ dev.sys.card.Reaches blockno := by
          intro blockno
          unfold Card.Reaches
          rw [capacity]
        rw [others other different, reach]
        exact serialised.queued index other (Nat.le_of_succ_le late) queued
      · rw [ended]
        exact serialised.blocks
      · intro impossible
        exact absurd quiet impossible
      · change ∀ proc call, (sys.place proc).call = some call → call.ticket < sys.completed →
          blockStore.answerAt start dev.transfers call.ticket = some (sys.buf call.buffer).data
        rw [completed]
        intro proc call also before
        rw [calls proc] at also
        obtain ⟨queued, -⟩ := serialised.settled.calls proc call also
        by_cases last : call.ticket = dev.sys.completed
        · rw [last, found] at queued
          rw [last, ← Option.some.inj queued]
          exact answer
        · have different : call.buffer ≠ buffer := by
            intro same
            obtain ⟨owner, attends⟩ :=
              serialised.settled.owner dev.sys.completed buffer (Nat.le_refl _) found
            have equal := serialised.settled.apart proc owner _ _ also attends.call_eq same
            rw [equal, attends.call_eq] at also
            exact last (congrArg Call.ticket (Option.some.inj also)).symm
          rw [others _ different]
          exact serialised.answered proc call also (by omega)
      · exact serialised.explained
      · change ∀ proc call, (sys.place proc).call = some call → _
        intro proc call also
        rw [calls proc] at also
        exact serialised.running proc call also

end LabKernel.Driver
