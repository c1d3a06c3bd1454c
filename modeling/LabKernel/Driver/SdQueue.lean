/-
Requests at the card are the front of the queue, and completions reach their callers.

The request in flight is the oldest one that is queued, whenever the lock is free. A caller sleeps
only while its request is queued; the handler posts to its buffer before it takes it off.
-/

import LabKernel.Driver.Sd

set_option autoImplicit false

namespace LabKernel.Driver

open Common Rings Transition

namespace SdSystem

variable {sys after : SdSystem} {proc : Tid} {call : Call} {buffer : BufAddr}

@[simp]
theorem setBuf_self (sys : SdSystem) (buffer : BufAddr) (buf : Buf) :
    (sys.setBuf buffer buf).buf buffer = buf := Function.update_self _ _ _

/-- The process has not been posted to: it is about to wait, or it sleeps. -/
def Attends (sys : SdSystem) (proc : Tid) (call : Call) : Prop :=
  (sys.place proc = .waiting call ∧ (sys.buf call.buffer).sl = { val := 0, sleeplist := [] }) ∨
    (sys.place proc = .asleep call ∧
      (sys.buf call.buffer).sl = { val := -1, sleeplist := [proc] })

/-- The process has been posted to: its wait returns, or has returned. -/
def Released (sys : SdSystem) (proc : Tid) (call : Call) : Prop :=
  (sys.buf call.buffer).flags = bValid ∧
    ((sys.place proc = .waiting call ∧
        (sys.buf call.buffer).sl = { val := 1, sleeplist := [] }) ∨
      sys.place proc = .woken call)

theorem Attends.call_eq (attends : sys.Attends proc call) : (sys.place proc).call = some call := by
  rcases attends with ⟨here, _⟩ | ⟨here, _⟩
  · rw [here]
    rfl
  · rw [here]
    rfl

theorem Released.call_eq (released : sys.Released proc call) :
    (sys.place proc).call = some call := by
  rcases released.2 with ⟨here, _⟩ | here
  · rw [here]
    rfl
  · rw [here]
    rfl

theorem Attends.frame (attends : sys.Attends proc call)
    (place : after.place proc = sys.place proc)
    (buf : after.buf call.buffer = sys.buf call.buffer) : after.Attends proc call := by
  unfold Attends
  rw [place, buf]
  exact attends

theorem Released.frame (released : sys.Released proc call)
    (place : after.place proc = sys.place proc)
    (buf : after.buf call.buffer = sys.buf call.buffer) : after.Released proc call := by
  unfold Released
  rw [place, buf]
  exact released

def serve (sys : SdSystem) (front : Option BufAddr) : Option Request :=
  front.map (fun buffer => sys.card.request buffer (sys.buf buffer))

/-- A request does not depend on the semaphore of its buffer. -/
theorem serve_congr (capacity : after.card.highCapacity = sys.card.highCapacity)
    (same : ∀ buffer, ∃ sl, after.buf buffer = { sys.buf buffer with sl := sl })
    (front : Option BufAddr) : after.serve front = sys.serve front := by
  unfold serve
  congr 1
  funext buffer
  obtain ⟨sl, changed⟩ := same buffer
  unfold Card.request
  rw [changed, capacity]
  rfl

/-- What the card has seen of the requests that are done. -/
def served (buffers : List BufAddr) : List CardEvent :=
  buffers.flatMap (fun buffer => [.started buffer, .finished buffer])

def completion (request : Request) : UInt32 := if request.write then intDataDone else intReadRdy

/-- The lock of the queue is free. -/
structure Settled (sys : SdSystem) : Prop where
  queue : sys.sdque.Holds sys.links sys.pending
  counted : sys.completed ≤ sys.requests.length
  card : sys.card.inFlight = sys.serve sys.pending.head?
  interrupt : sys.card.interrupt ≠ 0 →
    ∃ request, sys.card.inFlight = some request ∧ sys.card.interrupt = completion request
  log : sys.log = served (sys.requests.take sys.completed) ++
    sys.pending.head?.toList.map .started
  flags : ∀ buffer ∈ sys.pending, (sys.buf buffer).flags ≠ bValid
  owner : ∀ index buffer, sys.completed ≤ index → sys.requests[index]? = some buffer →
    ∃ proc, sys.Attends proc { buffer := buffer, ticket := index }
  calls : ∀ proc call, (sys.place proc).call = some call →
    sys.requests[call.ticket]? = some call.buffer ∧
      (call.ticket < sys.completed → sys.Released proc call)
  apart : ∀ proc other call call', (sys.place proc).call = some call →
    (sys.place other).call = some call' → call.buffer = call'.buffer → proc = other

theorem mem_pending :
    buffer ∈ sys.pending ↔ ∃ index, sys.completed ≤ index ∧ sys.requests[index]? = some buffer := by
  unfold pending
  rw [List.mem_iff_getElem?]
  constructor
  · rintro ⟨index, found⟩
    rw [List.getElem?_drop] at found
    exact ⟨sys.completed + index, Nat.le_add_right _ _, found⟩
  · rintro ⟨index, later, found⟩
    refine ⟨index - sys.completed, ?_⟩
    rw [List.getElem?_drop, Nat.add_sub_cancel' later]
    exact found

namespace Settled

theorem pending_owner (settled : sys.Settled) (member : buffer ∈ sys.pending) :
    ∃ proc call, (sys.place proc).call = some call ∧ call.buffer = buffer := by
  obtain ⟨index, later, found⟩ := mem_pending.mp member
  obtain ⟨proc, attends⟩ := settled.owner index buffer later found
  exact ⟨proc, _, attends.call_eq, rfl⟩

theorem attends (settled : sys.Settled) (running : (sys.place proc).call = some call)
    (undone : sys.completed ≤ call.ticket) : sys.Attends proc call := by
  obtain ⟨queued, _⟩ := settled.calls proc call running
  obtain ⟨other, attends⟩ := settled.owner call.ticket call.buffer undone queued
  have same : proc = other := settled.apart proc other _ _ running attends.call_eq rfl
  rw [same]
  exact attends

theorem running_buffer (settled : sys.Settled) (running : (sys.place proc).call = some call) :
    call.buffer ∈ sys.pending ∨ (sys.buf call.buffer).flags = bValid := by
  obtain ⟨queued, done⟩ := settled.calls proc call running
  by_cases before : call.ticket < sys.completed
  · exact Or.inr (done before).1
  · exact Or.inl (mem_pending.mpr ⟨call.ticket, Nat.le_of_not_lt before, queued⟩)

theorem quiet (settled : sys.Settled) (empty : sys.pending = []) : sys.card.interrupt = 0 := by
  apply Classical.byContradiction
  intro raised
  obtain ⟨request, busy, _⟩ := settled.interrupt raised
  rw [settled.card, empty] at busy
  cases busy

end Settled

theorem initial_settled (buf : BufAddr → Buf) (links : Links BufAddr) (highCapacity : Bool)
    (data : Sector) : (SdSystem.initial buf links highCapacity data).Settled := by
  constructor
  · exact queueInit_holds links
  · exact Nat.le_refl 0
  · rfl
  · intro raised
    exact absurd rfl raised
  · rfl
  · intro buffer member
    cases member
  · intro index buffer _ found
    cases found
  · intro proc call running
    cases running
  · intro proc other call call' running
    cases running

/-! ### Steps of one process -/

/-- One process moves on within its call, and changes nothing but the semaphore of its buffer. -/
structure Moves (sys after : SdSystem) (proc : Tid) (call : Call) : Prop where
  requests : after.requests = sys.requests
  completed : after.completed = sys.completed
  links : after.links = sys.links
  sdque : after.sdque = sys.sdque
  card : after.card = sys.card
  log : after.log = sys.log
  buf : ∀ buffer, buffer ≠ call.buffer → after.buf buffer = sys.buf buffer
  sl : ∃ sl, after.buf call.buffer = { sys.buf call.buffer with sl := sl }
  place : ∀ other, other ≠ proc → after.place other = sys.place other

theorem Moves.pending (moves : Moves sys after proc call) : after.pending = sys.pending := by
  unfold SdSystem.pending
  rw [moves.requests, moves.completed]

theorem Moves.flags (moves : Moves sys after proc call) (buffer : BufAddr) :
    (after.buf buffer).flags = (sys.buf buffer).flags := by
  by_cases same : buffer = call.buffer
  · obtain ⟨sl, changed⟩ := moves.sl
    rw [same, changed]
  · rw [moves.buf buffer same]

theorem Moves.serve (moves : Moves sys after proc call) (front : Option BufAddr) :
    after.serve front = sys.serve front := by
  apply serve_congr
  · rw [moves.card]
  · intro buffer
    by_cases same : buffer = call.buffer
    · rw [same]
      exact moves.sl
    · exact ⟨(sys.buf buffer).sl, moves.buf buffer same⟩

/-- Such a step leaves what concerns the queue and the other processes. -/
theorem Settled.move (settled : sys.Settled) (moves : Moves sys after proc call)
    (running : (sys.place proc).call = some call)
    (undone : sys.completed ≤ call.ticket → after.Attends proc call)
    (done : ∀ call', (after.place proc).call = some call' →
      call' = call ∧ (call.ticket < sys.completed → after.Released proc call)) :
    after.Settled := by
  have beside : ∀ other call', other ≠ proc → (sys.place other).call = some call' →
      after.buf call'.buffer = sys.buf call'.buffer := by
    intro other call' different also
    apply moves.buf
    intro same
    exact different (settled.apart other proc call' call also running same)
  constructor
  · rw [moves.sdque, moves.links, moves.pending]
    exact settled.queue
  · rw [moves.completed, moves.requests]
    exact settled.counted
  · rw [moves.card, moves.pending, moves.serve]
    exact settled.card
  · rw [moves.card]
    exact settled.interrupt
  · rw [moves.log, moves.requests, moves.completed, moves.pending]
    exact settled.log
  · intro buffer member
    rw [moves.pending] at member
    rw [moves.flags]
    exact settled.flags buffer member
  · intro index buffer later found
    rw [moves.completed] at later
    rw [moves.requests] at found
    obtain ⟨other, attends⟩ := settled.owner index buffer later found
    by_cases same : other = proc
    · rw [same] at attends
      have own : call = { buffer := buffer, ticket := index } :=
        Option.some.inj (running.symm.trans attends.call_eq)
      rw [own] at undone
      exact ⟨proc, undone later⟩
    · exact ⟨other, attends.frame (moves.place other same) (beside other _ same attends.call_eq)⟩
  · intro other call' also
    rw [moves.requests, moves.completed]
    by_cases same : other = proc
    · rw [same] at also ⊢
      obtain ⟨own, released⟩ := done call' also
      rw [own]
      exact ⟨(settled.calls proc call running).1, released⟩
    · rw [moves.place other same] at also
      obtain ⟨queued, released⟩ := settled.calls other call' also
      refine ⟨queued, ?_⟩
      intro before
      exact (released before).frame (moves.place other same) (beside other call' same also)
  · have before : ∀ other call', (after.place other).call = some call' →
        (sys.place other).call = some call' := by
      intro other call' also
      by_cases same : other = proc
      · rw [same] at also ⊢
        rw [(done call' also).1]
        exact running
      · rw [moves.place other same] at also
        exact also
    intro first second call' call'' one two same
    exact settled.apart first second call' call'' (before first call' one)
      (before second call'' two) same

theorem waited_moves (sys : SdSystem) (proc : Tid) (call : Call) (result : Bool × Semaphore) :
    Moves sys (sys.waited proc call result) proc call := by
  constructor
  · rfl
  · rfl
  · rfl
  · rfl
  · rfl
  · rfl
  · intro buffer different
    exact Function.update_of_ne different _ _
  · exact ⟨result.2, Function.update_self _ _ _⟩
  · intro other different
    exact Function.update_of_ne different _ _

theorem Settled.wait (settled : sys.Settled) (here : sys.place proc = .waiting call) :
    ∃ after, sys.wait proc = .ok after ∧ after.Settled ∧ after.completed = sys.completed ∧
      (call.ticket < sys.completed → after.place proc = .woken call) := by
  have running : (sys.place proc).call = some call := by
    rw [here]
    rfl
  have stepped : sys.wait proc =
      .ok (sys.waited proc call (waitSem proc (sys.buf call.buffer).sl)) := by
    unfold SdSystem.wait
    rw [here]
  have moves := waited_moves sys proc call (waitSem proc (sys.buf call.buffer).sl)
  refine ⟨_, stepped, ?_⟩
  by_cases before : call.ticket < sys.completed
  · obtain ⟨valid, released⟩ := (settled.calls proc call running).2 before
    rcases released with ⟨_, semaphore⟩ | woken
    · have up : waitSem proc (sys.buf call.buffer).sl = (true, { val := 0, sleeplist := [] }) := by
        rw [semaphore]
        rfl
      rw [up] at moves ⊢
      have place : (sys.waited proc call (true, { val := 0, sleeplist := [] })).place proc =
          .woken call := Function.update_self _ _ _
      refine ⟨?_, rfl, fun _ => place⟩
      apply settled.move moves running
      · intro undone
        exact absurd before (Nat.not_lt.mpr undone)
      · intro call' also
        rw [place] at also
        refine ⟨(Option.some.inj also).symm, fun _ => ⟨?_, Or.inr place⟩⟩
        rw [moves.flags]
        exact valid
    · rw [here] at woken
      cases woken
  · rcases settled.attends running (Nat.le_of_not_lt before) with ⟨_, semaphore⟩ | ⟨asleep, _⟩
    · have down : waitSem proc (sys.buf call.buffer).sl =
          (false, { val := -1, sleeplist := [proc] }) := by
        rw [semaphore]
        rfl
      rw [down] at moves ⊢
      have place : (sys.waited proc call (false, { val := -1, sleeplist := [proc] })).place proc =
          .asleep call := Function.update_self _ _ _
      refine ⟨?_, rfl, fun early => absurd early before⟩
      apply settled.move moves running
      · intro _
        refine Or.inr ⟨place, ?_⟩
        change (Function.update sys.buf call.buffer _ call.buffer).sl = _
        rw [Function.update_self]
      · intro call' also
        rw [place] at also
        exact ⟨(Option.some.inj also).symm, fun early => absurd early before⟩
    · rw [here] at asleep
      cases asleep

theorem Settled.recheck (settled : sys.Settled) (here : sys.place proc = .woken call) :
    call.ticket < sys.completed ∧ (sys.buf call.buffer).flags = bValid ∧
      sys.recheck proc = .ok (sys.goto proc .out) ∧ (sys.goto proc .out).Settled := by
  have running : (sys.place proc).call = some call := by
    rw [here]
    rfl
  have before : call.ticket < sys.completed := by
    apply Nat.lt_of_not_le
    intro undone
    rcases settled.attends running undone with ⟨waiting, _⟩ | ⟨asleep, _⟩
    · rw [here] at waiting
      cases waiting
    · rw [here] at asleep
      cases asleep
  have valid := ((settled.calls proc call running).2 before).1
  refine ⟨before, valid, ?_, ?_⟩
  · unfold SdSystem.recheck SdSystem.check
    rw [here]
    simp only [valid, if_true]
  · have place : ∀ other, other ≠ proc → (sys.goto proc .out).place other = sys.place other :=
      fun other different => Function.update_of_ne different _ _
    have gone : (sys.goto proc .out).place proc = .out := Function.update_self _ _ _
    have still : ∀ other call', ((sys.goto proc .out).place other).call = some call' →
        other ≠ proc ∧ (sys.place other).call = some call' := by
      intro other call' also
      by_cases same : other = proc
      · rw [same, gone] at also
        cases also
      · rw [place other same] at also
        exact ⟨same, also⟩
    constructor
    · exact settled.queue
    · exact settled.counted
    · exact settled.card
    · exact settled.interrupt
    · exact settled.log
    · exact settled.flags
    · intro index buffer later found
      obtain ⟨other, attends⟩ := settled.owner index buffer later found
      have different : other ≠ proc := by
        intro same
        rw [same] at attends
        have own := attends.call_eq
        rw [running] at own
        cases own
        exact absurd before (Nat.not_lt.mpr later)
      exact ⟨other, attends.frame (place other different) rfl⟩
    · intro other call' also
      obtain ⟨different, was⟩ := still other call' also
      obtain ⟨queued, released⟩ := settled.calls other call' was
      exact ⟨queued, fun early => (released early).frame (place other different) rfl⟩
    · intro first second call' call'' one two same
      exact settled.apart first second call' call'' (still first call' one).2
        (still second call'' two).2 same

end SdSystem

end LabKernel.Driver
