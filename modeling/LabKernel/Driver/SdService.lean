/-
New requests and interrupts.

A request that is queued goes to the card at once when there is no other; the handler finishes the
oldest one, posts to its caller and starts the next one.
-/

import LabKernel.Driver.SdQueue

set_option autoImplicit false

namespace LabKernel.Driver

open Common Rings Transition

namespace SdSystem

variable {sys after : SdSystem} {proc : Tid} {call : Call} {buffer : BufAddr}

theorem served_snoc (buffers : List BufAddr) (buffer : BufAddr) :
    served (buffers ++ [buffer]) = served buffers ++ [.started buffer, .finished buffer] := by
  unfold served
  rw [List.flatMap_append, List.flatMap_singleton]

/-- The card works on the request at the front, if there is one. -/
def begun (sys : SdSystem) (front : Option BufAddr) : SdSystem :=
  { sys with
    card := { sys.card with inFlight := sys.serve front }
    log := sys.log ++ front.toList.map .started }

theorem requestHead_eq (sys : SdSystem) {rest : List BufAddr}
    (holds : sys.sdque.Holds sys.links (buffer :: rest))
    (quiet : sys.card.interrupt = 0) : sys.requestHead = .ok (sys.begun (some buffer)) := by
  unfold requestHead sdStart
  rw [holds.front]
  simp only [liftQueue]
  rw [if_neg (not_not.mpr quiet)]
  rfl

/-! ### Memory of the callers -/

theorem Settled.fill (settled : sys.Settled) (buf : Buf) (prev next : Option BufAddr)
    (unused : ∀ proc call, (sys.place proc).call = some call → call.buffer ≠ buffer) :
    (sys.fill buffer buf prev next).Settled := by
  have apart : ∀ other ∈ sys.pending, other ≠ buffer := by
    intro other member
    obtain ⟨proc, call, running, same⟩ := settled.pending_owner member
    rw [← same]
    exact unused proc call running
  have same : ∀ other, other ≠ buffer → (sys.fill buffer buf prev next).buf other = sys.buf other :=
    fun other different => Function.update_of_ne different _ _
  constructor
  · apply settled.queue.frame
    intro other member
    constructor
    · exact Function.update_of_ne (apart other member) _ _
    · exact Function.update_of_ne (apart other member) _ _
  · exact settled.counted
  · change sys.card.inFlight = (sys.fill buffer buf prev next).serve sys.pending.head?
    rw [settled.card]
    unfold serve
    cases front : sys.pending.head? with
    | none => rfl
    | some first =>
        have member : first ∈ sys.pending := List.mem_of_head? front
        simp only [Option.map_some]
        rw [same first (apart first member)]
        rfl
  · exact settled.interrupt
  · exact settled.log
  · intro other member
    rw [same other (apart other member)]
    exact settled.flags other member
  · intro index other later found
    obtain ⟨proc, attends⟩ := settled.owner index other later found
    refine ⟨proc, attends.frame rfl (same other ?_)⟩
    exact unused proc _ attends.call_eq
  · intro proc call running
    obtain ⟨queued, released⟩ := settled.calls proc call running
    refine ⟨queued, ?_⟩
    intro before
    exact (released before).frame rfl (same call.buffer (unused proc call running))
  · exact settled.apart

/-! ### Queueing a request -/

/-- The buffer is queued, and its request is started when there is no other. -/
def submitted (sys : SdSystem) (queue : Links BufAddr × Queue BufAddr) (buffer : BufAddr) :
    SdSystem :=
  let queued := { sys.setQueue queue with requests := sys.requests ++ [buffer] }
  if sys.pending = [] then queued.begun (some buffer) else queued

theorem Settled.pending_snoc (settled : sys.Settled) (buffer : BufAddr) :
    (sys.requests ++ [buffer]).drop sys.completed = sys.pending ++ [buffer] :=
  List.drop_append_of_le_length settled.counted

theorem Settled.submit_eq (settled : sys.Settled) (fresh : buffer ∉ sys.pending) :
    ∃ queue, sys.submit buffer = .ok (sys.submitted queue buffer) ∧
      queue.2.Holds queue.1 (sys.pending ++ [buffer]) := by
  obtain ⟨links, sdque, pushed, holds, _⟩ := settled.queue.push fresh
  refine ⟨(links, sdque), ?_, holds⟩
  unfold submit submitted
  rw [pushed]
  simp only [liftQueue]
  by_cases empty : sys.pending = []
  · rw [if_pos (settled.queue.empty_iff.mpr empty), if_pos empty]
    rw [empty, List.nil_append] at holds
    exact requestHead_eq { sys.setQueue (links, sdque) with requests := sys.requests ++ [buffer] }
      holds (settled.quiet empty)
  · rw [if_neg (fun idle => empty (settled.queue.empty_iff.mp idle)), if_neg empty]

theorem submitted_card (sys : SdSystem) (queue : Links BufAddr × Queue BufAddr) (buffer : BufAddr)
    (settled : sys.Settled) :
    (sys.submitted queue buffer).card.inFlight = sys.serve (sys.pending ++ [buffer]).head? ∧
      (sys.submitted queue buffer).card.interrupt = sys.card.interrupt ∧
      (sys.submitted queue buffer).log =
        served (sys.requests.take sys.completed) ++
          (sys.pending ++ [buffer]).head?.toList.map .started := by
  unfold submitted
  by_cases empty : sys.pending = []
  · rw [if_pos empty, empty]
    refine ⟨rfl, rfl, ?_⟩
    change sys.log ++ _ = _
    rw [settled.log, empty]
    simp
  · obtain ⟨first, rest, listed⟩ := List.exists_cons_of_ne_nil empty
    rw [if_neg empty, listed]
    refine ⟨?_, rfl, ?_⟩
    · change sys.card.inFlight = _
      rw [settled.card, listed]
      rfl
    · change sys.log = _
      rw [settled.log, listed]
      rfl

theorem submitted_frame (sys : SdSystem) (queue : Links BufAddr × Queue BufAddr)
    (buffer : BufAddr) :
    (sys.submitted queue buffer).buf = sys.buf ∧
      (sys.submitted queue buffer).place = sys.place ∧
      (sys.submitted queue buffer).requests = sys.requests ++ [buffer] ∧
      (sys.submitted queue buffer).completed = sys.completed ∧
      (sys.submitted queue buffer).links = queue.1 ∧
      (sys.submitted queue buffer).sdque = queue.2 ∧
      (sys.submitted queue buffer).card.highCapacity = sys.card.highCapacity := by
  unfold submitted
  split
  · exact ⟨rfl, rfl, rfl, rfl, rfl, rfl, rfl⟩
  · exact ⟨rfl, rfl, rfl, rfl, rfl, rfl, rfl⟩

theorem Settled.sdrw_eq (settled : sys.Settled) (out : sys.place proc = .out)
    (invalid : (sys.buf buffer).flags ≠ bValid) (fresh : buffer ∉ sys.pending) :
    ∃ queue, queue.2.Holds queue.1 (sys.pending ++ [buffer]) ∧
      sys.sdrw proc buffer = .ok (((sys.submitted queue buffer).initSl buffer).goto proc
        (.waiting { buffer := buffer, ticket := sys.requests.length })) := by
  obtain ⟨queue, submitted, holds⟩ := settled.submit_eq fresh
  refine ⟨queue, holds, ?_⟩
  have written : ((sys.submitted queue buffer).initSl buffer).buf buffer =
      { sys.buf buffer with sl := initSem 0 } := by
    rw [← (submitted_frame sys queue buffer).1]
    exact Function.update_self _ _ _
  have own : (((sys.submitted queue buffer).initSl buffer).buf buffer).flags ≠ bValid := by
    rw [written]
    exact invalid
  unfold SdSystem.sdrw check
  rw [out, submitted]
  simp only
  rw [if_neg own]

/-- A call queues its buffer at the end, and is about to wait. -/
theorem Settled.sdrw (settled : sys.Settled) (out : sys.place proc = .out)
    (invalid : (sys.buf buffer).flags ≠ bValid) (fresh : buffer ∉ sys.pending) :
    ∃ after, sys.sdrw proc buffer = .ok after ∧ after.Settled ∧ after.place proc ≠ .out := by
  obtain ⟨queue, holds, stepped⟩ := settled.sdrw_eq out invalid fresh
  obtain ⟨buf, place, requests, completed, links, sdque, capacity⟩ :=
    submitted_frame sys queue buffer
  obtain ⟨inFlight, interrupt, log⟩ := submitted_card sys queue buffer settled
  refine ⟨_, stepped, ?_⟩
  generalize stateEq : ((sys.submitted queue buffer).initSl buffer).goto proc
    (.waiting { buffer := buffer, ticket := sys.requests.length }) = after
  have queued : after.requests = sys.requests ++ [buffer] := by
    rw [← stateEq]
    exact requests
  have counted : after.completed = sys.completed := by
    rw [← stateEq]
    exact completed
  have pending : after.pending = sys.pending ++ [buffer] := by
    unfold SdSystem.pending
    rw [queued, counted]
    exact settled.pending_snoc buffer
  have card : after.card = (sys.submitted queue buffer).card := by
    rw [← stateEq]
    rfl
  have others : ∀ other, other ≠ buffer → after.buf other = sys.buf other := by
    intro other different
    rw [← stateEq, ← buf]
    exact Function.update_of_ne different _ _
  have own : after.buf buffer = { sys.buf buffer with sl := initSem 0 } := by
    rw [← stateEq, ← buf]
    exact Function.update_self _ _ _
  have here : after.place proc = .waiting { buffer := buffer, ticket := sys.requests.length } := by
    rw [← stateEq]
    exact Function.update_self _ _ _
  have elsewhere : ∀ other, other ≠ proc → after.place other = sys.place other := by
    intro other different
    rw [← stateEq, ← place]
    exact Function.update_of_ne different _ _
  -- The buffer of a running call is queued or has the valid flag.
  have unused : ∀ other call, (sys.place other).call = some call → call.buffer ≠ buffer := by
    intro other call running same
    rcases settled.running_buffer running with member | valid
    · exact fresh (same ▸ member)
    · exact invalid (same ▸ valid)
  have old : ∀ other call, other ≠ proc → (after.place other).call = some call →
      (sys.place other).call = some call := by
    intro other call different running
    rw [elsewhere other different] at running
    exact running
  have new : ∀ call, (after.place proc).call = some call →
      call = { buffer := buffer, ticket := sys.requests.length } := by
    intro call running
    rw [here] at running
    exact (Option.some.inj running).symm
  refine ⟨⟨?_, ?_, ?_, ?_, ?_, ?_, ?_, ?_, ?_⟩, ?_⟩
  · rw [pending, ← stateEq]
    change (sys.submitted queue buffer).sdque.Holds (sys.submitted queue buffer).links _
    rw [links, sdque]
    exact holds
  · rw [queued, counted, List.length_append]
    exact Nat.le_add_right_of_le settled.counted
  · rw [card, inFlight, pending]
    symm
    apply serve_congr
    · rw [card, capacity]
    · intro other
      by_cases same : other = buffer
      · rw [same]
        exact ⟨_, own⟩
      · exact ⟨(sys.buf other).sl, others other same⟩
  · intro raised
    rw [card, interrupt] at raised
    obtain ⟨request, busy, kind⟩ := settled.interrupt raised
    refine ⟨request, ?_, ?_⟩
    · rw [card, inFlight]
      rw [settled.card] at busy
      cases listed : sys.pending with
      | nil =>
          rw [listed] at busy
          cases busy
      | cons first rest =>
          rw [listed] at busy
          exact busy
    · rw [card, interrupt]
      exact kind
  · rw [queued, counted, pending, List.take_append_of_le_length settled.counted, ← log, ← stateEq]
    rfl
  · intro other member
    rw [pending, List.mem_append, List.mem_singleton] at member
    rcases member with within | same
    · have different : other ≠ buffer := fun same => fresh (same ▸ within)
      rw [others other different]
      exact settled.flags other within
    · rw [same, own]
      exact invalid
  · intro index other later found
    rw [queued] at found
    rw [counted] at later
    by_cases within : index < sys.requests.length
    · rw [List.getElem?_append_left within] at found
      obtain ⟨owner, attends⟩ := settled.owner index other later found
      have different : owner ≠ proc := by
        intro same
        have running := attends.call_eq
        rw [same, out] at running
        cases running
      exact ⟨owner, attends.frame (elsewhere owner different)
        (others other (unused owner _ attends.call_eq))⟩
    · rw [List.getElem?_append_right (Nat.le_of_not_lt within),
        List.getElem?_singleton] at found
      have last : index = sys.requests.length := by
        split at found
        · omega
        · cases found
      rw [last, Nat.sub_self, if_pos rfl] at found
      cases found
      rw [last]
      refine ⟨proc, Or.inl ⟨here, ?_⟩⟩
      rw [own]
      rfl
  · intro other call running
    rw [queued, counted]
    by_cases same : other = proc
    · rw [same] at running
      rw [new call running]
      refine ⟨List.getElem?_concat_length, ?_⟩
      intro before
      exact absurd settled.counted (Nat.not_le.mpr before)
    · obtain ⟨was, released⟩ := settled.calls other call (old other call same running)
      have within : call.ticket < sys.requests.length := by
        rw [List.getElem?_eq_some_iff] at was
        exact was.1
      rw [List.getElem?_append_left within]
      refine ⟨was, ?_⟩
      intro before
      exact (released before).frame (elsewhere other same)
        (others call.buffer (unused other call (old other call same running)))
  · intro first second call call' one two same
    by_cases firstOwn : first = proc
    · by_cases secondOwn : second = proc
      · rw [firstOwn, secondOwn]
      · rw [firstOwn] at one
        rw [new call one] at same
        exact absurd same.symm (unused second call' (old second call' secondOwn two))
    · by_cases secondOwn : second = proc
      · rw [secondOwn] at two
        rw [new call' two] at same
        exact absurd same (unused first call (old first call firstOwn one))
      · exact settled.apart first second call call' (old first call firstOwn one)
          (old second call' secondOwn two) same
  · rw [here]
    intro impossible
    cases impossible

/-! ### Interrupts -/

theorem Settled.raise {request : Request} (settled : sys.Settled) (words : Sector)
    (busy : sys.card.inFlight = some request) (quiet : sys.card.interrupt = 0) :
    ∃ after, sys.raise words = .ok after ∧ after.Settled ∧ after.card.interrupt ≠ 0 ∧
      after.requests = sys.requests ∧ after.completed = sys.completed ∧
      after.place = sys.place := by
  have kind : completion request ≠ 0 := by
    unfold completion intDataDone intReadRdy
    split
    · decide
    · decide
  unfold SdSystem.raise
  rw [busy]
  simp only
  rw [if_neg (not_not.mpr quiet)]
  refine ⟨_, rfl, ?_, kind, rfl, rfl, rfl⟩
  exact
    { queue := settled.queue
      counted := settled.counted
      card := settled.card
      interrupt := fun _ => ⟨request, busy, rfl⟩
      log := settled.log
      flags := settled.flags
      owner := settled.owner
      calls := settled.calls
      apart := settled.apart }

/-- The handler has finished the request of a call and posted to it. -/
structure Posted (sys after : SdSystem) (proc : Tid) (call : Call) : Prop where
  links : after.links = sys.links
  sdque : after.sdque = sys.sdque
  requests : after.requests = sys.requests
  completed : after.completed = sys.completed + 1
  capacity : after.card.highCapacity = sys.card.highCapacity
  idle : after.card.inFlight = none
  quiet : after.card.interrupt = 0
  log : after.log = sys.log ++ [.finished call.buffer]
  buf : ∀ buffer, buffer ≠ call.buffer → after.buf buffer = sys.buf buffer
  place : ∀ other, other ≠ proc → after.place other = sys.place other
  released : after.Released proc call

theorem post_spec (attends : sys.Attends proc call) :
    ∃ after, (sys.acknowledge.finish call.buffer).post call.buffer = .ok after ∧
      Posted sys after proc call := by
  have written : (sys.acknowledge.finish call.buffer).buf call.buffer =
      { sys.buf call.buffer with
        data :=
          if (sys.buf call.buffer).isWrite then (sys.buf call.buffer).data else sys.card.data
        flags := bValid } := setBuf_self sys.acknowledge call.buffer _
  have slEq : ((sys.acknowledge.finish call.buffer).buf call.buffer).sl =
      (sys.buf call.buffer).sl := by
    rw [written]
  have flagsEq : ((sys.acknowledge.finish call.buffer).buf call.buffer).flags = bValid := by
    rw [written]
  have others : ∀ buffer, buffer ≠ call.buffer →
      (sys.acknowledge.finish call.buffer).buf buffer = sys.buf buffer :=
    fun buffer different => Function.update_of_ne different _ _
  unfold post
  rcases attends with ⟨waiting, semaphore⟩ | ⟨asleep, semaphore⟩
  · have posted : postSem ((sys.acknowledge.finish call.buffer).buf call.buffer).sl =
        some (none, { val := 1, sleeplist := [] }) := by
      rw [slEq, semaphore]
      rfl
    simp only [posted, wake]
    refine ⟨_, rfl, rfl, rfl, rfl, rfl, rfl, rfl, rfl, rfl, ?_, fun _ _ => rfl, ?_,
      Or.inl ⟨waiting, ?_⟩⟩
    · intro buffer different
      exact (Function.update_of_ne different _ _).trans (others buffer different)
    · rw [setBuf_self]
      exact flagsEq
    · rw [setBuf_self]
  · have posted : postSem ((sys.acknowledge.finish call.buffer).buf call.buffer).sl =
        some (some proc, { val := 0, sleeplist := [] }) := by
      rw [slEq, semaphore]
      rfl
    have here : ∀ buf, ((sys.acknowledge.finish call.buffer).setBuf call.buffer buf).place proc =
        .asleep call := fun _ => asleep
    simp only [posted, wake, here]
    refine ⟨_, rfl, rfl, rfl, rfl, rfl, rfl, rfl, rfl, rfl, ?_, ?_, ?_, Or.inr ?_⟩
    · intro buffer different
      exact (Function.update_of_ne different _ _).trans (others buffer different)
    · intro other different
      exact Function.update_of_ne different _ _
    · change (((sys.acknowledge.finish call.buffer).setBuf call.buffer _).buf call.buffer).flags = _
      rw [setBuf_self]
      exact flagsEq
    · exact Function.update_self _ _ _

theorem popHead_eq {rest : List BufAddr} (holds : sys.sdque.Holds sys.links (buffer :: rest))
    (quiet : sys.card.interrupt = 0) (idle : sys.card.inFlight = none) :
    ∃ queue, sys.popHead = .ok ((sys.setQueue queue).begun rest.head?) ∧
      queue.2.Holds queue.1 rest := by
  obtain ⟨links, sdque, popped, left, _⟩ := holds.pop
  refine ⟨(links, sdque), ?_, left⟩
  unfold popHead
  rw [popped]
  simp only [liftQueue]
  cases rest with
  | nil =>
      rw [if_pos (left.empty_iff.mpr rfl)]
      congr 1
      unfold begun serve
      simp only [List.head?_nil, Option.map_none, Option.toList_none, List.map_nil,
        List.append_nil]
      rw [← idle]
      rfl
  | cons next rest =>
      rw [if_neg (fun empty => List.cons_ne_nil next rest (left.empty_iff.mp empty))]
      exact requestHead_eq (sys.setQueue (links, sdque)) left quiet

/-- The interrupt is the one that the handler expects. -/
theorem Settled.sdIntr_eq {rest : List BufAddr} (settled : sys.Settled)
    (listed : sys.pending = buffer :: rest) (raised : sys.card.interrupt ≠ 0) :
    sys.sdIntr =
      match (sys.acknowledge.finish buffer).post buffer with
      | .error stop => .error stop
      | .ok posted => posted.popHead := by
  have holds := settled.queue
  rw [listed] at holds
  obtain ⟨request, busy, kind⟩ := settled.interrupt raised
  rw [settled.card, listed] at busy
  have write : request.write = (sys.buf buffer).isWrite := by
    cases busy
    rfl
  unfold completion at kind
  rw [write] at kind
  unfold SdSystem.sdIntr
  rw [if_neg (fun empty => List.cons_ne_nil buffer rest (holds.empty_iff.mp empty)), holds.front]
  simp only [liftQueue]
  rw [kind]
  cases (sys.buf buffer).isWrite with
  | false =>
      rw [if_neg (by decide)]
      exact if_neg (by decide)
  | true =>
      rw [if_neg (by decide)]
      exact if_neg (by decide)

theorem Posted.call_eq (posted : Posted sys after proc call)
    (running : (sys.place proc).call = some call) (other : Tid) :
    (after.place other).call = (sys.place other).call := by
  by_cases same : other = proc
  · rw [same, posted.released.call_eq, running]
  · rw [posted.place other same]

/-- The handler finishes the oldest request, and gives the card the next one. -/
theorem Settled.sdIntr {rest : List BufAddr} (settled : sys.Settled)
    (listed : sys.pending = buffer :: rest) (raised : sys.card.interrupt ≠ 0) :
    ∃ after, sys.sdIntr = .ok after ∧ after.Settled ∧ after.requests = sys.requests ∧
      after.completed = sys.completed + 1 ∧
      ∀ other, (after.place other).call = (sys.place other).call := by
  have found : sys.requests[sys.completed]? = some buffer := by
    have first : sys.pending[0]? = some buffer := by
      rw [listed]
      rfl
    unfold SdSystem.pending at first
    rw [List.getElem?_drop] at first
    exact first
  obtain ⟨proc, attends⟩ := settled.owner sys.completed buffer (Nat.le_refl _) found
  obtain ⟨posted, step, handled⟩ := post_spec attends
  have holds : posted.sdque.Holds posted.links (buffer :: rest) := by
    rw [handled.sdque, handled.links, ← listed]
    exact settled.queue
  obtain ⟨queue, popped, left⟩ := popHead_eq holds handled.quiet handled.idle
  have fresh : buffer ∉ rest := (List.nodup_cons.mp holds.nodup).1
  have same := handled.call_eq attends.call_eq
  refine ⟨(posted.setQueue queue).begun rest.head?, ?_, ?_, handled.requests, handled.completed,
    same⟩
  · rw [settled.sdIntr_eq listed raised]
    simp only [step]
    exact popped
  generalize stateEq : (posted.setQueue queue).begun rest.head? = after
  have requests : after.requests = sys.requests := by
    rw [← stateEq]
    exact handled.requests
  have completed : after.completed = sys.completed + 1 := by
    rw [← stateEq]
    exact handled.completed
  have pending : after.pending = rest := by
    unfold SdSystem.pending at listed ⊢
    rw [requests, completed, ← List.tail_drop, listed]
    rfl
  have buf : ∀ other, other ≠ buffer → after.buf other = sys.buf other := by
    intro other different
    rw [← stateEq]
    exact handled.buf other different
  have place : ∀ other, other ≠ proc → after.place other = sys.place other := by
    intro other different
    rw [← stateEq]
    exact handled.place other different
  have released : after.Released proc { buffer := buffer, ticket := sys.completed } := by
    rw [← stateEq]
    exact handled.released
  have calls : ∀ other, (after.place other).call = (sys.place other).call := by
    rw [← stateEq]
    exact same
  constructor
  · rw [pending, ← stateEq]
    exact left
  · rw [requests, completed]
    exact (List.getElem?_eq_some_iff.mp found).1
  · rw [pending, ← stateEq]
    rfl
  · intro impossible
    rw [← stateEq] at impossible
    exact absurd handled.quiet impossible
  · have oldLog : sys.log = served (sys.requests.take sys.completed) ++ [.started buffer] := by
      rw [settled.log, listed]
      rfl
    have newLog : after.log = sys.log ++ [.finished buffer] ++ rest.head?.toList.map .started := by
      rw [← stateEq]
      change posted.log ++ _ = _
      rw [handled.log]
    rw [newLog, oldLog, requests, completed, pending, List.take_add_one, found,
      Option.toList_some, served_snoc]
    simp only [List.append_assoc, List.cons_append, List.nil_append]
  · intro other member
    rw [pending] at member
    rw [buf other (fun equal => fresh (equal ▸ member))]
    apply settled.flags
    rw [listed]
    exact List.mem_cons_of_mem buffer member
  · intro index other later queued
    rw [requests] at queued
    rw [completed] at later
    obtain ⟨owner, waits⟩ := settled.owner index other (Nat.le_of_succ_le later) queued
    have member : other ∈ rest := by
      rw [← pending]
      apply mem_pending.mpr
      refine ⟨index, ?_, ?_⟩
      · rw [completed]
        exact later
      · rw [requests]
        exact queued
    have different : owner ≠ proc := by
      intro equal
      rw [equal] at waits
      have own := waits.call_eq
      rw [attends.call_eq] at own
      cases own
      exact fresh member
    exact ⟨owner, waits.frame (place owner different)
      (buf other (fun equal => fresh (equal ▸ member)))⟩
  · intro other call running
    rw [requests, completed]
    have before := running
    rw [calls other] at before
    obtain ⟨queued, done⟩ := settled.calls other call before
    refine ⟨queued, ?_⟩
    intro early
    by_cases equal : other = proc
    · rw [equal] at running ⊢
      rw [released.call_eq] at running
      cases running
      exact released
    · have different : call.buffer ≠ buffer := by
        intro shared
        exact equal (settled.apart other proc _ _ before attends.call_eq shared)
      have earlier : call.ticket < sys.completed := by
        apply Nat.lt_of_le_of_ne (Nat.le_of_lt_succ early)
        intro last
        rw [last, found] at queued
        exact different (Option.some.inj queued).symm
      exact (done earlier).frame (place other equal) (buf call.buffer different)
  · intro first second call call' one two shared
    rw [calls first] at one
    rw [calls second] at two
    exact settled.apart first second call call' one two shared

end SdSystem

end LabKernel.Driver
