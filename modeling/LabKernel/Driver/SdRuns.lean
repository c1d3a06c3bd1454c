/-
Whole runs of the request queue.

Every allowed step keeps the queue and the card together, and none ends in a panic. A call returns
from the test after its wait only, and the card, the handler and the caller can always bring it
there.
-/

import LabKernel.Driver.SdService

set_option autoImplicit false

namespace LabKernel.Driver

open Common Rings Transition SdSystem

variable {sys after : SdSystem} {actions : List SdAction}

theorem sdStep_settled (settled : sys.Settled) (action : SdAction) (allowed : sdGuard sys action) :
    (∃ after, sdStep sys action = .ok after ∧ after.Settled) ∨
      sdStep sys action = .error .disabled := by
  cases action with
  | fill buffer buf prev next => exact Or.inl ⟨_, rfl, settled.fill buf prev next allowed⟩
  | sdrw proc buffer =>
      cases here : sys.place proc with
      | out =>
          obtain ⟨after, stepped, kept, _⟩ := settled.sdrw here allowed.1 allowed.2
          exact Or.inl ⟨after, stepped, kept⟩
      | waiting call | asleep call | woken call =>
          right
          change sys.sdrw proc buffer = _
          unfold SdSystem.sdrw
          rw [here]
  | wait proc =>
      cases here : sys.place proc with
      | waiting call =>
          obtain ⟨after, stepped, kept, _⟩ := settled.wait here
          exact Or.inl ⟨after, stepped, kept⟩
      | out | asleep call | woken call =>
          right
          change sys.wait proc = _
          unfold SdSystem.wait
          rw [here]
  | recheck proc =>
      cases here : sys.place proc with
      | woken call =>
          obtain ⟨_, _, stepped, kept⟩ := settled.recheck here
          exact Or.inl ⟨_, stepped, kept⟩
      | out | waiting call | asleep call =>
          right
          change sys.recheck proc = _
          unfold SdSystem.recheck
          rw [here]
  | raise words =>
      change (∃ after, sys.raise words = .ok after ∧ after.Settled) ∨ sys.raise words = _
      cases busy : sys.card.inFlight with
      | none =>
          right
          unfold SdSystem.raise
          rw [busy]
      | some request =>
          by_cases quiet : sys.card.interrupt = 0
          · obtain ⟨after, stepped, kept, _⟩ := settled.raise words busy quiet
            exact Or.inl ⟨after, stepped, kept⟩
          · right
            unfold SdSystem.raise
            rw [busy]
            simp only
            rw [if_pos quiet]
  | sdIntr =>
      left
      change ∃ after, sys.sdIntr = .ok after ∧ after.Settled
      cases listed : sys.pending with
      | nil =>
          refine ⟨sys, ?_, settled⟩
          unfold SdSystem.sdIntr
          rw [if_pos (settled.queue.empty_iff.mpr listed)]
      | cons buffer rest =>
          have busy : queueEmpty sys.sdque = false := by
            rw [Bool.eq_false_iff]
            intro empty
            rw [settled.queue.empty_iff.mp empty] at listed
            cases listed
          obtain ⟨after, stepped, kept, _⟩ := settled.sdIntr listed (allowed busy)
          exact ⟨after, stepped, kept⟩

theorem settled_of_run {buf : BufAddr → Buf} {links : Links BufAddr} {highCapacity : Bool}
    {data : Sector}
    (run : Run sdStep sdGuard (SdSystem.initial buf links highCapacity data) actions sys) :
    sys.Settled := by
  apply run.invariant (initial_settled buf links highCapacity data)
  intro state action after settled allowed taken
  rcases sdStep_settled settled action allowed with ⟨_, stepped, kept⟩ | disabled
  · rw [taken] at stepped
    cases stepped
    exact kept
  · rw [taken] at disabled
    cases disabled

theorem call_kept {proc : Tid} {call : Call} {action : SdAction} (settled : sys.Settled)
    (allowed : sdGuard sys action) (taken : sdStep sys action = .ok after)
    (running : (sys.place proc).call = some call) (other : action ≠ .recheck proc) :
    (after.place proc).call = some call := by
  cases action with
  | fill buffer buf prev next =>
      cases taken
      exact running
  | sdrw caller buffer =>
      change sys.sdrw caller buffer = .ok after at taken
      cases here : sys.place caller with
      | out =>
          obtain ⟨queue, _, stepped⟩ := settled.sdrw_eq here allowed.1 allowed.2
          rw [stepped] at taken
          cases taken
          have different : proc ≠ caller := by
            intro same
            rw [same, here] at running
            cases running
          change (Function.update (sys.submitted queue buffer).place caller _ proc).call = _
          rw [Function.update_of_ne different, (submitted_frame sys queue buffer).2.1]
          exact running
      | waiting busy | asleep busy | woken busy =>
          unfold SdSystem.sdrw at taken
          rw [here] at taken
          cases taken
  | wait caller =>
      change sys.wait caller = .ok after at taken
      unfold SdSystem.wait at taken
      split at taken
      · rename_i own here
        cases taken
        by_cases same : proc = caller
        · rw [same, here] at running
          rw [same]
          change (Function.update sys.place caller _ caller).call = _
          rw [Function.update_self]
          split
          · exact running
          · exact running
        · rw [(waited_moves sys caller own _).place proc same]
          exact running
      · cases taken
  | recheck caller =>
      change sys.recheck caller = .ok after at taken
      have different : proc ≠ caller := by
        intro same
        rw [same] at other
        exact other rfl
      cases here : sys.place caller with
      | woken own =>
          obtain ⟨_, _, stepped, _⟩ := settled.recheck here
          rw [stepped] at taken
          cases taken
          change (Function.update sys.place caller _ proc).call = _
          rw [Function.update_of_ne different]
          exact running
      | out | waiting own | asleep own =>
          unfold SdSystem.recheck at taken
          rw [here] at taken
          cases taken
  | raise words =>
      change sys.raise words = .ok after at taken
      unfold SdSystem.raise at taken
      split at taken
      · cases taken
      · split at taken
        · cases taken
        · cases taken
          exact running
  | sdIntr =>
      change sys.sdIntr = .ok after at taken
      cases listed : sys.pending with
      | nil =>
          unfold SdSystem.sdIntr at taken
          rw [if_pos (settled.queue.empty_iff.mpr listed)] at taken
          cases taken
          exact running
      | cons buffer rest =>
          have busy : queueEmpty sys.sdque = false := by
            rw [Bool.eq_false_iff]
            intro empty
            rw [settled.queue.empty_iff.mp empty] at listed
            cases listed
          obtain ⟨_, stepped, _, _, _, calls⟩ := settled.sdIntr listed (allowed busy)
          rw [stepped] at taken
          cases taken
          rw [calls proc]
          exact running

theorem SdSystem.Settled.returns {proc : Tid} {call : Call} {action : SdAction} (settled : sys.Settled)
    (allowed : sdGuard sys action) (taken : sdStep sys action = .ok after)
    (running : (sys.place proc).call = some call) (out : after.place proc = .out) :
    sys.requests[call.ticket]? = some call.buffer ∧ call.ticket < after.completed ∧
      (after.buf call.buffer).flags = bValid ∧ call.buffer ∉ after.pending := by
  by_cases own : action = .recheck proc
  · rw [own] at taken
    change sys.recheck proc = .ok after at taken
    cases here : sys.place proc with
    | woken call' =>
        rw [here] at running
        cases running
        obtain ⟨before, valid, stepped, _⟩ := settled.recheck here
        rw [stepped] at taken
        cases taken
        refine ⟨(settled.calls proc call ?_).1, before, valid, ?_⟩
        · rw [here]
          rfl
        · intro member
          exact settled.flags call.buffer member valid
    | out | waiting call' | asleep call' =>
        unfold SdSystem.recheck at taken
        rw [here] at taken
        cases taken
  · have still := call_kept settled allowed taken running own
    rw [out] at still
    cases still

/-- Steps of the process alone bring its call to an end. -/
def Resumes (sys : SdSystem) (proc : Tid) : Prop :=
  ∃ own after, (∀ action ∈ own, action = .wait proc ∨ action = .recheck proc) ∧
    exec sdStep sys own = .ok after ∧ after.place proc = .out

/-- Nobody waits in vain once the request is done. -/
theorem SdSystem.Settled.resumes {proc : Tid} {call : Call} (settled : sys.Settled)
    (running : (sys.place proc).call = some call) (done : call.ticket < sys.completed) :
    Resumes sys proc := by
  have tested : ∀ state : SdSystem, state.Settled → state.place proc = .woken call →
      sdStep state (.recheck proc) = .ok (state.goto proc .out) :=
    fun state kept woken => (kept.recheck woken).2.2.1
  obtain ⟨_, ⟨here, _⟩ | woken⟩ := (settled.calls proc call running).2 done
  · obtain ⟨waited, stepped, kept, _, up⟩ := settled.wait here
    refine ⟨[.wait proc, .recheck proc], waited.goto proc .out, ?_, ?_, Function.update_self _ _ _⟩
    · simp
    · have first : sdStep sys (.wait proc) = .ok waited := stepped
      simp only [exec, first, tested waited kept (up done)]
  · refine ⟨[.recheck proc], sys.goto proc .out, ?_, ?_, Function.update_self _ _ _⟩
    · simp
    · simp only [exec, tested sys settled woken]

/-- The card and the handler finish the oldest request. -/
theorem SdSystem.Settled.advance {buffer : BufAddr} {rest : List BufAddr} (settled : sys.Settled)
    (listed : sys.pending = buffer :: rest) (words : Sector) :
    ∃ more final, Run sdStep sdGuard sys more final ∧ final.Settled ∧
      final.completed = sys.completed + 1 ∧
      ∀ other, (final.place other).call = (sys.place other).call := by
  by_cases quiet : sys.card.interrupt = 0
  · have busy : ∃ request, sys.card.inFlight = some request := by
      rw [settled.card, listed]
      exact ⟨_, rfl⟩
    obtain ⟨request, busy⟩ := busy
    obtain ⟨raised, stepped, kept, interrupt, requests, completed, place⟩ :=
      settled.raise words busy quiet
    have still : raised.pending = buffer :: rest := by
      unfold SdSystem.pending at listed ⊢
      rw [requests, completed]
      exact listed
    obtain ⟨final, handled, done, _, counted, calls⟩ := kept.sdIntr still interrupt
    refine ⟨[.raise words, .sdIntr], final, ?_, done, ?_, ?_⟩
    · have first : Run sdStep sdGuard sys ([] ++ [SdAction.raise words]) raised :=
        Run.start.next trivial stepped
      exact first.next (fun _ => interrupt) handled
    · rw [counted, completed]
    · intro other
      rw [calls, place]
  · obtain ⟨final, handled, done, _, counted, calls⟩ := settled.sdIntr listed quiet
    refine ⟨[.sdIntr], final, ?_, done, counted, calls⟩
    have first : Run sdStep sdGuard sys ([] ++ [SdAction.sdIntr]) final :=
      Run.start.next (fun _ => quiet) handled
    exact first

theorem SdSystem.Settled.progress {proc : Tid} {call : Call} (settled : sys.Settled)
    (running : (sys.place proc).call = some call) :
    ∃ more final, Run sdStep sdGuard sys more final ∧ final.place proc = .out := by
  -- The induction is on the requests up to its own that are not done.
  generalize remaining : call.ticket + 1 - sys.completed = distance
  induction distance generalizing sys with
  | zero =>
      obtain ⟨own, final, only, executed, out⟩ := settled.resumes running (by omega)
      refine ⟨own, final, Run.of_exec executed ?_, out⟩
      clear running executed remaining settled
      induction own generalizing sys with
      | nil => trivial
      | cons action rest ih =>
          constructor
          · rcases only action List.mem_cons_self with same | same
            · rw [same]
              trivial
            · rw [same]
              trivial
          · split
            · exact ih (fun action member => only action (List.mem_cons_of_mem _ member))
            · trivial
  | succ distance ih =>
      have queued := (settled.calls proc call running).1
      have nonempty : sys.pending ≠ [] := by
        intro empty
        have member : call.buffer ∈ sys.pending := mem_pending.mpr ⟨call.ticket, by omega, queued⟩
        rw [empty] at member
        cases member
      obtain ⟨buffer, rest, listed⟩ := List.exists_cons_of_ne_nil nonempty
      obtain ⟨first, middle, begun, kept, counted, calls⟩ :=
        settled.advance listed (sys.buf buffer).data
      have still : (middle.place proc).call = some call := by
        rw [calls proc]
        exact running
      obtain ⟨later, final, ended, out⟩ := ih kept still (by omega)
      exact ⟨first ++ later, final, begun.append ended, out⟩

/-- What holds whenever the lock of the queue is free, and of the steps from there. -/
structure SdContract (sys : SdSystem) : Prop where
  queued : sys.sdque.Holds sys.links sys.pending
  inFlight : sys.card.inFlight.map Request.buffer = sys.pending.head?
  inOrder : sys.log = served (sys.requests.take sys.completed) ++
    sys.pending.head?.toList.map .started
  returns : ∀ action after proc call, sdGuard sys action → sdStep sys action = .ok after →
    (sys.place proc).call = some call → after.place proc = .out →
      sys.requests[call.ticket]? = some call.buffer ∧ call.ticket < after.completed ∧
        (after.buf call.buffer).flags = bValid ∧ call.buffer ∉ after.pending
  sleeps : ∀ proc call, sys.place proc = .asleep call →
    sys.completed ≤ call.ticket ∧ call.buffer ∈ sys.pending
  resumes : ∀ proc call, (sys.place proc).call = some call → call.ticket < sys.completed →
    Resumes sys proc
  progress : ∀ proc call, (sys.place proc).call = some call →
    ∃ more final, Run sdStep sdGuard sys more final ∧ final.place proc = .out
  noPanic : ∀ action, sdGuard sys action →
    sdStep sys action ≠ .error .panic ∧ sdStep sys action ≠ .error .nullLink

theorem SdSystem.Settled.sleeps {proc : Tid} {call : Call} (settled : sys.Settled)
    (here : sys.place proc = .asleep call) :
    sys.completed ≤ call.ticket ∧ call.buffer ∈ sys.pending := by
  have running : (sys.place proc).call = some call := by
    rw [here]
    rfl
  obtain ⟨queued, done⟩ := settled.calls proc call running
  have undone : sys.completed ≤ call.ticket := by
    apply Nat.le_of_not_lt
    intro before
    rcases (done before).2 with ⟨waiting, _⟩ | woken
    · rw [here] at waiting
      cases waiting
    · rw [here] at woken
      cases woken
  exact ⟨undone, mem_pending.mpr ⟨call.ticket, undone, queued⟩⟩

theorem SdSystem.Settled.contract (settled : sys.Settled) : SdContract sys := by
  constructor
  · exact settled.queue
  · rw [settled.card]
    unfold serve
    cases sys.pending.head? with
    | none => rfl
    | some buffer => rfl
  · exact settled.log
  · intro action after proc call allowed taken running out
    exact settled.returns allowed taken running out
  · intro proc call here
    exact settled.sleeps here
  · intro proc call running done
    exact settled.resumes running done
  · intro proc call running
    exact settled.progress running
  · intro action allowed
    rcases sdStep_settled settled action allowed with ⟨after, stepped, _⟩ | disabled
    · rw [stepped]
      constructor
      · intro impossible
        cases impossible
      · intro impossible
        cases impossible
    · rw [disabled]
      constructor
      · intro impossible
        cases impossible
      · intro impossible
        cases impossible

/-- In every run the card works on the front of the queue, one request after the other, and
every call returns from its own completion and can always come to it. -/
theorem sd_queue_of_run {buf : BufAddr → Buf} {links : Links BufAddr} {highCapacity : Bool}
    {data : Sector}
    (run : Run sdStep sdGuard (SdSystem.initial buf links highCapacity data) actions sys) :
    SdContract sys := (settled_of_run run).contract

/-- A buffer on a stack: its semaphore is not initialised yet. -/
def stackBuf (flags : UInt32) : Buf :=
  { flags := flags
    blockno := 7
    data := fun _ => 0
    sl := { val := -3, sleeplist := [9, 9] } }

def twoRequests : SdSystem :=
  SdSystem.initial (fun buffer => stackBuf (if buffer = 20 then bDirty ||| bValid else 0))
    { prev := fun _ => none, next := fun _ => none } true (fun _ => 0)

/-- A process reads and another one writes; the first sleeps, the second is late to wait. -/
def twoCalls : List SdAction :=
  [.sdrw 1 10, .sdrw 2 20, .wait 1, .raise (fun _ => 5), .sdIntr, .raise (fun _ => 6), .recheck 1,
    .sdIntr, .wait 2, .recheck 2]

/-- `sdGuard` for these calls, as a check. -/
def sdAllowed (state : SdSystem) : SdAction → Bool
  | .fill _ _ _ _ => false
  | .sdrw _ buffer => (state.buf buffer).flags ≠ bValid ∧ buffer ∉ state.pending
  | .sdIntr => queueEmpty state.sdque ∨ state.card.interrupt ≠ 0
  | _ => true

theorem sd_queue_of_run_twice :
    ∃ sys, Run sdStep sdGuard twoRequests twoCalls sys ∧ SdContract sys ∧
      sys.requests = [10, 20] ∧ sys.completed = 2 := by
  have passed : checkRun sdStep sdAllowed
      (fun sys => sys.requests = [10, 20] ∧ sys.completed = 2) twoRequests twoCalls = true := by
    decide +kernel
  obtain ⟨sys, run, checked⟩ := Run.of_checkRun (fun state action allowed =>
    show sdGuard state action by
    cases action with
    | fill buffer buf prev next => cases allowed
    | sdrw proc buffer =>
        simp only [sdAllowed, decide_eq_true_eq] at allowed
        exact allowed
    | wait proc => trivial
    | recheck proc => trivial
    | raise words => trivial
    | sdIntr =>
        intro busy
        simp only [sdAllowed, decide_eq_true_eq] at allowed
        rcases allowed with empty | raised
        · rw [busy] at empty
          cases empty
        · exact raised) passed
  exact ⟨sys, run, sd_queue_of_run run, of_decide_eq_true checked⟩

end LabKernel.Driver
