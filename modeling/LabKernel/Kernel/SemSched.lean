/-
A semaphore over the scheduler.

A wait that finds no permit calls `simple_sched` on the CPU of its process, and a post puts the
process it wakes into the run queue. What the four CPUs do is a run of the semaphore over the
view of its processes, no assertion or link of the scheduler fails, and no wake-up is lost.
-/

import LabKernel.Kernel.Permits
import LabKernel.Kernel.RunQueue

set_option autoImplicit false

namespace LabKernel.Kernel

open Common Rings Transition

/-! ### The processes in a wait -/

/-- What a process in a wait can be: it sleeps only as long as it has no permit. -/
def ProcState.Fits (state : ProcState) (wait : WaitData) : Prop :=
  match state with
  | .runnable | .running => True
  | .sleeping | .deepSleeping => wait.up = false
  | .unused | .zombie => False

namespace Procs

variable {procs : Procs} {index : Nat} {wait : WaitData}

theorem activate_fits {onalert : Bool} (fits : (procs.state index).Fits wait) :
    ((procs.activate index onalert).state index).Fits wait := by
  unfold activate
  split
  · rw [setState_self]
    trivial
  · exact fits

theorem activate_up (fits : (procs.state index).Fits wait) :
    ((procs.activate index false).state index).Fits { wait with up := true } := by
  unfold activate
  split
  · rw [setState_self]
    trivial
  · rename_i awake
    cases state : procs.state index with
    | runnable => trivial
    | running => trivial
    | sleeping => simp [state, ProcState.wakes] at awake
    | deepSleeping => simp [state, ProcState.wakes] at awake
    | unused => simp [state, ProcState.wakes] at awake
    | zombie =>
        rw [state] at fits
        exact fits

theorem leave_fits {newState : ProcState} (running : procs.state index = .running)
    (fits : newState.Fits wait) : ((procs.leave index newState).state index).Fits wait := by
  unfold leave
  split
  · rw [running]
    trivial
  · rw [setState_self]
    exact fits

end Procs

namespace SemSystem

variable {sys after : SemSystem} {tid : Tid}

def Woken (sys : SemSystem) : Prop :=
  ∀ tid wait, sys.waits tid = some wait → (sys.procs.state tid).Fits wait

theorem Woken.move (woken : sys.Woken) {procs : Procs}
    (fits : ∀ tid wait, sys.waits tid = some wait → (sys.procs.state tid).Fits wait →
      (procs.state tid).Fits wait) : { sys with procs := procs }.Woken :=
  fun tid wait inside => fits tid wait inside (woken tid wait inside)

/-- Only a process that is in no wait, or one of which this is known, is touched. -/
theorem Woken.move_one (woken : sys.Woken) {procs : Procs}
    (others : ∀ other, other ≠ tid → procs.state other = sys.procs.state other)
    (fits : ∀ wait, sys.waits tid = some wait → (sys.procs.state tid).Fits wait →
      (procs.state tid).Fits wait) : { sys with procs := procs }.Woken := by
  apply woken.move
  intro other wait inside before
  by_cases same : other = tid
  · rw [same] at inside before ⊢
    exact fits wait inside before
  · rw [others other same]
    exact before

theorem Woken.wait (woken : sys.Woken) (running : sys.procs.state tid = .running)
    (alertable : Bool) : (sys.wait tid alertable).Woken := by
  unfold SemSystem.wait
  split
  · exact woken
  · intro other wait inside
    change Function.update sys.waits tid _ other = _ at inside
    by_cases same : other = tid
    · rw [same, Function.update_self] at inside
      cases inside
      rw [same]
      apply Procs.leave_fits running
      cases alertable
      · exact rfl
      · exact rfl
    · rw [Function.update_of_ne same] at inside
      change ((sys.procs.leave tid _).state other).Fits wait
      rw [Procs.leave_other same]
      exact woken other wait inside

theorem resume_cases {wait : WaitData} (went : sys.resume tid wait = .ok after) :
    after.procs = sys.procs ∧ after.waits = Function.update sys.waits tid none := by
  unfold SemSystem.resume at went
  simp only at went
  split at went
  · cases went
    exact ⟨rfl, rfl⟩
  · split at went
    · split at went
      · cases went
        exact ⟨rfl, rfl⟩
      · cases went
    · cases went

theorem Woken.resume (woken : sys.Woken) {wait : WaitData}
    (went : sys.resume tid wait = .ok after) : after.Woken := by
  obtain ⟨procs, waits⟩ := resume_cases went
  intro other wait inside
  rw [waits] at inside
  rw [procs]
  by_cases same : other = tid
  · rw [same, Function.update_self] at inside
    cases inside
  · rw [Function.update_of_ne same] at inside
    exact woken other wait inside

theorem Woken.grant (woken : sys.Woken) : (sys.grant tid).Woken := by
  intro other wait inside
  change Function.update sys.waits tid _ other = _ at inside
  change ((sys.procs.activate tid false).state other).Fits wait
  by_cases same : other = tid
  · rw [same, Function.update_self, Option.map_eq_some_iff] at inside
    obtain ⟨before, here, equal⟩ := inside
    rw [same, ← equal]
    exact Procs.activate_up (woken tid before here)
  · rw [Function.update_of_ne same] at inside
    rw [Procs.activate_other same]
    exact woken other wait inside

theorem Woken.post (woken : sys.Woken) (went : sys.post = .ok after) : after.Woken := by
  unfold SemSystem.post at went
  split at went
  · cases went
  · cases went
    exact woken
  · cases went
    exact Woken.grant woken

theorem get_procs (sys : SemSystem) :
    sys.get.2.procs = sys.procs ∧ sys.get.2.waits = sys.waits := by
  rcases sys.get_cases with ⟨-, taken⟩ | ⟨-, taken⟩
  · rw [taken]
    exact ⟨rfl, rfl⟩
  · rw [taken]
    exact ⟨rfl, rfl⟩

theorem getAll_procs (sys : SemSystem) :
    sys.getAll.2.procs = sys.procs ∧ sys.getAll.2.waits = sys.waits := by
  unfold SemSystem.getAll
  split
  · exact ⟨rfl, rfl⟩
  · exact ⟨rfl, rfl⟩

theorem Woken.same (woken : sys.Woken) (same : after.procs = sys.procs ∧ after.waits = sys.waits) :
    after.Woken := by
  unfold Woken
  rw [same.1, same.2]
  exact woken

theorem Woken.postAllLoop (rounds : Nat) :
    ∀ (ret count : Int) (sys after : SemSystem), sys.Woken →
      SemSystem.postAllLoop rounds ret sys = .ok (count, after) → after.Woken := by
  induction rounds with
  | zero =>
      intro ret count sys after _ went
      cases went
  | succ rounds ih =>
      intro ret count sys after woken went
      unfold SemSystem.postAllLoop at went
      split at went
      · cases went
      · rename_i posted called
        have kept : posted.get.2.Woken := (woken.post called).same posted.get_procs
        split at went
        · rename_i last taken
          cases went
          rw [taken] at kept
          exact kept
        · rename_i next taken
          rw [taken] at kept
          exact ih _ _ _ _ kept went

theorem Woken.step (woken : sys.Woken) {action : SemAction}
    (went : semStep sys action = .ok after) : after.Woken := by
  cases action with
  | wait tid alertable =>
      simp only [semStep] at went
      split at went
      · rename_i free
        cases went
        exact woken.wait free.2 alertable
      · cases went
  | resume tid =>
      simp only [semStep] at went
      split at went
      · cases went
      · split at went
        · exact woken.resume went
        · cases went
  | post => exact woken.post went
  | get =>
      cases went
      exact woken.same sys.get_procs
  | getAll =>
      cases went
      exact woken.same sys.getAll_procs
  | postAll =>
      simp only [semStep, SemSystem.postAll] at went
      cases called : SemSystem.postAllLoop (sys.sem.sleeplist.length + 1) (-1) sys with
      | error stop =>
          rw [called] at went
          cases went
      | ok result =>
          rw [called] at went
          cases went
          exact Woken.postAllLoop _ _ result.1 _ _ woken called
  | setKilled tid =>
      cases went
      exact woken
  | alert tid =>
      cases went
      exact woken.move_one (fun _ => Procs.activate_other) (fun _ _ => Procs.activate_fits)
  | dispatch tid =>
      simp only [semStep] at went
      split at went
      · cases went
        apply woken.move_one (fun _ => Procs.setState_other)
        intro wait _ _
        rw [Procs.setState_self]
        trivial
      · cases went
  | yield tid =>
      simp only [semStep] at went
      split at went
      · rename_i running
        cases went
        exact woken.move_one (fun _ => Procs.leave_other)
          (fun _ _ _ => Procs.leave_fits running trivial)
      · cases went
  | leave tid newState =>
      simp only [semStep] at went
      split at went
      · rename_i free
        cases went
        apply woken.move_one (fun _ => Procs.leave_other)
        intro wait inside
        rw [free.1] at inside
        cases inside
      · cases went
  | activate tid =>
      simp only [semStep] at went
      split at went
      · cases went
        exact woken.move_one (fun _ => Procs.activate_other) (fun _ _ => Procs.activate_fits)
      · cases went

end SemSystem

/-! ### The calls -/

structure SemSched where
  sched : Sched
  sem : Semaphore
  waits : Tid → Option WaitData
  history : List SemEvent

/-- A semaphore with some permits, and the scheduler as it starts. -/
def SemSched.initial (val : Int) : SemSched :=
  { sched := Sched.initial, sem := initSem val, waits := fun _ => none, history := [] }

namespace SemSched

variable (sys : SemSched)

def setSched (sched : Sched) : SemSched := { sys with sched := sched }

/-- What the semaphore and its waits see of the processes. -/
def view : SemSystem :=
  { procs := sys.sched.view, sem := sys.sem, waits := sys.waits, history := sys.history }

/-- A call on the semaphore that leaves the scheduler alone. -/
def setCalls (calls : SemSystem) : SemSched :=
  { sched := sys.sched, sem := calls.sem, waits := calls.waits, history := calls.history }

/-- `_wait_sem` of the process on this CPU, until it returns or gives up the CPU. -/
def wait (cpu : Fin ncpu) (tid : Tid) (alertable : Bool) : Except Stop SemSched :=
  match waitInt tid sys.sem with
  | (true, sem) =>
      .ok { sys with
        sem := sem
        history := sys.history ++ [.granted tid] ++ [.returned tid alertable true] }
  | (false, sem) =>
      match sys.sched.simpleSched cpu (if alertable then .sleeping else .deepSleeping) with
      | .error stop => .error stop
      | .ok sched =>
          .ok
            { sched := sched
              sem := sem
              waits := Function.update sys.waits tid (some { alertable := alertable, up := false })
              history := sys.history ++ [.slept tid] }

def post : Except Stop SemSched :=
  match postInt sys.sem with
  | none => .error .assertion
  | some (none, sem) => .ok { sys with sem := sem, history := sys.history ++ [.posted] }
  | some (some tid, sem) =>
      match sys.sched.activateProc (.user tid) false with
      | .error stop => .error stop
      | .ok (_, sched) =>
          .ok
            { sched := sched
              sem := sem
              waits := Function.update sys.waits tid
                ((sys.waits tid).map (fun wait => { wait with up := true }))
              history := sys.history ++ [.posted] ++ [.granted tid] }

/-- `_get_sem` and `get_all_sem` are those of the semaphore. -/
def get : Bool × SemSched := (sys.view.get.1, sys.setCalls sys.view.get.2)

def getAll : Int × SemSched := (sys.view.getAll.1, sys.setCalls sys.view.getAll.2)

/-- The loop of `post_all_sem`. -/
def postAllLoop : Nat → Int → SemSched → Except Stop (Int × SemSched)
  | 0, _, _ => .error .endless
  | rounds + 1, ret, sys =>
      match sys.post with
      | .error stop => .error stop
      | .ok posted =>
          match posted.get with
          | (true, after) => .ok (intWrap (ret + 1), after)
          | (false, after) => postAllLoop rounds (intWrap (ret + 1)) after

def postAll : Except Stop (Int × SemSched) :=
  postAllLoop (sys.sem.sleeplist.length + 1) (-1) sys

end SemSched

/-- The calls on the semaphore, those of them that can sleep with the CPU they are made on, and
the calls of the scheduler. -/
inductive SemSchedAction where
  | wait (cpu : Fin ncpu) (alertable : Bool)
  | resume (cpu : Fin ncpu)
  | post
  | get
  | getAll
  | postAll
  | sched (action : SchedAction)
  deriving DecidableEq

def semSchedStep (sys : SemSched) : SemSchedAction → Except Stop SemSched
  | .wait cpu alertable =>
      match sys.sched.current cpu with
      | .idle _ => .error .disabled
      | .user tid =>
          if sys.waits tid = none then sys.wait cpu tid alertable else .error .disabled
  | .resume cpu =>
      match sys.sched.current cpu with
      | .idle _ => .error .disabled
      | .user tid =>
          match sys.waits tid with
          | none => .error .disabled
          | some wait => (sys.view.resume tid wait).map sys.setCalls
  | .post => sys.post
  | .get => .ok sys.get.2
  | .getAll => .ok sys.getAll.2
  | .postAll => sys.postAll.map Prod.snd
  | .sched action => (schedStep sys.sched action).map sys.setSched

namespace SemSched

/-- A process in a wait only loses the CPU and is alerted, others do not wake it, and a process is
not killed before it is made. -/
def LeavesWaits (sys : SemSched) : SchedAction → Prop
  | .sched cpu newState =>
      newState = .runnable ∨ ∀ tid, sys.sched.current cpu = .user tid → sys.waits tid = none
  | .startProc index | .activate index => sys.waits index = none
  | .setKilled (.user index) => index < sys.sched.procs
  | _ => True

/-- All processes are in the root container, the callers keep to their rules, and `val` stays in
`int`. -/
def Allowed (sys : SemSched) (action : SemSchedAction) : Prop :=
  (∀ index, sys.sched.container index = rootContainer) ∧
    match action with
    | .wait _ _ => sys.sem.val ≠ intMin
    | .post | .postAll => sys.sem.val ≠ intMax
    | .sched action => sys.sched.CallerRules action ∧ sys.LeavesWaits action
    | .resume _ | .get | .getAll => True

end SemSched

/-! ### The semaphore below -/

/-- Steps of the semaphore that keep `val` in `int`. -/
def SemSystem.Reaches (sys after : SemSystem) : Prop :=
  ∃ actions, Run semStep SemSystem.StaysInt sys actions after

namespace SemSystem

variable {sys middle after : SemSystem}

theorem Reaches.refl (sys : SemSystem) : sys.Reaches sys := ⟨[], .start⟩

theorem Reaches.trans (first : sys.Reaches middle) (second : middle.Reaches after) :
    sys.Reaches after := by
  obtain ⟨actions, run⟩ := first
  obtain ⟨more, later⟩ := second
  exact ⟨actions ++ more, run.append later⟩

theorem Reaches.step {action : SemAction} (went : semStep sys action = .ok after)
    (small : sys.StaysInt action) : sys.Reaches after :=
  ⟨[action], Run.start.next small went⟩

theorem Reaches.dispatch {procs : Procs} (dispatched : sys.procs.Dispatches procs) :
    sys.Reaches { sys with procs := procs } := by
  rcases dispatched with same | ⟨next, ready, same⟩
  · rw [same]
    exact Reaches.refl sys
  · have went : semStep sys (.dispatch next) = .ok { sys with procs := procs } := by
      simp only [semStep]
      rw [if_pos ready, same]
    exact Reaches.step went trivial

end SemSystem

/-! ### What the layers keep -/

structure SemSched.Coupled (val : Int) (sys : SemSched) : Prop where
  queued : ∃ queue, sys.sched.Scheduled queue
  reached : (SemSystem.initial Sched.initial.view val).Reaches sys.view
  accounted : sys.view.Accounted val
  woken : sys.view.Woken
  unkilled : ∀ index, sys.sched.procs ≤ index → sys.sched.killed (.user index) = false

namespace Sched

variable {sched after : Sched} {queue : List Nat} {index : Nat}

theorem Ordered.activateProc_total (scheduled : sched.Scheduled queue) (known : index < sched.procs)
    (root : sched.container index = rootContainer) (onalert : Bool) :
    ∃ woken after queue', sched.activateProc (.user index) onalert = .ok (woken, after) ∧
      after.Scheduled queue' ∧ after.container = sched.container := by
  cases wakes : (sched.state (.user index)).wakes onalert with
  | false => exact ⟨false, sched, queue, activateProc_awake wakes, scheduled, rfl⟩
  | true =>
      obtain ⟨links, activated, woken⟩ := Ordered.activateProc scheduled known wakes root
      exact ⟨true, _, _, activated, woken, rfl⟩

theorem activateProc_others {onalert woken : Bool}
    (activated : sched.activateProc (.user index) onalert = .ok (woken, after)) :
    after.procs = sched.procs ∧ after.killed = sched.killed := by
  rcases activateProc_tasks activated with ⟨-, same⟩ | ⟨-, same⟩
  · rw [same]
    exact ⟨rfl, rfl⟩
  · exact same.2.2

theorem activateProc_ok {onalert : Bool}
    (went : (sched.activateProc (.user index) onalert).map Prod.snd = .ok after) :
    after.view = sched.view.activate index onalert ∧
      after.procs = sched.procs ∧ after.killed = sched.killed := by
  cases activated : sched.activateProc (.user index) onalert with
  | error stop =>
      rw [activated] at went
      cases went
  | ok result =>
      obtain ⟨woken, later⟩ := result
      rw [activated] at went
      cases went
      exact ⟨activateProc_view activated, activateProc_others activated⟩

theorem simpleSched_others {cpu : Fin ncpu} {newState : ProcState}
    (scheduled : sched.simpleSched cpu newState = .ok after) :
    after.procs = sched.procs ∧ after.killed = sched.killed := by
  rcases simpleSched_tasks scheduled with ⟨-, same⟩ | ⟨-, next, hands⟩
  · rw [same]
    exact ⟨rfl, rfl⟩
  · exact ⟨hands.procs, hands.killed⟩

end Sched

namespace SemSched

variable {sys after : SemSched} {val : Int} {tid : Tid} {cpu : Fin ncpu}

theorem Coupled.initial (free : 0 ≤ val) (small : val ≤ intMax) :
    (SemSched.initial val).Coupled val := by
  constructor
  · exact ⟨[], Sched.Ordered.initial⟩
  · exact SemSystem.Reaches.refl _
  · exact SemSystem.Accounted.initial _ free small
  · intro tid wait inside
    cases inside
  · intro index _
    rfl

/-- Steps of the semaphore below keep what is said about it. -/
theorem Coupled.next (coupled : sys.Coupled val) (queued : ∃ queue, after.sched.Scheduled queue)
    (unkilled : ∀ index, after.sched.procs ≤ index → after.sched.killed (.user index) = false)
    (below : sys.view.Reaches after.view) : after.Coupled val := by
  have reached := coupled.reached.trans below
  obtain ⟨actions, run⟩ := below
  refine ⟨queued, reached, coupled.accounted.run run, ?_, unkilled⟩
  apply run.invariant coupled.woken
  intro before action later woken _ went
  exact woken.step went

theorem Coupled.waiting_made (coupled : sys.Coupled val) {wait : WaitData}
    (inside : sys.waits tid = some wait) : tid < sys.sched.procs := by
  by_contra new
  obtain ⟨queue, scheduled⟩ := coupled.queued
  have fits := coupled.woken tid wait inside
  change (sys.sched.state (.user tid)).Fits wait at fits
  rw [scheduled.created tid (Nat.le_of_not_lt new)] at fits
  exact fits

theorem Coupled.running (coupled : sys.Coupled val) (this : sys.sched.current cpu = .user tid) :
    sys.view.procs.state tid = .running := by
  obtain ⟨queue, scheduled⟩ := coupled.queued
  have runs := Sched.Ordered.current_running scheduled cpu
  rw [this] at runs
  exact runs

theorem Coupled.unkilled_same (coupled : sys.Coupled val) {sched : Sched}
    (same : sched.procs = sys.sched.procs ∧ sched.killed = sys.sched.killed) (index : Nat)
    (new : sched.procs ≤ index) : sched.killed (.user index) = false := by
  rw [same.1] at new
  rw [same.2]
  exact coupled.unkilled index new

/-! The calls on the semaphore. -/

theorem Coupled.wait (coupled : sys.Coupled val) (this : sys.sched.current cpu = .user tid)
    (out : sys.waits tid = none) (above : sys.sem.val ≠ intMin) (alertable : Bool) :
    ∃ after, sys.wait cpu tid alertable = .ok after ∧ after.Coupled val := by
  have called : semStep sys.view (.wait tid alertable) = .ok (sys.view.wait tid alertable) :=
    if_pos ⟨out, coupled.running this⟩
  unfold SemSystem.wait at called
  unfold SemSched.wait
  cases taken : waitInt tid sys.sem with
  | mk got sem =>
      have same : waitInt tid sys.view.sem = (got, sem) := taken
      rw [same] at called
      cases got with
      | true =>
          refine ⟨_, rfl, coupled.next coupled.queued coupled.unkilled ?_⟩
          exact SemSystem.Reaches.step called above
      | false =>
          obtain ⟨queue, scheduled⟩ := coupled.queued
          have allowed :
              sys.sched.MayEnter cpu (if alertable then .sleeping else .deepSleeping) := by
            constructor
            · cases alertable <;> simp
            · intro owner idle
              rw [this] at idle
              cases idle
          obtain ⟨sched, queue', went, kept, -⟩ := Sched.Ordered.simpleSched scheduled allowed (by
            intro index _ _ going
            cases alertable <;> cases going)
          simp only [went]
          refine ⟨_, rfl, coupled.next ⟨queue', kept⟩
            (coupled.unkilled_same (Sched.simpleSched_others went)) ?_⟩
          apply (SemSystem.Reaches.step called above).trans
          exact SemSystem.Reaches.dispatch (Sched.simpleSched_user this went)

/-- A call that leaves the scheduler alone is that of the semaphore below. -/
theorem Coupled.calls (coupled : sys.Coupled val) {calls : SemSystem}
    (procs : calls.procs = sys.sched.view) (below : sys.view.Reaches calls) :
    (sys.setCalls calls).Coupled val := by
  have same : (sys.setCalls calls).view = calls := by
    unfold SemSched.setCalls SemSched.view
    rw [← procs]
  have reached : sys.view.Reaches (sys.setCalls calls).view := by
    rw [same]
    exact below
  exact coupled.next coupled.queued coupled.unkilled reached

theorem Coupled.resume (coupled : sys.Coupled val) (this : sys.sched.current cpu = .user tid)
    {wait : WaitData} (inside : sys.waits tid = some wait) :
    ∃ after, (sys.view.resume tid wait).map sys.setCalls = .ok after ∧ after.Coupled val := by
  have running := coupled.running this
  obtain ⟨calls, went, -⟩ := coupled.accounted.resume inside running
  have called : semStep sys.view (.resume tid) = .ok calls := by
    have here : sys.view.waits tid = some wait := inside
    simp only [semStep, here]
    rw [if_pos running, went]
  rw [went]
  refine ⟨_, rfl, coupled.calls (SemSystem.resume_cases went).1 ?_⟩
  exact SemSystem.Reaches.step called trivial

/-- A sleeper that a post takes off the list goes into the run queue. -/
theorem Coupled.post (coupled : sys.Coupled val)
    (root : ∀ index, sys.sched.container index = rootContainer) (below : sys.sem.val ≠ intMax) :
    ∃ after, sys.post = .ok after ∧ sys.view.post = .ok after.view ∧ after.Coupled val ∧
      after.sched.container = sys.sched.container := by
  obtain ⟨calls, went, -⟩ := coupled.accounted.post below
  have called : semStep sys.view .post = sys.view.post := rfl
  unfold SemSched.post
  cases posted : postInt sys.sem with
  | none =>
      unfold SemSystem.post at went
      have failed : postInt sys.view.sem = none := posted
      rw [failed] at went
      cases went
  | some result =>
      obtain ⟨sleeper, sem⟩ := result
      have taken : postInt sys.view.sem = some (sleeper, sem) := posted
      cases sleeper with
      | none =>
          have lower : sys.view.post =
              .ok (SemSystem.record { sys.view with sem := sem } .posted) := by
            unfold SemSystem.post
            rw [taken]
          refine ⟨_, rfl, lower, coupled.next coupled.queued coupled.unkilled ?_, rfl⟩
          exact SemSystem.Reaches.step (called.trans lower) below
      | some sleeper =>
          obtain ⟨alertable, inside⟩ := (coupled.accounted.listed sleeper).mp (postInt_mem posted)
          obtain ⟨queue, scheduled⟩ := coupled.queued
          obtain ⟨woken, sched, queue', activated, kept, containers⟩ :=
            Sched.Ordered.activateProc_total scheduled (coupled.waiting_made inside) (root sleeper)
              false
          have lower : sys.view.post = .ok
              { procs := sched.view
                sem := sem
                waits := Function.update sys.waits sleeper
                  ((sys.waits sleeper).map (fun wait => { wait with up := true }))
                history := sys.history ++ [.posted] ++ [.granted sleeper] } := by
            unfold SemSystem.post
            rw [taken, Sched.activateProc_view activated]
            rfl
          simp only [activated]
          refine ⟨_, rfl, lower, coupled.next ⟨queue', kept⟩
            (coupled.unkilled_same (Sched.activateProc_others activated)) ?_, containers⟩
          exact SemSystem.Reaches.step (called.trans lower) below

theorem Coupled.get (coupled : sys.Coupled val) : sys.get.2.Coupled val := by
  have called : semStep sys.view .get = .ok sys.view.get.2 := rfl
  exact coupled.calls sys.view.get_procs.1 (SemSystem.Reaches.step called trivial)

theorem Coupled.getAll (coupled : sys.Coupled val) : sys.getAll.2.Coupled val := by
  have called : semStep sys.view .getAll = .ok sys.view.getAll.2 := rfl
  exact coupled.calls sys.view.getAll_procs.1 (SemSystem.Reaches.step called trivial)

/-- Each round finds a sleeper or leaves a permit, as below. -/
theorem Coupled.postAllLoop (rounds : Nat) :
    ∀ (ret : Int) (sys : SemSched), sys.Coupled val →
      (∀ index, sys.sched.container index = rootContainer) → sys.sem.val ≠ intMax →
      sys.sem.sleeplist.length < rounds →
      ∃ count after, SemSched.postAllLoop rounds ret sys = .ok (count, after) ∧
        after.Coupled val := by
  induction rounds with
  | zero =>
      intro ret sys _ _ _ short
      cases short
  | succ rounds ih =>
      intro ret sys coupled root below short
      obtain ⟨posted, went, lower, kept, containers⟩ := coupled.post root below
      obtain ⟨calls, same, -, value, length⟩ := coupled.accounted.post below
      rw [lower] at same
      cases same
      have balanced := coupled.accounted.balanced
      unfold Semaphore.Balanced at balanced
      change (sys.sem.sleeplist.length : Int) = max 0 (-sys.sem.val) at balanced
      change posted.sem.val = sys.sem.val + 1 at value
      change posted.sem.sleeplist.length = sys.sem.sleeplist.length - 1 at length
      unfold SemSched.postAllLoop
      simp only [went]
      cases taken : posted.get with
      | mk got after =>
          have later := kept.get
          rw [taken] at later
          cases got with
          | true => exact ⟨_, _, rfl, later⟩
          | false =>
              -- No permit is left, so there was a sleeper to take it.
              have same : posted.sem.val ≤ 0 ∧ posted = after := by
                rcases posted.view.get_cases with ⟨-, given⟩ | ⟨none, given⟩
                · unfold SemSched.get at taken
                  rw [given] at taken
                  cases taken
                · unfold SemSched.get at taken
                  rw [given] at taken
                  cases taken
                  exact ⟨none, rfl⟩
              obtain ⟨none, rfl⟩ := same
              have smaller : posted.sem.val ≠ intMax := by
                intro full
                rw [full] at none
                exact absurd none (by decide)
              apply ih (intWrap (ret + 1)) posted kept _ smaller
              · omega
              · intro index
                rw [containers]
                exact root index

theorem Coupled.postAll (coupled : sys.Coupled val)
    (root : ∀ index, sys.sched.container index = rootContainer) (below : sys.sem.val ≠ intMax) :
    ∃ count after, sys.postAll = .ok (count, after) ∧ after.Coupled val :=
  Coupled.postAllLoop _ (-1) sys coupled root below (Nat.lt_succ_self _)

/-! The calls of the scheduler. -/

theorem Coupled.createProc_view (coupled : sys.Coupled val) :
    sys.sched.createProc.view = sys.sched.view := by
  obtain ⟨queue, scheduled⟩ := coupled.queued
  have unkilled : sys.sched.createProc.killed = sys.sched.killed := by
    change Function.update sys.sched.killed (.user sys.sched.procs) false = _
    rw [← coupled.unkilled sys.sched.procs (Nat.le_refl _), Function.update_eq_self]
  unfold Sched.view
  rw [Sched.Ordered.createProc_state scheduled, unkilled]

theorem Coupled.createProc_unkilled (coupled : sys.Coupled val) (index : Nat)
    (new : sys.sched.procs + 1 ≤ index) : sys.sched.createProc.killed (.user index) = false := by
  change Function.update sys.sched.killed (.user sys.sched.procs) false _ = _
  have other : Task.user index ≠ .user sys.sched.procs := by
    intro same
    have equal := Task.user.inj same
    omega
  rw [Function.update_of_ne other]
  exact coupled.unkilled index (Nat.le_of_succ_le new)

/-- What the scheduler does to the processes is matched below. -/
theorem reaches_view {sched : Sched} {procs : Procs} (same : sched.view = procs)
    (below : sys.view.Reaches { sys.view with procs := procs }) :
    sys.view.Reaches (sys.setSched sched).view := by
  rw [← same] at below
  exact below

/-- Below, the process on the CPU leaves it and then another one runs. -/
theorem Coupled.reaches_sched (coupled : sys.Coupled val) {newState : ProcState} {sched : Sched}
    (leaves : newState = .runnable ∨
      ∀ tid, sys.sched.current cpu = .user tid → sys.waits tid = none)
    (went : sys.sched.simpleSched cpu newState = .ok sched) :
    sys.view.Reaches (sys.setSched sched).view := by
  cases this : sys.sched.current cpu with
  | idle owner =>
      have dispatched : sys.view.procs.Dispatches sched.view := Sched.simpleSched_idle this went
      exact SemSystem.Reaches.dispatch dispatched
  | user tid =>
      have running := coupled.running this
      have dispatched := Sched.simpleSched_user this went
      rcases leaves with rfl | out
      · have left : semStep sys.view (.yield tid) =
            .ok { sys.view with procs := sys.view.procs.leave tid .runnable } := if_pos running
        exact (SemSystem.Reaches.step left trivial).trans (SemSystem.Reaches.dispatch dispatched)
      · have left : semStep sys.view (.leave tid newState) =
            .ok { sys.view with procs := sys.view.procs.leave tid newState } :=
          if_pos ⟨out tid this, running⟩
        exact (SemSystem.Reaches.step left trivial).trans (SemSystem.Reaches.dispatch dispatched)

theorem reaches_activate {index : Nat} (out : sys.waits index = none) :
    sys.view.Reaches { sys.view with procs := sys.view.procs.activate index false } := by
  have called : semStep sys.view (.activate index) =
      .ok { sys.view with procs := sys.view.procs.activate index false } := if_pos out
  exact SemSystem.Reaches.step called trivial

theorem reaches_alert (sys : SemSched) (index : Nat) :
    sys.view.Reaches { sys.view with procs := sys.view.procs.activate index true } := by
  have called : semStep sys.view (.alert index) =
      .ok { sys.view with procs := sys.view.procs.activate index true } := rfl
  exact SemSystem.Reaches.step called trivial

theorem Coupled.setKilled (coupled : sys.Coupled val) {task : Task} {sched : Sched}
    (made : sys.LeavesWaits (.setKilled task))
    (went : schedStep sys.sched (.setKilled task) = .ok sched) :
    (∀ index, sched.procs ≤ index → sched.killed (.user index) = false) ∧
      sys.view.Reaches (sys.setSched sched).view := by
  cases went
  cases task with
  | idle owner =>
      constructor
      · intro index new
        change Function.update sys.sched.killed (.idle owner) true (.user index) = false
        rw [Function.update_of_ne (by simp)]
        exact coupled.unkilled index new
      · refine reaches_view ?_ (SemSystem.Reaches.refl sys.view)
        unfold Sched.view
        congr 1
  | user index =>
      have called : semStep sys.view (.setKilled index) =
          .ok { sys.view with procs := sys.view.procs.setKilled index } := rfl
      constructor
      · intro other new
        change Function.update sys.sched.killed (.user index) true (.user other) = false
        have different : Task.user other ≠ .user index := by
          intro same
          have equal := Task.user.inj same
          change sys.sched.procs ≤ other at new
          change index < sys.sched.procs at made
          omega
        rw [Function.update_of_ne different]
        exact coupled.unkilled other new
      · refine reaches_view ?_ (SemSystem.Reaches.step called trivial)
        unfold Sched.view SemSched.view Procs.setKilled
        congr 1
        funext other
        by_cases same : other = index
        · simp [same]
        · simp [same, Sched.view]

theorem Coupled.schedule (coupled : sys.Coupled val) {action : SchedAction} {sched : Sched}
    (leaves : sys.LeavesWaits action) (queued : ∃ queue, sched.Scheduled queue)
    (went : schedStep sys.sched action = .ok sched) : (sys.setSched sched).Coupled val := by
  have still := SemSystem.Reaches.refl sys.view
  have moved : (∀ index, sched.procs ≤ index → sched.killed (.user index) = false) ∧
      sys.view.Reaches (sys.setSched sched).view := by
    cases action with
    | createProc =>
        cases went
        exact ⟨coupled.createProc_unkilled, reaches_view coupled.createProc_view still⟩
    | createContainer =>
        cases went
        exact ⟨coupled.createProc_unkilled, reaches_view coupled.createProc_view still⟩
    | setContainerParentToThis cpu container =>
        simp only [schedStep] at went
        split at went
        · cases went
          exact ⟨coupled.unkilled, reaches_view rfl still⟩
        · cases went
    | setProcToContainer index container =>
        simp only [schedStep] at went
        split at went
        · cases went
          exact ⟨coupled.unkilled, reaches_view rfl still⟩
        · cases went
    | startProc index =>
        simp only [schedStep, Sched.startProc] at went
        split at went
        · obtain ⟨woken, same⟩ := Sched.activateProc_ok went
          exact ⟨coupled.unkilled_same same, reaches_view woken (reaches_activate leaves)⟩
        · cases went
    | activate index =>
        simp only [schedStep] at went
        split at went
        · obtain ⟨woken, same⟩ := Sched.activateProc_ok went
          exact ⟨coupled.unkilled_same same, reaches_view woken (reaches_activate leaves)⟩
        · cases went
    | alert index =>
        simp only [schedStep] at went
        split at went
        · obtain ⟨woken, same⟩ := Sched.activateProc_ok went
          exact ⟨coupled.unkilled_same same, reaches_view woken (reaches_alert sys index)⟩
        · cases went
    | setKilled task => exact coupled.setKilled leaves went
    | sched cpu newState =>
        exact ⟨coupled.unkilled_same (Sched.simpleSched_others went),
          coupled.reaches_sched leaves went⟩
    | setPanic =>
        cases went
        exact ⟨coupled.unkilled, reaches_view rfl still⟩
  exact coupled.next queued moved.1 moved.2

/-! ### Runs -/

theorem Coupled.step (coupled : sys.Coupled val) {action : SemSchedAction}
    (allowed : sys.Allowed action) :
    semSchedStep sys action = .error .disabled ∨
      ∃ after, semSchedStep sys action = .ok after ∧ after.Coupled val := by
  obtain ⟨root, rules⟩ := allowed
  cases action with
  | wait cpu alertable =>
      simp only [semSchedStep]
      cases this : sys.sched.current cpu with
      | idle owner => exact Or.inl rfl
      | user tid =>
          by_cases out : sys.waits tid = none
          · simp only [if_pos out]
            exact Or.inr (coupled.wait this out rules alertable)
          · simp only [if_neg out]
            exact Or.inl trivial
  | resume cpu =>
      simp only [semSchedStep]
      cases this : sys.sched.current cpu with
      | idle owner => exact Or.inl rfl
      | user tid =>
          cases inside : sys.waits tid with
          | none =>
              simp only [inside]
              exact Or.inl trivial
          | some wait =>
              simp only [inside]
              exact Or.inr (coupled.resume this inside)
  | post =>
      obtain ⟨after, went, -, kept, -⟩ := coupled.post root rules
      exact Or.inr ⟨after, went, kept⟩
  | get => exact Or.inr ⟨_, rfl, coupled.get⟩
  | getAll => exact Or.inr ⟨_, rfl, coupled.getAll⟩
  | postAll =>
      obtain ⟨count, after, went, kept⟩ := coupled.postAll root rules
      simp only [semSchedStep, went]
      exact Or.inr ⟨after, rfl, kept⟩
  | sched action =>
      obtain ⟨queue, scheduled⟩ := coupled.queued
      have enqueues := (Sched.RootOnly.rules sys.sched action ⟨root, rules.1⟩).2
      simp only [semSchedStep]
      rcases Sched.Ordered.step scheduled rules.1 enqueues with
        stopped | ⟨after, queue', went, kept, -⟩
      · rw [stopped]
        exact Or.inl rfl
      · rw [went]
        exact Or.inr ⟨_, rfl, coupled.schedule rules.2 ⟨queue', kept⟩ went⟩

theorem Coupled.of_run (free : 0 ≤ val) (small : val ≤ intMax) {actions : List SemSchedAction}
    (run : Run semSchedStep Allowed (SemSched.initial val) actions sys) : sys.Coupled val := by
  apply run.invariant (Coupled.initial free small)
  intro before action after coupled allowed taken
  rcases coupled.step allowed with stopped | ⟨final, went, kept⟩
  · rw [stopped] at taken
    cases taken
  · rw [taken] at went
    cases went
    exact kept

/-- A wait that has a permit is in the run queue or on a CPU. One without is on the sleep list, and
if it cannot be alerted it is on no CPU. -/
theorem Coupled.placed (coupled : sys.Coupled val) {queue : List Nat}
    (scheduled : sys.sched.Scheduled queue) {alertable up : Bool}
    (inside : sys.waits tid = some { alertable := alertable, up := up }) :
    (up = true → tid ∈ queue ∨ ∃ cpu, sys.sched.current cpu = .user tid) ∧
    (up = false → tid ∈ sys.sem.sleeplist) ∧
    (up = false → alertable = false → tid ∉ queue ∧ ∀ cpu, sys.sched.current cpu ≠ .user tid) := by
  refine ⟨?_, ?_, ?_⟩
  · rintro rfl
    have fits := coupled.woken tid _ inside
    change (sys.sched.state (.user tid)).Fits _ at fits
    cases state : sys.sched.state (.user tid) with
    | runnable => exact Or.inl ((scheduled.queued tid).mpr state)
    | running =>
        obtain ⟨cpu, -, here⟩ := (scheduled.running _).mp state
        exact Or.inr ⟨cpu, here⟩
    | sleeping =>
        rw [state] at fits
        cases fits
    | deepSleeping =>
        rw [state] at fits
        cases fits
    | unused =>
        rw [state] at fits
        cases fits
    | zombie =>
        rw [state] at fits
        cases fits
  · rintro rfl
    exact (coupled.accounted.listed tid).mpr ⟨alertable, inside⟩
  · rintro rfl rfl
    have deep : sys.sched.state (.user tid) = .deepSleeping := coupled.accounted.deep tid inside
    constructor
    · intro member
      have ready := (scheduled.queued tid).mp member
      rw [deep] at ready
      cases ready
    · intro cpu here
      have runs := Sched.Ordered.current_running scheduled cpu
      rw [here, deep] at runs
      cases runs

end SemSched

/-- However four CPUs wait on a semaphore and post it, this is a run of the semaphore. No permit is
lost or made, no process sleeps that has got one, and no call fails. -/
theorem semaphore_over_scheduler {val : Int} (free : 0 ≤ val) (small : val ≤ intMax)
    {actions : List SemSchedAction} {sys : SemSched}
    (run : Run semSchedStep SemSched.Allowed (SemSched.initial val) actions sys) :
    (∃ below, Run semStep SemSystem.StaysInt (SemSystem.initial Sched.initial.view val) below
      sys.view) ∧
    (sys.sem.sleeplist.length : Int) = max 0 (-sys.sem.val) ∧
    sys.sem.val = val + postsIn sys.history - grantsIn sys.history - sys.sem.sleeplist.length ∧
    (∃ queue : List Nat, IsRing sys.sched.links (.head rootContainer) (queue.map .proc) ∧
      ∀ tid alertable up, sys.waits tid = some { alertable := alertable, up := up } →
        (up = true → tid ∈ queue ∨ ∃ cpu, sys.sched.current cpu = .user tid) ∧
        (up = false → tid ∈ sys.sem.sleeplist) ∧
        (up = false → alertable = false →
          tid ∉ queue ∧ ∀ cpu, sys.sched.current cpu ≠ .user tid)) ∧
    ∀ action, sys.Allowed action → semSchedStep sys action = .error .disabled ∨
      ∃ after, semSchedStep sys action = .ok after := by
  have coupled := SemSched.Coupled.of_run free small run
  obtain ⟨queue, scheduled⟩ := coupled.queued
  refine ⟨coupled.reached, coupled.accounted.balanced, coupled.accounted.counted,
    ⟨queue, scheduled.ring, fun _ _ _ inside => coupled.placed scheduled inside⟩, ?_⟩
  intro action allowed
  rcases coupled.step allowed with stopped | ⟨after, went, -⟩
  · exact Or.inl stopped
  · exact Or.inr ⟨after, went⟩

/-- Of two sleepers the younger one is killed and gives up, and the post wakes the other. -/
theorem semaphore_over_scheduler_killed :
    ∃ (actions : List SemSchedAction) (sys : SemSched) (queue : List Nat),
      Run semSchedStep SemSched.Allowed (SemSched.initial 0) actions sys ∧
      sys.history = [.slept 1, .slept 0, .returned 0 true false, .posted, .granted 1] ∧
      IsRing sys.sched.links (.head rootContainer) (queue.map .proc) ∧ 1 ∈ queue := by
  have one : ∀ index, Sched.initial.createProc.container index = rootContainer := by
    intro index
    simp [Sched.createProc, Sched.initial]
  have two : ∀ index, Sched.initial.createProc.createProc.container index = rootContainer := by
    intro index
    simp [Sched.createProc, Sched.initial]
  have run : Run semSchedStep SemSched.Allowed (SemSched.initial 0)
      [.sched .createProc, .sched .createProc, .sched (.startProc 0), .sched (.startProc 1),
        .sched (.sched ⟨0, by decide⟩ .runnable), .sched (.sched ⟨1, by decide⟩ .runnable),
        .wait ⟨0, by decide⟩ false, .wait ⟨1, by decide⟩ true, .sched (.setKilled (.user 0)),
        .sched (.alert 0), .sched (.sched ⟨2, by decide⟩ .runnable), .resume ⟨2, by decide⟩,
        .post] _ :=
    Run.of_exec rfl
      ⟨⟨fun _ => rfl, trivial, trivial⟩, ⟨one, trivial, trivial⟩, ⟨two, trivial, rfl⟩,
        ⟨two, trivial, rfl⟩, ⟨two, ⟨by decide, fun _ _ => rfl⟩, Or.inl rfl⟩,
        ⟨two, ⟨by decide, fun _ _ => rfl⟩, Or.inl rfl⟩,
        ⟨two, (by decide : (0 : Int) ≠ intMin)⟩, ⟨two, (by decide : (-1 : Int) ≠ intMin)⟩,
        ⟨two, trivial, Nat.zero_lt_two⟩, ⟨two, trivial, trivial⟩,
        ⟨two, ⟨by decide, fun _ _ => rfl⟩, Or.inl rfl⟩, ⟨two, trivial⟩,
        ⟨two, (by decide : (-1 : Int) ≠ intMax)⟩, trivial⟩
  obtain ⟨-, -, -, ⟨queue, ring, placed⟩, -⟩ :=
    semaphore_over_scheduler (Int.le_refl 0) (by decide) run
  refine ⟨_, _, queue, run, rfl, ring, ?_⟩
  rcases (placed 1 false true rfl).1 rfl with member | ⟨⟨_ | _ | _ | _ | cpu, small⟩, here⟩
  · exact member
  · cases here
  · cases here
  · cases here
  · cases here
  · unfold ncpu at small
    omega

end LabKernel.Kernel
