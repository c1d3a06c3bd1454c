/-
How long a runnable process waits for a CPU.

Each choice of the scheduler takes the process at the head of the run queue. A process that gives
up its CPU and stays runnable goes to the end, and one that is woken goes to the front. So with
every choice a waiting process comes one place nearer, except for the processes woken meanwhile.
-/

import LabKernel.Kernel.RunQueue
import LabKernel.Lib.Outcome

set_option autoImplicit false

namespace LabKernel.Kernel

open Rings Transition Outcomes

namespace Sched

/-- The call chooses a process: a killed one is left running. -/
def chooses (sched : Sched) : SchedAction → Bool
  | .sched cpu newState =>
      !(sched.killed (sched.current cpu) && newState ≠ .zombie && newState ≠ .deepSleeping)
  | _ => false

/-- The call makes a process runnable. -/
def wakesOne (sched : Sched) : SchedAction → Bool
  | .startProc index | .activate index => (sched.state (.user index)).wakes false
  | .alert index => (sched.state (.user index)).wakes true
  | _ => false

end Sched

/-- The scheduler with the number of choices and of wake-ups since some point, and whether a
process has had a CPU since. -/
structure Tally where
  sched : Sched
  choices : Nat
  wakeups : Nat
  ran : Bool

def Tally.start (sched : Sched) : Tally :=
  { sched := sched
    choices := 0
    wakeups := 0
    ran := false }

def tallyStep (index : Nat) (tally : Tally) (action : SchedAction) : Except Stop Tally :=
  (schedStep tally.sched action).map fun after =>
    { sched := after
      choices := tally.choices + (tally.sched.chooses action).toNat
      wakeups := tally.wakeups + (tally.sched.wakesOne action).toNat
      ran := tally.ran || decide (∃ cpu, after.current cpu = .user index) }

/-- The process waits at this place of the run queue. -/
def Sched.WaitsAt (sched : Sched) (index position : Nat) : Prop :=
  ∃ queue, sched.Scheduled queue ∧ queue[position]? = some index

namespace Sched

variable {sched after : Sched} {index position : Nat}

theorem WaitsAt.same (waits : sched.WaitsAt index position) (links : after.links = sched.links)
    (state : after.state = sched.state) (current : after.current = sched.current)
    (procs : after.procs = sched.procs) (containers : after.containers = sched.containers) :
    after.WaitsAt index position := by
  obtain ⟨queue, scheduled, place⟩ := waits
  exact ⟨queue, Ordered.same scheduled links state current procs containers, place⟩

/-- A process that is woken is put in front of those that wait. -/
theorem WaitsAt.activate (waits : sched.WaitsAt index position) {other : Nat} {onalert : Bool}
    (known : other < sched.procs)
    (root : (sched.state (.user other)).wakes onalert = true →
      sched.container other = rootContainer)
    (activated : (sched.activateProc (.user other) onalert).map Prod.snd = .ok after) :
    after.WaitsAt index (position + ((sched.state (.user other)).wakes onalert).toNat) := by
  obtain ⟨queue, scheduled, place⟩ := waits
  cases wakes : (sched.state (.user other)).wakes onalert with
  | false =>
      rw [activateProc_awake wakes] at activated
      cases activated
      exact ⟨queue, scheduled, place⟩
  | true =>
      obtain ⟨links, called, woken⟩ := Ordered.activateProc scheduled known wakes (root wakes)
      rw [called] at activated
      cases activated
      exact ⟨other :: queue, woken, place⟩

/-- A choice takes the first process. Those behind it come one place nearer. -/
theorem WaitsAt.simpleSched (waits : sched.WaitsAt index position) {cpu : Fin ncpu}
    {newState : ProcState} (calm : sched.panicFlag = false)
    (allowed : sched.MayEnter cpu newState)
    (root : ∀ index, sched.current cpu = .user index → sched.killed (.user index) = false →
      newState = .runnable → sched.container index = rootContainer)
    (called : sched.simpleSched cpu newState = .ok after) :
    after.current cpu = .user index ∨
      ∃ place, after.WaitsAt index place ∧
        place + (sched.chooses (.sched cpu newState)).toNat = position := by
  obtain ⟨queue, scheduled, place⟩ := waits
  obtain ⟨final, returned, -, ⟨killed, same⟩ | ⟨alive, -, current, kept⟩⟩ :=
    Ordered.simpleSched_queue scheduled allowed root
  · rw [called] at returned
    cases returned
    rw [same]
    refine Or.inr ⟨position, ⟨queue, scheduled, place⟩, ?_⟩
    simp only [chooses, killed]
    rfl
  · rw [called] at returned
    cases returned
    have chosen : sched.chooses (.sched cpu newState) = true := by
      simp only [chooses, alive]
      rfl
    have still : (sched.waiting cpu newState queue)[position]? = some index := by
      unfold Sched.waiting
      split
      · exact place
      · split
        · exact List.getElem?_append_left (List.getElem?_eq_some_iff.mp place).1 ▸ place
        · exact place
    cases line : sched.waiting cpu newState queue with
    | nil =>
        rw [line] at still
        cases still
    | cons first rest =>
        rw [line] at still current kept
        simp only [Sched.chosen, calm, Bool.false_eq_true, if_false] at current kept
        cases position with
        | zero =>
            left
            rw [current, Function.update_self, Option.some.inj still]
        | succ nearer =>
            right
            refine ⟨nearer, ⟨rest, kept, still⟩, ?_⟩
            rw [chosen]
            rfl

end Sched

/-! ### Runs -/

/-- All processes are in the root container, the callers keep to their rules, and no panic has
been raised. -/
def Tally.Calm (tally : Tally) (action : SchedAction) : Prop :=
  tally.sched.RootOnly action ∧ tally.sched.panicFlag = false

/-- The process has had a CPU, or it waits as near as the choices made have brought it. -/
def Tally.Fair (index position : Nat) (tally : Tally) : Prop :=
  tally.ran = true ∨ ∃ place, tally.sched.WaitsAt index place ∧
    place + tally.choices = position + tally.wakeups

/-- A step leaves the process waiting at a place that the counts account for. -/
theorem Tally.Fair.of_place {index position place next : Nat} {tally : Tally} {sched : Sched}
    {action : SchedAction} {ran : Bool} (waits : sched.WaitsAt index next)
    (counts : place + tally.choices = position + tally.wakeups)
    (moved : next + (tally.sched.chooses action).toNat =
      place + (tally.sched.wakesOne action).toNat) :
    Tally.Fair index position
      { sched := sched
        choices := tally.choices + (tally.sched.chooses action).toNat
        wakeups := tally.wakeups + (tally.sched.wakesOne action).toNat
        ran := ran } := by
  refine Or.inr ⟨next, waits, ?_⟩
  change next + (tally.choices + _) = position + (tally.wakeups + _)
  omega

theorem Tally.Fair.step {index position : Nat} {tally after : Tally} {action : SchedAction}
    (fair : tally.Fair index position) (met : tally.Calm action)
    (stepped : tallyStep index tally action = .ok after) : after.Fair index position := by
  obtain ⟨next, taken, same⟩ := map_eq_ok stepped
  obtain ⟨rooted, calm⟩ := met
  obtain ⟨allowed, root⟩ := Sched.RootOnly.rules tally.sched action rooted
  rw [← same]
  rcases fair with ran | ⟨place, waits, counts⟩
  · left
    change (tally.ran || _) = true
    rw [ran, Bool.true_or]
  obtain ⟨queue, scheduled, here⟩ := id waits
  cases action with
  | createProc =>
      cases taken
      exact .of_place ⟨queue, Sched.Ordered.createProc scheduled, here⟩ counts rfl
  | createContainer =>
      cases taken
      exact .of_place ⟨queue, Sched.Ordered.createContainer scheduled, here⟩ counts rfl
  | setContainerParentToThis cpu container =>
      simp only [schedStep] at taken
      split at taken
      · cases taken
        exact .of_place (waits.same rfl rfl rfl rfl rfl) counts rfl
      · cases taken
  | setProcToContainer other container =>
      simp only [schedStep] at taken
      split at taken
      · cases taken
        exact .of_place (waits.same rfl rfl rfl rfl rfl) counts rfl
      · cases taken
  | startProc other =>
      simp only [schedStep] at taken
      split at taken
      · rename_i known
        have numbered : ({ tally.sched with
            maxPid := Function.update tally.sched.maxPid (tally.sched.container other)
              (tally.sched.maxPid (tally.sched.container other) + 1)
            localpid := Function.update tally.sched.localpid other
              (tally.sched.maxPid (tally.sched.container other) + 1) } : Sched).WaitsAt index
            place := waits.same rfl rfl rfl rfl rfl
        exact .of_place (numbered.activate known root taken) counts rfl
      · cases taken
  | activate other =>
      simp only [schedStep] at taken
      split at taken
      · rename_i known
        exact .of_place (waits.activate known root taken) counts rfl
      · cases taken
  | alert other =>
      simp only [schedStep] at taken
      split at taken
      · rename_i known
        exact .of_place (waits.activate known root taken) counts rfl
      · cases taken
  | setKilled task =>
      cases taken
      exact .of_place (waits.same rfl rfl rfl rfl rfl) counts rfl
  | setPanic =>
      cases taken
      exact .of_place (waits.same rfl rfl rfl rfl rfl) counts rfl
  | sched cpu newState =>
      rcases waits.simpleSched calm allowed root taken with current | ⟨nearer, still, moved⟩
      · left
        change (tally.ran || decide (∃ cpu, next.current cpu = .user index)) = true
        rw [decide_eq_true ⟨cpu, current⟩, Bool.or_true]
      · exact .of_place still counts moved

/-- A process that waits in the run queue gets a CPU before the scheduler has chosen more often
than there are processes before it in the queue and wake-ups since. -/
theorem waiting_process_runs {actions more : List SchedAction} {sched : Sched} {tally : Tally}
    {queue : List Nat} {position index : Nat}
    (run : Run schedStep Sched.RootOnly Sched.initial actions sched)
    (ring : IsRing sched.links (.head rootContainer) (queue.map .proc))
    (place : queue[position]? = some index)
    (onward : Run (tallyStep index) Tally.Calm (.start sched) more tally)
    (enough : position + tally.wakeups < tally.choices) : tally.ran = true := by
  obtain ⟨other, scheduled⟩ := Sched.Scheduled.of_run Sched.RootOnly.rules run
  have same : other = queue :=
    List.map_injective_iff.mpr (fun _ _ => SqNode.proc.inj) (scheduled.ring.unique ring)
  rw [same] at scheduled
  have fair : tally.Fair index position :=
    onward.invariant (P := Tally.Fair index position)
      (Or.inr ⟨position, ⟨queue, scheduled, place⟩, rfl⟩)
      (fun state action after holds met stepped => holds.step met stepped)
  rcases fair with ran | ⟨nearer, -, counts⟩
  · exact ran
  · omega

/-- Two processes have been started; the second one is before the first in the queue. -/
def twoWaiting : Sched :=
  match exec schedStep Sched.initial [.createProc, .createProc, .startProc 0, .startProc 1] with
  | .ok sched => sched
  | .error _ => Sched.initial

theorem twoWaiting_root (index : Nat) : twoWaiting.container index = rootContainer := by
  change Function.update (Function.update _ _ _) _ _ index = _
  simp [Sched.createProc, Sched.initial]

theorem waiting_process_runs_second :
    ∃ more tally, Run (tallyStep 0) Tally.Calm (.start twoWaiting) more tally ∧
      twoWaiting.state (.user 0) = .runnable ∧ tally.choices = 2 ∧ tally.ran = true := by
  have one : ∀ index, Sched.initial.createProc.container index = rootContainer := by
    intro index
    simp [Sched.createProc, Sched.initial]
  have run : Run schedStep Sched.RootOnly Sched.initial
      [.createProc, .createProc, .startProc 0, .startProc 1] twoWaiting :=
    Run.of_exec rfl
      ⟨⟨fun _ => rfl, trivial⟩, ⟨one, trivial⟩, ⟨twoWaiting_root, trivial⟩,
        ⟨twoWaiting_root, trivial⟩, trivial⟩
  have onward : Run (tallyStep 0) Tally.Calm (.start twoWaiting)
      [.sched ⟨2, by decide⟩ .runnable, .sched ⟨3, by decide⟩ .runnable] _ :=
    Run.of_exec rfl
      ⟨⟨⟨twoWaiting_root, by decide, fun _ _ => rfl⟩, rfl⟩,
        ⟨⟨twoWaiting_root, by decide, fun _ _ => rfl⟩, rfl⟩, trivial⟩
  have ran := @waiting_process_runs _ _ _ _ [1, 0] 1 0 run
    ⟨by decide, ⟨rfl, rfl⟩, ⟨rfl, rfl⟩, rfl, rfl⟩ rfl onward (by decide)
  exact ⟨_, _, onward, rfl, rfl, ran⟩

end LabKernel.Kernel
