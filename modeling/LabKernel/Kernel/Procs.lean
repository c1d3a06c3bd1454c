/-
What a sleeping or waking process sees of the scheduler.

Code that sleeps and is woken up does not look at the run queue or at the CPUs: it is enough
to know the state and the killed flag of every process. This is the view of the scheduler that
the semaphores, the message queues and the process tree are stated over, and the calls of the
scheduler do to it what the functions here say.
-/

import LabKernel.Kernel.Sched

set_option autoImplicit false

namespace LabKernel.Kernel

open Rings

structure Procs where
  state : Nat → ProcState
  killed : Nat → Bool

namespace Procs

variable (procs : Procs) (index : Nat)

def setState (state : ProcState) : Procs :=
  { procs with state := Function.update procs.state index state }

def setKilled : Procs :=
  { procs with killed := Function.update procs.killed index true }

def activate (onalert : Bool) : Procs :=
  if (procs.state index).wakes onalert then procs.setState index .runnable else procs

/-- `simple_sched` up to the choice of the next process: a killed process stays as it is. -/
def leave (newState : ProcState) : Procs :=
  if procs.killed index && newState ≠ .zombie && newState ≠ .deepSleeping then procs
  else procs.setState index newState

/-- Some runnable process is made to run, or none is. -/
def Dispatches (after : Procs) : Prop :=
  after = procs ∨ ∃ next, procs.state next = .runnable ∧ after = procs.setState next .running

variable {procs index} {other : Nat} {state : ProcState} {onalert : Bool}

@[simp]
theorem setState_self : (procs.setState index state).state index = state :=
  Function.update_self _ _ _

@[simp]
theorem setState_other (different : other ≠ index) :
    (procs.setState index state).state other = procs.state other :=
  Function.update_of_ne different _ _

theorem activate_other (different : other ≠ index) :
    (procs.activate index onalert).state other = procs.state other := by
  unfold activate
  split
  · exact setState_other different
  · rfl

theorem leave_other (different : other ≠ index) :
    (procs.leave index state).state other = procs.state other := by
  unfold leave
  split
  · rfl
  · exact setState_other different

theorem alert_deepSleeping (deep : procs.state index = .deepSleeping) :
    procs.activate index true = procs := by
  simp [activate, deep, ProcState.wakes]

theorem leave_deepSleeping :
    procs.leave index .deepSleeping = procs.setState index .deepSleeping := by
  simp [leave]

end Procs

/-! ### The states that the scheduler sets -/

namespace Sched

variable {sched after : Sched} {cpu : Fin ncpu} {newState : ProcState}

/-- The processes are as before. -/
def SameTasks (sched after : Sched) : Prop :=
  after.state = sched.state ∧ after.current = sched.current ∧ after.procs = sched.procs ∧
    after.killed = sched.killed

theorem SameTasks.rfl : SameTasks sched sched :=
  ⟨Eq.refl _, Eq.refl _, Eq.refl _, Eq.refl _⟩

theorem SameTasks.trans {third : Sched} (first : SameTasks sched after)
    (second : SameTasks after third) : SameTasks sched third :=
  ⟨second.1.trans first.1, second.2.1.trans first.2.1, second.2.2.1.trans first.2.2.1,
    second.2.2.2.trans first.2.2.2⟩

theorem insertIntoList_tasks {list : Option SqNode} {node : SqNode}
    (inserted : sched.insertIntoList list node = .ok after) : SameTasks sched after := by
  unfold insertIntoList at inserted
  split at inserted
  · cases inserted
    exact ⟨rfl, rfl, rfl, rfl⟩
  · split at inserted
    · cases inserted
    · cases inserted
      exact ⟨rfl, rfl, rfl, rfl⟩

theorem activateProc_tasks {index : Nat} {onalert woken : Bool}
    (activated : sched.activateProc (.user index) onalert = .ok (woken, after)) :
    ((sched.state (.user index)).wakes onalert = false ∧ after = sched) ∨
      ((sched.state (.user index)).wakes onalert = true ∧
        SameTasks (sched.setState (.user index) .runnable) after) := by
  simp only [activateProc] at activated
  split at activated
  · rename_i wakes
    split at activated
    · cases activated
    · rename_i inserted
      cases activated
      exact Or.inr ⟨wakes, insertIntoList_tasks inserted⟩
  · rename_i awake
    cases activated
    exact Or.inl ⟨Bool.eq_false_iff.mpr awake, rfl⟩

theorem startProc_tasks {index : Nat} {woken : Bool}
    (unused : sched.state (.user index) = .unused)
    (started : sched.startProc index = .ok (woken, after)) :
    SameTasks (sched.setState (.user index) .runnable) after := by
  rcases activateProc_tasks started with ⟨awake, -⟩ | ⟨-, same⟩
  · change (sched.state (.user index)).wakes false = false at awake
    rw [unused] at awake
    cases awake
  · exact same

theorem updateThisState_tasks (updated : sched.updateThisState cpu newState = .ok after) :
    (newState ≠ .unused ∧ newState ≠ .running) ∧
      SameTasks (sched.setState (sched.current cpu) newState) after := by
  cases newState with
  | unused => cases updated
  | running => cases updated
  | sleeping =>
      cases updated
      exact ⟨by decide, SameTasks.rfl⟩
  | deepSleeping =>
      cases updated
      exact ⟨by decide, SameTasks.rfl⟩
  | zombie =>
      cases updated
      exact ⟨by decide, SameTasks.rfl⟩
  | runnable =>
      refine ⟨by decide, ?_⟩
      simp only [updateThisState] at updated
      split at updated
      · cases updated
        exact SameTasks.rfl
      · rename_i index this
        split at updated
        · cases updated
        · rename_i inserted
          cases updated
          obtain ⟨state, others⟩ := insertIntoList_tasks inserted
          refine ⟨?_, others⟩
          change Function.update _ _ _ = Function.update _ _ _
          rw [state]

theorem pickNext_tasks {next : Task} (picked : sched.pickNext cpu = .ok (next, after)) :
    SameTasks sched after := by
  unfold pickNext at picked
  split at picked
  · cases picked
    exact SameTasks.rfl
  · split at picked
    · cases picked
    · cases picked
      exact SameTasks.rfl
    · split at picked
      · split at picked
        · cases picked
        · cases picked
          exact SameTasks.rfl
      · cases picked

/-- The caller leaves the running state and a runnable process enters it. -/
structure Hands (sched : Sched) (cpu : Fin ncpu) (next : Task) (left : ProcState)
    (after : Sched) : Prop where
  stopped : left ≠ .unused ∧ left ≠ .running
  ready : Function.update sched.state (sched.current cpu) left next = .runnable
  state : after.state = Function.update
    (Function.update sched.state (sched.current cpu) left) next .running
  current : after.current = Function.update sched.current cpu next
  procs : after.procs = sched.procs
  killed : after.killed = sched.killed

theorem simpleSched_tasks (scheduled : sched.simpleSched cpu newState = .ok after) :
    ((sched.killed (sched.current cpu) && newState ≠ .zombie && newState ≠ .deepSleeping) = true ∧
        after = sched) ∨
      ((sched.killed (sched.current cpu) && newState ≠ .zombie && newState ≠ .deepSleeping) = false ∧
        ∃ next, Hands sched cpu next newState after) := by
  unfold simpleSched at scheduled
  split at scheduled
  · cases scheduled
  · split at scheduled
    · rename_i killed
      cases scheduled
      exact Or.inl ⟨killed, rfl⟩
    · rename_i alive
      split at scheduled
      · cases scheduled
      · rename_i updated leaves
        split at scheduled
        · cases scheduled
        · rename_i next picked taken
          split at scheduled
          · cases scheduled
          · rename_i ready
            cases scheduled
            obtain ⟨stopped, same⟩ := updateThisState_tasks leaves
            obtain ⟨state, current, procs, unkilled⟩ := same.trans (pickNext_tasks taken)
            refine Or.inr ⟨Bool.eq_false_iff.mpr alive, next, stopped, ?_, ?_, ?_, procs, unkilled⟩
            · change (sched.setState (sched.current cpu) newState).state next = .runnable
              rw [← state]
              exact not_not.mp ready
            · change Function.update picked.state next _ = _
              rw [state]
              rfl
            · change Function.update picked.current cpu next = _
              rw [current]
              rfl

theorem createProc_tasks : SameTasks sched.createProc sched.createContainer :=
  ⟨rfl, rfl, rfl, rfl⟩

/-! ### The processes as seen from above -/

def view (sched : Sched) : Procs :=
  { state := fun index => sched.state (.user index)
    killed := fun index => sched.killed (.user index) }

theorem view_setState_user (sched : Sched) (index : Nat) (state : ProcState) :
    (sched.setState (.user index) state).view = sched.view.setState index state := by
  unfold view setState Procs.setState
  congr 1
  funext other
  by_cases same : other = index
  · simp [same]
  · simp [same]

theorem view_setState_idle (sched : Sched) (owner : Fin ncpu) (state : ProcState) :
    (sched.setState (.idle owner) state).view = sched.view := by
  unfold view setState
  congr 1

theorem SameTasks.view (same : SameTasks sched after) : after.view = sched.view := by
  obtain ⟨state, -, -, killed⟩ := same
  unfold Sched.view
  rw [state, killed]

theorem activateProc_view {index : Nat} {onalert woken : Bool}
    (activated : sched.activateProc (.user index) onalert = .ok (woken, after)) :
    after.view = sched.view.activate index onalert := by
  rcases activateProc_tasks activated with ⟨asleep, same⟩ | ⟨wakes, same⟩
  · rw [same]
    exact (if_neg (Bool.eq_false_iff.mp asleep)).symm
  · rw [same.view, view_setState_user]
    exact (if_pos wakes).symm

theorem Hands.view {next : Task} (hands : Hands sched cpu next newState after) :
    (sched.setState (sched.current cpu) newState).view.Dispatches after.view := by
  have same : after.view =
      ((sched.setState (sched.current cpu) newState).setState next .running).view := by
    unfold Sched.view
    rw [hands.state, hands.killed]
    rfl
  cases next with
  | idle owner =>
      rw [same, view_setState_idle]
      exact Or.inl rfl
  | user next =>
      rw [same, view_setState_user]
      exact Or.inr ⟨next, hands.ready, rfl⟩

theorem simpleSched_user {index : Nat} (this : sched.current cpu = .user index)
    (scheduled : sched.simpleSched cpu newState = .ok after) :
    (sched.view.leave index newState).Dispatches after.view := by
  rcases simpleSched_tasks scheduled with ⟨killed, same⟩ | ⟨alive, next, hands⟩
  · rw [this] at killed
    rw [same]
    exact Or.inl (if_pos killed).symm
  · have given := hands.view
    rw [this, view_setState_user] at given
    rw [this] at alive
    have left : sched.view.leave index newState = sched.view.setState index newState :=
      if_neg (Bool.eq_false_iff.mp alive)
    rw [left]
    exact given

theorem simpleSched_idle {owner : Fin ncpu} (this : sched.current cpu = .idle owner)
    (scheduled : sched.simpleSched cpu newState = .ok after) :
    sched.view.Dispatches after.view := by
  rcases simpleSched_tasks scheduled with ⟨-, same⟩ | ⟨-, next, hands⟩
  · rw [same]
    exact Or.inl rfl
  · have given := hands.view
    rw [this, view_setState_idle] at given
    exact given

end Sched

end LabKernel.Kernel
