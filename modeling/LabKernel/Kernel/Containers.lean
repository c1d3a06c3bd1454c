/-
The search through the run queues of the containers.

A container made by `create_container` keeps the null links its memory was cleared to, and is
never linked into the queue of its parent. So a process can be put into the queue of the root
container only, and there the search finds it.
-/

import LabKernel.Kernel.RunQueue
import Mathlib.Data.List.Perm.Subperm

set_option autoImplicit false

namespace LabKernel.Kernel

open Rings Transition

namespace Sched

variable {sched : Sched} {queue : List Nat}

def nodesOf (sched : Sched) (container : Nat) : List SqNode :=
  sched.links.walk (.head container) (sched.procs + 2 * sched.containers + 1)
    (sched.links.next (.head container))

/-- The process is somewhere in the queue of a container or in that of a group inside it. -/
inductive Reaches (sched : Sched) : Nat → Nat → Prop
  | proc {container index : Nat} (listed : .proc index ∈ sched.nodesOf container) :
      Reaches sched container index
  | group {container inner index : Nat} (listed : .group inner ∈ sched.nodesOf container)
      (marked : sched.group inner = true) (within : Reaches sched inner index) :
      Reaches sched container index

/-- The rules of the callers, and that only processes of the root container are enqueued. -/
def RootEnqueued (sched : Sched) (action : SchedAction) : Prop :=
  sched.CallerRules action ∧ sched.EnqueuesInRoot action

/-- There are no more runnable processes than processes. -/
theorem Ordered.queue_length (scheduled : sched.Scheduled queue) : queue.length ≤ sched.procs := by
  have bounded : ∀ index ∈ queue, index < sched.procs := by
    intro index member
    by_contra later
    have unused := scheduled.created index (Nat.le_of_not_lt later)
    rw [(scheduled.queued index).mp member] at unused
    cases unused
  have within : queue ⊆ List.range sched.procs := by
    intro index member
    exact List.mem_range.mpr (bounded index member)
  have shorter := (List.subperm_of_subset (Ordered.queue_nodup scheduled) within).length_le
  rw [List.length_range] at shorter
  exact shorter

theorem Ordered.nodesOf_root (scheduled : sched.Scheduled queue) :
    sched.nodesOf rootContainer = queue.map .proc := by
  unfold nodesOf
  apply scheduled.ring.walk_eq
  have shorter := Ordered.queue_length scheduled
  rw [List.length_map]
  omega

theorem Ordered.reaches (scheduled : sched.Scheduled queue) {index : Nat}
    (ready : sched.state (.user index) = .runnable) : sched.Reaches rootContainer index := by
  apply Reaches.proc
  rw [Ordered.nodesOf_root scheduled]
  exact List.mem_map_of_mem ((scheduled.queued index).mpr ready)

theorem Ordered.pickNext_idle (scheduled : sched.Scheduled queue) (calm : sched.panicFlag = false)
    (cpu : Fin ncpu) :
    (∃ owner after, sched.pickNext cpu = .ok (.idle owner, after)) ↔
      ∀ index, sched.state (.user index) ≠ .runnable := by
  have queued := scheduled.queued
  unfold Sched.pickNext
  rw [calm, pickInQueue_eq scheduled.ring]
  cases queue with
  | nil =>
      constructor
      · intro _ index ready
        cases (queued index).mpr ready
      · intro _
        exact ⟨cpu, sched, rfl⟩
  | cons index rest =>
      have ready := (queued index).mp List.mem_cons_self
      constructor
      · rintro ⟨owner, after, picked⟩
        simp only [List.head?_cons, ready, if_true] at picked
        cases detached : sched.links.detach (.proc index) with
        | none => simp [detached] at picked
        | some links => simp [detached] at picked
      · intro none
        exact absurd ready (none index)

end Sched

open Sched

theorem container_scheduling {actions : List SchedAction} {sched : Sched}
    (run : Run schedStep RootEnqueued Sched.initial actions sched) :
    (∀ index onalert, index < sched.procs →
      (sched.state (.user index)).wakes onalert = true →
      sched.container index = rootContainer →
        (∃ nodes, IsRing sched.links (.head (sched.container index)) nodes) ∧
        ∃ after, sched.activateProc (.user index) onalert = .ok (true, after)) ∧
    (∀ action, sched.RootEnqueued action → schedStep sched action = .error .disabled ∨
      ∃ after, schedStep sched action = .ok after) ∧
    (∀ index, sched.state (.user index) = .runnable → sched.Reaches rootContainer index) ∧
    (sched.panicFlag = false → ∀ cpu,
      (∃ owner after, sched.pickNext cpu = .ok (.idle owner, after)) ↔
        ∀ index, sched.state (.user index) ≠ .runnable) := by
  obtain ⟨queue, scheduled⟩ := Scheduled.of_run (fun _ _ met => met) run
  refine ⟨?_, ?_, fun _ => Ordered.reaches scheduled, Ordered.pickNext_idle scheduled⟩
  · intro index onalert known wakes root
    obtain ⟨links, activated, -⟩ := Ordered.activateProc scheduled known wakes root
    rw [root]
    exact ⟨⟨_, scheduled.ring⟩, _, activated⟩
  · intro action met
    rcases Ordered.step scheduled met.1 met.2 with stopped | ⟨after, _, went, -⟩
    · exact Or.inl stopped
    · exact Or.inr ⟨after, went⟩

/-- A container is there, and a process in the root container is started. -/
theorem container_scheduling_beside_container :
    ∃ actions sched, Run schedStep RootEnqueued Sched.initial actions sched ∧
      sched.containers = 2 ∧ sched.state (.user 1) = .runnable ∧
      sched.Reaches rootContainer 1 := by
  have run : Run schedStep RootEnqueued Sched.initial [.createContainer, .createProc,
      .setProcToContainer 0 1, .startProc 1] _ :=
    Run.of_exec rfl
      ⟨⟨trivial, trivial⟩, ⟨trivial, trivial⟩, ⟨trivial, trivial⟩, ⟨trivial, fun _ => rfl⟩, trivial⟩
  exact ⟨_, _, run, rfl, rfl, (container_scheduling run).2.2.1 1 rfl⟩

/-- Starting a process in a container that `create_container` returned follows a null link. -/
theorem start_in_created_container :
    ∃ sched, Reachable schedStep Sched.initial sched ∧ sched.container 2 ≠ rootContainer ∧
      sched.state (.user 2) = .unused ∧
      schedStep sched (.startProc 2) = .error .nullLink := by
  have reached : Reachable schedStep Sched.initial _ :=
    ⟨[.createProc, .startProc 0, .sched ⟨0, by decide⟩ .runnable, .createContainer,
      .setContainerParentToThis ⟨0, by decide⟩ 1, .createProc, .setProcToContainer 2 1],
      Run.of_exec rfl (Guarded.trivial _ _)⟩
  exact ⟨_, reached, by decide, rfl, rfl⟩

end LabKernel.Kernel
