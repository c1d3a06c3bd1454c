/-
The run queue of the root container.

As long as only processes of the root container are put into a queue, that queue is a ring of
exactly the runnable processes, the current processes are exactly the running ones, and no
assertion of the scheduler fails.
-/

import LabKernel.Kernel.Sched
import Mathlib.Data.List.Nodup

set_option autoImplicit false

namespace LabKernel.Kernel

open Rings Transition

theorem ProcState.wakes_asleep {state : ProcState} {onalert : Bool}
    (wakes : state.wakes onalert = true) : state ≠ .running ∧ state ≠ .runnable := by
  cases state <;> simp [ProcState.wakes] at wakes ⊢

/-! ### What the scheduler keeps -/

/-- The processes and the run queue agree. The CPUs that are `busy` have a current process; one
that is not is between two processes. -/
structure Sched.Ordered (sched : Sched) (busy : Fin ncpu → Prop) (queue : List Nat) : Prop where
  ring : IsRing sched.links (.head rootContainer) (queue.map .proc)
  queued : ∀ index, index ∈ queue ↔ sched.state (.user index) = .runnable
  running : ∀ task, sched.state task = .running ↔ ∃ cpu, busy cpu ∧ sched.current cpu = task
  apart : ∀ cpu other, busy cpu → busy other → sched.current cpu = sched.current other →
    cpu = other
  idle : ∀ cpu, sched.state (.idle cpu) = .running ∨ sched.state (.idle cpu) = .runnable
  home : ∀ cpu owner, busy cpu → sched.current cpu = .idle owner → owner = cpu
  created : ∀ index, sched.procs ≤ index → sched.state (.user index) = .unused
  rooted : rootContainer < sched.containers

def Sched.Scheduled (sched : Sched) (queue : List Nat) : Prop :=
  sched.Ordered (fun _ => True) queue

namespace Sched

variable {sched : Sched} {busy : Fin ncpu → Prop} {queue : List Nat}

theorem Ordered.initial : Sched.initial.Scheduled [] := by
  constructor
  · constructor
    · simp
    · exact ⟨rfl, rfl⟩
  · intro index
    simp [Sched.initial]
  · intro task
    cases task with
    | idle cpu => simp [Sched.initial]
    | user index => simp [Sched.initial]
  · intro cpu other _ _ same
    exact Task.idle.inj same
  · intro cpu
    exact Or.inl rfl
  · intro cpu owner _ same
    exact (Task.idle.inj same).symm
  · intro index _
    rfl
  · exact Nat.zero_lt_one

theorem Ordered.mem_nodes (ordered : sched.Ordered busy queue) {index : Nat} :
    SqNode.proc index ∈ SqNode.head rootContainer :: queue.map .proc ↔
      sched.state (.user index) = .runnable := by
  rw [← ordered.queued index]
  simp

theorem Ordered.fresh_node (ordered : sched.Ordered busy queue) {index : Nat}
    (asleep : sched.state (.user index) ≠ .runnable) :
    SqNode.proc index ∉ SqNode.head rootContainer :: queue.map .proc := by
  rw [ordered.mem_nodes]
  exact asleep

/-- Nothing that counts here has changed. -/
theorem Ordered.same {after : Sched} (ordered : sched.Ordered busy queue)
    (links : after.links = sched.links) (state : after.state = sched.state)
    (current : after.current = sched.current) (procs : after.procs = sched.procs)
    (containers : after.containers = sched.containers) : after.Ordered busy queue := by
  obtain ⟨ring, queued, running, apart, idle, home, created, rooted⟩ := ordered
  constructor
  · rw [links]
    exact ring
  · rw [state]
    exact queued
  · rw [state, current]
    exact running
  · rw [current]
    exact apart
  · rw [state]
    exact idle
  · rw [current]
    exact home
  · rw [state, procs]
    exact created
  · rw [containers]
    exact rooted

/-! ### New processes and containers -/

theorem Ordered.createProc_state (ordered : sched.Ordered busy queue) :
    sched.createProc.state = sched.state := by
  change Function.update sched.state (.user sched.procs) .unused = _
  rw [← ordered.created sched.procs (Nat.le_refl _), Function.update_eq_self]

theorem Ordered.createProc (ordered : sched.Ordered busy queue) :
    sched.createProc.Ordered busy queue := by
  have unused := ordered.created sched.procs (Nat.le_refl _)
  have same := ordered.createProc_state
  have outside : SqNode.proc sched.procs ∉ SqNode.head rootContainer :: queue.map .proc := by
    apply ordered.fresh_node
    rw [unused]
    simp
  constructor
  · apply ordered.ring.frame
    intro node member
    have other : node ≠ .proc sched.procs := fun same => outside (same ▸ member)
    constructor
    · exact Function.update_of_ne other _ _
    · exact Function.update_of_ne other _ _
  · rw [same]
    exact ordered.queued
  · rw [same]
    exact ordered.running
  · exact ordered.apart
  · rw [same]
    exact ordered.idle
  · exact ordered.home
  · intro index later
    rw [same]
    exact ordered.created index (Nat.le_of_succ_le later)
  · exact ordered.rooted

theorem Ordered.createContainer (ordered : sched.Ordered busy queue) :
    sched.createContainer.Ordered busy queue := by
  obtain ⟨ring, queued, running, apart, idle, home, created, rooted⟩ := ordered.createProc
  constructor
  · apply ring.frame
    intro node member
    have head : node ≠ .head sched.containers := by
      intro same
      rw [same] at member
      simp at member
      exact absurd member (Nat.ne_of_gt rooted)
    have group : node ≠ .group sched.containers := by
      intro same
      rw [same] at member
      simp at member
    constructor
    · simp [Sched.createContainer, head, group]
    · simp [Sched.createContainer, head, group]
  · exact queued
  · exact running
  · exact apart
  · exact idle
  · exact home
  · exact created
  · exact Nat.lt_succ_of_lt rooted

/-! ### Waking up -/

/-- A process that is neither running nor runnable is made runnable with its node put into the
queue. -/
theorem Ordered.wake (ordered : sched.Ordered busy queue) {index : Nat} {links : Links SqNode}
    {queue' : List Nat} (known : index < sched.procs)
    (asleep : sched.state (.user index) ≠ .running)
    (ring : IsRing links (.head rootContainer) (queue'.map .proc))
    (members : ∀ other, other ∈ queue' ↔ other = index ∨ other ∈ queue) :
    ((sched.setState (.user index) .runnable).setLinks links).Ordered busy queue' := by
  constructor
  · exact ring
  · intro other
    rw [members, ordered.queued]
    change _ ↔ Function.update sched.state (.user index) .runnable (.user other) = _
    by_cases same : other = index
    · simp [same]
    · simp [same]
  · intro task
    change Function.update sched.state (.user index) .runnable task = _ ↔
      ∃ cpu, busy cpu ∧ sched.current cpu = task
    rw [← ordered.running task]
    by_cases same : task = .user index
    · rw [same, Function.update_self]
      simp [asleep]
    · rw [Function.update_of_ne same]
  · exact ordered.apart
  · intro cpu
    change Function.update sched.state (.user index) .runnable (.idle cpu) = _ ∨
      Function.update sched.state (.user index) .runnable (.idle cpu) = _
    rw [Function.update_of_ne (by simp)]
    exact ordered.idle cpu
  · exact ordered.home
  · intro other later
    change Function.update sched.state (.user index) .runnable (.user other) = _
    have different : Task.user other ≠ .user index := by
      intro equal
      have same := Task.user.inj equal
      change sched.procs ≤ other at later
      omega
    rw [Function.update_of_ne different]
    exact ordered.created other later
  · exact ordered.rooted

theorem Ordered.activateProc (ordered : sched.Ordered busy queue) {index : Nat} {onalert : Bool}
    (known : index < sched.procs)
    (wakes : (sched.state (.user index)).wakes onalert = true)
    (root : sched.container index = rootContainer) :
    ∃ links, sched.activateProc (.user index) onalert =
        .ok (true, (sched.setState (.user index) .runnable).setLinks links) ∧
      ((sched.setState (.user index) .runnable).setLinks links).Ordered busy (index :: queue) := by
  obtain ⟨waiting, unqueued⟩ := ProcState.wakes_asleep wakes
  obtain ⟨links, inserted, ring, -⟩ := ordered.ring.insert_first (ordered.fresh_node unqueued)
  have linked : (sched.setState (.user index) .runnable).links.insert (.head rootContainer)
      (.proc index) = some links := inserted
  refine ⟨links, ?_, ?_⟩
  · simp only [Sched.activateProc, wakes, if_true, insertIntoList, root, linked]
  · apply ordered.wake known waiting
    · rw [List.map_cons]
      exact ring
    · intro other
      exact List.mem_cons

theorem activateProc_awake {index : Nat} {onalert : Bool}
    (awake : (sched.state (.user index)).wakes onalert = false) :
    sched.activateProc (.user index) onalert = .ok (false, sched) := by
  simp [Sched.activateProc, awake]

/-! ### Giving up the CPU -/

variable {cpu : Fin ncpu} {newState : ProcState}

/-- The current process gets another state, and its node is put into the queue if that state is
runnable. -/
theorem Ordered.leave (scheduled : sched.Scheduled queue) {links : Links SqNode}
    {queue' : List Nat} (stopped : newState ≠ .running)
    (idle : ∀ owner, sched.current cpu = .idle owner → newState = .runnable)
    (ring : IsRing links (.head rootContainer) (queue'.map .proc))
    (members : ∀ other, other ∈ queue' ↔
      (sched.current cpu = .user other ∧ newState = .runnable) ∨ other ∈ queue) :
    ((sched.setLinks links).setState (sched.current cpu) newState).Ordered (fun other => other ≠ cpu)
      queue' := by
  have runs : sched.state (sched.current cpu) = .running :=
    (scheduled.running _).mpr ⟨cpu, trivial, rfl⟩
  constructor
  · exact ring
  · intro other
    rw [members, scheduled.queued]
    change _ ↔ Function.update sched.state (sched.current cpu) newState (.user other) = _
    by_cases same : Task.user other = sched.current cpu
    · rw [same, Function.update_self]
      simp [runs]
    · rw [Function.update_of_ne same]
      simp [Ne.symm same]
  · intro task
    change Function.update sched.state (sched.current cpu) newState task = _ ↔
      ∃ other, other ≠ cpu ∧ sched.current other = task
    by_cases same : task = sched.current cpu
    · rw [same, Function.update_self]
      constructor
      · intro going
        exact absurd going stopped
      · rintro ⟨other, apart, equal⟩
        exact absurd (scheduled.apart other cpu trivial trivial equal) apart
    · rw [Function.update_of_ne same, scheduled.running]
      constructor
      · rintro ⟨other, -, equal⟩
        refine ⟨other, ?_, equal⟩
        intro here
        rw [here] at equal
        exact same equal.symm
      · rintro ⟨other, -, equal⟩
        exact ⟨other, trivial, equal⟩
  · intro one other _ _ equal
    exact scheduled.apart one other trivial trivial equal
  · intro owner
    change Function.update sched.state (sched.current cpu) newState (.idle owner) = _ ∨
      Function.update sched.state (sched.current cpu) newState (.idle owner) = _
    by_cases same : Task.idle owner = sched.current cpu
    · rw [same, Function.update_self]
      exact Or.inr (idle owner same.symm)
    · rw [Function.update_of_ne same]
      exact scheduled.idle owner
  · intro other owner _ equal
    exact scheduled.home other owner trivial equal
  · intro index later
    change Function.update sched.state (sched.current cpu) newState (.user index) = _
    have unused := scheduled.created index later
    have different : Task.user index ≠ sched.current cpu := by
      intro same
      rw [same, runs] at unused
      cases unused
    rw [Function.update_of_ne different]
    exact unused
  · exact scheduled.rooted

/-- What `simple_sched` may be asked for: one of four states, and by an idle process only to
run again. -/
def MayEnter (sched : Sched) (cpu : Fin ncpu) (newState : ProcState) : Prop :=
  newState ∈ [ProcState.runnable, .sleeping, .deepSleeping, .zombie] ∧
    ∀ owner, sched.current cpu = .idle owner → newState = .runnable

/-- The processes that wait once the current process of a CPU has entered a state: a process that
stays runnable is behind the others. -/
def waiting (sched : Sched) (cpu : Fin ncpu) (newState : ProcState) (queue : List Nat) : List Nat :=
  match sched.current cpu with
  | .idle _ => queue
  | .user index => if newState = .runnable then queue ++ [index] else queue

theorem waiting_idle {owner : Fin ncpu} (this : sched.current cpu = .idle owner) :
    sched.waiting cpu newState queue = queue := by
  simp [waiting, this]

theorem waiting_gone (gone : newState ≠ .runnable) :
    sched.waiting cpu newState queue = queue := by
  unfold waiting
  split
  · rfl
  · exact if_neg gone

theorem Ordered.updateThisState (scheduled : sched.Scheduled queue)
    (allowed : sched.MayEnter cpu newState)
    (root : ∀ index, sched.current cpu = .user index → newState = .runnable →
      sched.container index = rootContainer) :
    ∃ links, sched.updateThisState cpu newState =
        .ok ((sched.setLinks links).setState (sched.current cpu) newState) ∧
      ((sched.setLinks links).setState (sched.current cpu) newState).Ordered
        (fun other => other ≠ cpu) (sched.waiting cpu newState queue) := by
  obtain ⟨states, idle⟩ := allowed
  have stopped : newState ≠ .running := by
    intro going
    simp [going] at states
  have unqueued : newState ≠ .runnable ∨ (∃ owner, sched.current cpu = .idle owner) →
      ((sched.setLinks sched.links).setState (sched.current cpu) newState).Ordered
        (fun other => other ≠ cpu) (sched.waiting cpu newState queue) := by
    intro out
    have same : sched.waiting cpu newState queue = queue := by
      rcases out with gone | ⟨owner, this⟩
      · exact waiting_gone gone
      · exact waiting_idle this
    rw [same]
    apply Ordered.leave scheduled stopped idle scheduled.ring
    intro other
    constructor
    · exact Or.inr
    · rintro (⟨user, going⟩ | member)
      · rcases out with still | ⟨owner, equal⟩
        · exact absurd going still
        · rw [equal] at user
          cases user
      · exact member
  cases newState with
  | runnable =>
      cases this : sched.current cpu with
      | idle owner =>
          refine ⟨sched.links, ?_, ?_⟩
          · simp [Sched.updateThisState, this, setLinks]
          · rw [← this]
            exact unqueued (Or.inr ⟨owner, this⟩)
      | user index =>
          have runs : sched.state (.user index) = .running :=
            (scheduled.running _).mpr ⟨cpu, trivial, this⟩
          have taken : sched.state (.user index) ≠ .runnable := by simp [runs]
          obtain ⟨left, last, links, inserted, ring, -⟩ :=
            scheduled.ring.insert_last (Ordered.fresh_node scheduled taken)
          have behind : sched.waiting cpu .runnable queue = queue ++ [index] := by
            simp [waiting, this]
          refine ⟨links, ?_, ?_⟩
          · simp only [Sched.updateThisState, this, root index this rfl, insertIntoList, last,
              inserted]
          · rw [behind, ← this]
            apply Ordered.leave scheduled stopped idle
            · rw [List.map_append]
              exact ring
            · intro other
              simp only [List.mem_append, List.mem_singleton, this, Task.user.injEq, and_true]
              rw [or_comm, eq_comm]
  | sleeping => exact ⟨sched.links, rfl, unqueued (Or.inl (by simp))⟩
  | deepSleeping => exact ⟨sched.links, rfl, unqueued (Or.inl (by simp))⟩
  | zombie => exact ⟨sched.links, rfl, unqueued (Or.inl (by simp))⟩
  | unused => simp at states
  | running => simp at states

/-! ### Picking the next process -/

/-- The search ends at the first node of a queue without groups. -/
theorem pickInQueue_eq (ring : IsRing sched.links (.head rootContainer) (queue.map .proc)) :
    sched.pickInQueue rootContainer = .ok queue.head? := by
  have next := ring.path.first_linked.1
  unfold pickInQueue
  rw [next]
  cases queue with
  | nil => simp [pickFrom]
  | cons index rest => simp [pickFrom]

/-- A runnable process becomes the current one of a CPU that had none, and its node is taken
out of the queue. -/
theorem Ordered.enter (ordered : sched.Ordered (fun other => other ≠ cpu) queue)
    {links : Links SqNode} {queue' : List Nat} {next : Task}
    (ready : sched.state next = .runnable) (home : ∀ owner, next = .idle owner → owner = cpu)
    (ring : IsRing links (.head rootContainer) (queue'.map .proc))
    (members : ∀ other, other ∈ queue' ↔ other ∈ queue ∧ next ≠ .user other) :
    (((sched.setLinks links).updateThisProc cpu next).setState next .running).Scheduled queue' := by
  have elsewhere : ∀ other, other ≠ cpu → sched.current other ≠ next := by
    intro other apart equal
    have runs := (ordered.running next).mpr ⟨other, apart, equal⟩
    rw [ready] at runs
    cases runs
  constructor
  · exact ring
  · intro other
    rw [members, ordered.queued]
    change _ ↔ Function.update sched.state next .running (.user other) = _
    by_cases same : Task.user other = next
    · simp [same]
    · rw [Function.update_of_ne same]
      simp [Ne.symm same]
  · intro task
    change Function.update sched.state next .running task = _ ↔
      ∃ other, True ∧ Function.update sched.current cpu next other = task
    by_cases same : task = next
    · rw [same, Function.update_self]
      simp only [true_and, true_iff]
      exact ⟨cpu, Function.update_self _ _ _⟩
    · rw [Function.update_of_ne same, ordered.running]
      constructor
      · rintro ⟨other, apart, equal⟩
        refine ⟨other, trivial, ?_⟩
        rw [Function.update_of_ne apart]
        exact equal
      · rintro ⟨other, -, equal⟩
        by_cases here : other = cpu
        · rw [here, Function.update_self] at equal
          exact absurd equal.symm same
        · rw [Function.update_of_ne here] at equal
          exact ⟨other, here, equal⟩
  · intro one other _ _ equal
    change Function.update sched.current cpu next one = Function.update sched.current cpu next other
      at equal
    by_cases first : one = cpu
    · by_cases second : other = cpu
      · rw [first, second]
      · rw [first, Function.update_self, Function.update_of_ne second] at equal
        exact absurd equal.symm (elsewhere other second)
    · rw [Function.update_of_ne first] at equal
      by_cases second : other = cpu
      · rw [second, Function.update_self] at equal
        exact absurd equal (elsewhere one first)
      · rw [Function.update_of_ne second] at equal
        exact ordered.apart one other first second equal
  · intro owner
    change Function.update sched.state next .running (.idle owner) = _ ∨
      Function.update sched.state next .running (.idle owner) = _
    by_cases same : Task.idle owner = next
    · rw [same, Function.update_self]
      exact Or.inl rfl
    · rw [Function.update_of_ne same]
      exact ordered.idle owner
  · intro other owner _ equal
    change Function.update sched.current cpu next other = _ at equal
    by_cases here : other = cpu
    · rw [here, Function.update_self] at equal
      rw [here]
      exact home owner equal
    · rw [Function.update_of_ne here] at equal
      exact ordered.home other owner here equal
  · intro index later
    change Function.update sched.state next .running (.user index) = _
    have unused := ordered.created index later
    have different : Task.user index ≠ next := by
      intro same
      rw [same, ready] at unused
      cases unused
    rw [Function.update_of_ne different]
    exact unused
  · exact ordered.rooted

theorem Ordered.idle_ready (ordered : sched.Ordered (fun other => other ≠ cpu) queue) :
    sched.state (.idle cpu) = .runnable := by
  rcases ordered.idle cpu with runs | ready
  · obtain ⟨other, apart, equal⟩ := (ordered.running _).mp runs
    exact absurd (ordered.home other cpu apart equal).symm apart
  · exact ready

theorem Ordered.enter_idle (ordered : sched.Ordered (fun other => other ≠ cpu) queue) :
    (((sched.setLinks sched.links).updateThisProc cpu (.idle cpu)).setState (.idle cpu)
      .running).Scheduled queue := by
  apply ordered.enter ordered.idle_ready
  · intro owner equal
    exact (Task.idle.inj equal).symm
  · exact ordered.ring
  · intro other
    simp

/-- Who gets a CPU, and who is left waiting: the first one waits no longer. -/
def chosen (sched : Sched) (cpu : Fin ncpu) (queue : List Nat) : Task × List Nat :=
  if sched.panicFlag then (.idle cpu, queue)
  else
    match queue with
    | [] => (.idle cpu, [])
    | index :: rest => (.user index, rest)

theorem Ordered.pickNext (ordered : sched.Ordered (fun other => other ≠ cpu) queue) :
    ∃ links, sched.pickNext cpu = .ok ((sched.chosen cpu queue).1, sched.setLinks links) ∧
      sched.state (sched.chosen cpu queue).1 = .runnable ∧
      (((sched.setLinks links).updateThisProc cpu (sched.chosen cpu queue).1).setState
        (sched.chosen cpu queue).1 .running).Scheduled (sched.chosen cpu queue).2 := by
  unfold Sched.pickNext chosen
  split
  · exact ⟨sched.links, rfl, ordered.idle_ready, ordered.enter_idle⟩
  · rw [pickInQueue_eq ordered.ring]
    cases queue with
    | nil => exact ⟨sched.links, rfl, ordered.idle_ready, ordered.enter_idle⟩
    | cons index rest =>
        have ready : sched.state (.user index) = .runnable :=
          (ordered.queued index).mp List.mem_cons_self
        have whole : IsRing sched.links (.head rootContainer)
            ([] ++ SqNode.proc index :: rest.map .proc) := ordered.ring
        obtain ⟨links, detached, ring, -⟩ := whole.detach
        refine ⟨links, ?_, ready, ?_⟩
        · simp only [List.head?_cons, ready, if_true, detached]
        · apply ordered.enter ready
          · intro owner equal
            cases equal
          · exact ring
          · intro other
            have outside : index ∉ rest := by
              have distinct := (List.nodup_cons.mp ordered.ring.distinct).2
              exact (List.nodup_cons.mp (List.Nodup.of_map _ distinct)).1
            constructor
            · intro member
              constructor
              · exact List.mem_cons_of_mem index member
              · intro equal
                rw [← Task.user.inj equal] at member
                exact outside member
            · rintro ⟨member, different⟩
              rcases List.mem_cons.mp member with same | later
              · exact absurd (congrArg Task.user same).symm different
              · exact later

def KeepsZombies (before after : Sched) : Prop :=
  ∀ task, before.state task = .zombie → after.state task = .zombie

/-- A call of `simple_sched`: a killed process goes on, and otherwise the CPU gets the process
that has waited longest. -/
theorem Ordered.simpleSched_queue (scheduled : sched.Scheduled queue)
    (allowed : sched.MayEnter cpu newState)
    (root : ∀ index, sched.current cpu = .user index → sched.killed (.user index) = false →
      newState = .runnable → sched.container index = rootContainer) :
    ∃ after, sched.simpleSched cpu newState = .ok after ∧ sched.KeepsZombies after ∧
      ((sched.killed (sched.current cpu) && newState ≠ .zombie && newState ≠ .deepSleeping) = true ∧
        after = sched ∨
      (sched.killed (sched.current cpu) && newState ≠ .zombie && newState ≠ .deepSleeping) = false ∧
        after.panicFlag = sched.panicFlag ∧
        after.current = Function.update sched.current cpu
          (sched.chosen cpu (sched.waiting cpu newState queue)).1 ∧
        after.Scheduled (sched.chosen cpu (sched.waiting cpu newState queue)).2) := by
  have runs : sched.state (sched.current cpu) = .running :=
    (scheduled.running _).mpr ⟨cpu, trivial, rfl⟩
  unfold Sched.simpleSched
  rw [if_neg (by simp [runs])]
  split
  · rename_i killed
    exact ⟨sched, rfl, fun _ zombie => zombie, Or.inl ⟨killed, rfl⟩⟩
  · rename_i alive
    obtain ⟨links, updated, between⟩ := Ordered.updateThisState scheduled allowed (by
      intro index this going
      apply root index this _ going
      simpa [this, going] using alive)
    obtain ⟨links', picked, ready, after⟩ := between.pickNext
    rw [updated]
    simp only [picked]
    refine ⟨_, if_neg (not_not.mpr ready), ?_, Or.inr ⟨Bool.eq_false_iff.mpr alive, rfl, rfl, after⟩⟩
    intro task zombie
    change Function.update (Function.update sched.state (sched.current cpu) newState) _ .running
      task = _
    change Function.update sched.state (sched.current cpu) newState _ = _ at ready
    have first : task ≠ sched.current cpu := by
      intro same
      rw [same, runs] at zombie
      cases zombie
    rw [Function.update_of_ne, Function.update_of_ne first]
    · exact zombie
    · intro same
      rw [← same, Function.update_of_ne first, zombie] at ready
      cases ready

theorem Ordered.simpleSched (scheduled : sched.Scheduled queue)
    (allowed : sched.MayEnter cpu newState)
    (root : ∀ index, sched.current cpu = .user index → sched.killed (.user index) = false →
      newState = .runnable → sched.container index = rootContainer) :
    ∃ after queue', sched.simpleSched cpu newState = .ok after ∧ after.Scheduled queue' ∧
      sched.KeepsZombies after := by
  obtain ⟨after, called, zombies, ⟨-, same⟩ | ⟨-, -, -, kept⟩⟩ :=
    Ordered.simpleSched_queue scheduled allowed root
  · rw [same] at called zombies
    exact ⟨sched, queue, called, scheduled, zombies⟩
  · exact ⟨after, _, called, kept, zombies⟩

/-! ### Runs -/

def CallerRules (sched : Sched) : SchedAction → Prop
  | .sched cpu newState => sched.MayEnter cpu newState
  | _ => True

/-- A process that is put into a queue belongs to the root container. -/
def EnqueuesInRoot (sched : Sched) : SchedAction → Prop
  | .startProc index | .activate index =>
      (sched.state (.user index)).wakes false = true → sched.container index = rootContainer
  | .alert index =>
      (sched.state (.user index)).wakes true = true → sched.container index = rootContainer
  | .sched cpu newState =>
      ∀ index, sched.current cpu = .user index → sched.killed (.user index) = false →
        newState = .runnable → sched.container index = rootContainer
  | _ => True

theorem Ordered.activateProc_step (scheduled : sched.Scheduled queue) {index : Nat}
    {onalert : Bool} (known : index < sched.procs)
    (root : (sched.state (.user index)).wakes onalert = true →
      sched.container index = rootContainer) :
    ∃ after queue', (sched.activateProc (.user index) onalert).map Prod.snd = .ok after ∧
      after.Scheduled queue' ∧ sched.KeepsZombies after := by
  cases wakes : (sched.state (.user index)).wakes onalert with
  | false =>
      rw [activateProc_awake wakes]
      exact ⟨sched, queue, rfl, scheduled, fun _ zombie => zombie⟩
  | true =>
      obtain ⟨links, activated, woken⟩ := Ordered.activateProc scheduled known wakes (root wakes)
      rw [activated]
      refine ⟨_, index :: queue, rfl, woken, ?_⟩
      intro task zombie
      change Function.update sched.state (.user index) .runnable task = _
      have different : task ≠ .user index := by
        intro same
        rw [same] at zombie
        simp [zombie, ProcState.wakes] at wakes
      rw [Function.update_of_ne different]
      exact zombie

theorem Ordered.step_same {after : Sched} (scheduled : sched.Scheduled queue)
    (links : after.links = sched.links) (state : after.state = sched.state)
    (current : after.current = sched.current) (procs : after.procs = sched.procs)
    (containers : after.containers = sched.containers) :
    ∃ final queue', (.ok after : Except Stop Sched) = .ok final ∧ final.Scheduled queue' ∧
      sched.KeepsZombies final := by
  refine ⟨after, queue, rfl, Ordered.same scheduled links state current procs containers, ?_⟩
  intro task zombie
  rw [state]
  exact zombie

theorem Ordered.step (scheduled : sched.Scheduled queue) {action : SchedAction}
    (allowed : sched.CallerRules action) (root : sched.EnqueuesInRoot action) :
    schedStep sched action = .error .disabled ∨
      ∃ after queue', schedStep sched action = .ok after ∧ after.Scheduled queue' ∧
        sched.KeepsZombies after := by
  cases action with
  | createProc =>
      refine Or.inr ⟨_, queue, rfl, Ordered.createProc scheduled, ?_⟩
      intro task zombie
      rw [Ordered.createProc_state scheduled]
      exact zombie
  | createContainer =>
      refine Or.inr ⟨_, queue, rfl, Ordered.createContainer scheduled, ?_⟩
      intro task zombie
      change sched.createProc.state task = _
      rw [Ordered.createProc_state scheduled]
      exact zombie
  | setContainerParentToThis cpu container =>
      simp only [schedStep]
      split
      · exact Or.inr (Ordered.step_same scheduled rfl rfl rfl rfl rfl)
      · exact Or.inl rfl
  | setProcToContainer index container =>
      simp only [schedStep]
      split
      · exact Or.inr (Ordered.step_same scheduled rfl rfl rfl rfl rfl)
      · exact Or.inl rfl
  | startProc index =>
      simp only [schedStep]
      split
      · rename_i known
        have numbered : ({ sched with
            maxPid := Function.update sched.maxPid (sched.container index)
              (sched.maxPid (sched.container index) + 1)
            localpid := Function.update sched.localpid index
              (sched.maxPid (sched.container index) + 1) } : Sched).Scheduled queue :=
          Ordered.same scheduled rfl rfl rfl rfl rfl
        exact Or.inr (Ordered.activateProc_step numbered known root)
      · exact Or.inl rfl
  | activate index =>
      simp only [schedStep]
      split
      · rename_i known
        exact Or.inr (Ordered.activateProc_step scheduled known root)
      · exact Or.inl rfl
  | alert index =>
      simp only [schedStep]
      split
      · rename_i known
        exact Or.inr (Ordered.activateProc_step scheduled known root)
      · exact Or.inl rfl
  | setKilled task => exact Or.inr (Ordered.step_same scheduled rfl rfl rfl rfl rfl)
  | sched cpu newState => exact Or.inr (Ordered.simpleSched scheduled allowed root)
  | setPanic => exact Or.inr (Ordered.step_same scheduled rfl rfl rfl rfl rfl)

theorem Ordered.preserved (scheduled : sched.Scheduled queue) {action : SchedAction}
    (allowed : sched.CallerRules action) (root : sched.EnqueuesInRoot action) {after : Sched}
    (taken : schedStep sched action = .ok after) :
    (∃ queue', after.Scheduled queue') ∧ sched.KeepsZombies after := by
  rcases Ordered.step scheduled allowed root with stopped | ⟨final, queue', went, kept, zombies⟩
  · rw [stopped] at taken
    cases taken
  · rw [taken] at went
    cases went
    exact ⟨⟨queue', kept⟩, zombies⟩

theorem Scheduled.of_run {guard : Sched → SchedAction → Prop} {actions : List SchedAction}
    (rules : ∀ sched action, guard sched action →
      sched.CallerRules action ∧ sched.EnqueuesInRoot action)
    (run : Run schedStep guard Sched.initial actions sched) :
    ∃ queue, sched.Scheduled queue := by
  apply run.invariant (P := fun sched => ∃ queue, sched.Scheduled queue) ⟨[], Ordered.initial⟩
  rintro state action after ⟨queue, scheduled⟩ met taken
  obtain ⟨allowed, root⟩ := rules state action met
  exact (Ordered.preserved scheduled allowed root taken).1

theorem Scheduled.zombie_of_run {guard : Sched → SchedAction → Prop}
    {actions : List SchedAction} {task : Task} {origin : Sched}
    (rules : ∀ sched action, guard sched action →
      sched.CallerRules action ∧ sched.EnqueuesInRoot action)
    (scheduled : origin.Scheduled queue) (zombie : origin.state task = .zombie)
    (run : Run schedStep guard origin actions sched) : sched.state task = .zombie := by
  apply And.right
  apply run.invariant
    (P := fun sched => (∃ queue, sched.Scheduled queue) ∧ sched.state task = .zombie)
    ⟨⟨queue, scheduled⟩, zombie⟩
  rintro state action after ⟨⟨queue, scheduled⟩, zombie⟩ met taken
  obtain ⟨allowed, root⟩ := rules state action met
  obtain ⟨kept, zombies⟩ := Ordered.preserved scheduled allowed root taken
  exact ⟨kept, zombies task zombie⟩

/-- All processes are in the root container, and the callers keep to their rules. -/
def RootOnly (sched : Sched) (action : SchedAction) : Prop :=
  (∀ index, sched.container index = rootContainer) ∧ sched.CallerRules action

theorem RootOnly.rules (sched : Sched) (action : SchedAction) (met : sched.RootOnly action) :
    sched.CallerRules action ∧ sched.EnqueuesInRoot action := by
  obtain ⟨root, allowed⟩ := met
  constructor
  · exact allowed
  · cases action with
    | startProc index => exact fun _ => root index
    | activate index => exact fun _ => root index
    | alert index => exact fun _ => root index
    | sched cpu newState => exact fun index _ _ _ => root index
    | createProc => trivial
    | createContainer => trivial
    | setContainerParentToThis cpu container => trivial
    | setProcToContainer index container => trivial
    | setKilled task => trivial
    | setPanic => trivial

theorem Ordered.current_running (scheduled : sched.Scheduled queue) (cpu : Fin ncpu) :
    sched.state (sched.current cpu) = .running :=
  (scheduled.running _).mpr ⟨cpu, trivial, rfl⟩

theorem Ordered.running_current (scheduled : sched.Scheduled queue) {task : Task}
    (runs : sched.state task = .running) : ∃! cpu, sched.current cpu = task := by
  obtain ⟨cpu, -, equal⟩ := (scheduled.running task).mp runs
  refine ⟨cpu, equal, ?_⟩
  intro other same
  exact scheduled.apart other cpu trivial trivial (same.trans equal.symm)

theorem Ordered.queue_nodup (ordered : sched.Ordered busy queue) : queue.Nodup :=
  List.Nodup.of_map _ (List.nodup_cons.mp ordered.ring.distinct).2

theorem Ordered.zombie_not_current (scheduled : sched.Scheduled queue) {task : Task}
    (zombie : sched.state task = .zombie) (cpu : Fin ncpu) : sched.current cpu ≠ task := by
  intro same
  have runs := Ordered.current_running scheduled cpu
  rw [same, zombie] at runs
  cases runs

end Sched

open Sched

theorem scheduler_states_agree {actions : List SchedAction} {sched : Sched}
    (run : Run schedStep RootOnly Sched.initial actions sched) :
    (∃ queue : List Nat, IsRing sched.links (.head rootContainer) (queue.map .proc) ∧ queue.Nodup ∧
      ∀ index, index ∈ queue ↔ sched.state (.user index) = .runnable) ∧
    (∀ cpu, sched.state (sched.current cpu) = .running) ∧
    (∀ task, sched.state task = .running → ∃! cpu, sched.current cpu = task) ∧
    (∀ task more final, sched.state task = .zombie → Run schedStep RootOnly sched more final →
      final.state task = .zombie ∧ ∀ cpu, final.current cpu ≠ task) ∧
    (∀ index after, sched.state (.user index) = .deepSleeping →
      schedStep sched (.alert index) = .ok after → after.state (.user index) = .deepSleeping) ∧
    (∀ action, sched.RootOnly action → schedStep sched action = .error .disabled ∨
      ∃ after, schedStep sched action = .ok after) := by
  obtain ⟨queue, scheduled⟩ := Scheduled.of_run RootOnly.rules run
  refine ⟨⟨queue, scheduled.ring, scheduled.queue_nodup, scheduled.queued⟩,
    Ordered.current_running scheduled, fun _ => Ordered.running_current scheduled, ?_, ?_, ?_⟩
  · intro task more final zombie later
    have still := Scheduled.zombie_of_run RootOnly.rules scheduled zombie later
    obtain ⟨_, agreed⟩ := Scheduled.of_run RootOnly.rules (run.append later)
    exact ⟨still, Ordered.zombie_not_current agreed still⟩
  · intro index after deep taken
    simp only [schedStep] at taken
    split at taken
    · rw [activateProc_awake (by simp [deep, ProcState.wakes])] at taken
      cases taken
      exact deep
    · cases taken
  · intro action met
    obtain ⟨allowed, root⟩ := RootOnly.rules sched action met
    rcases Ordered.step scheduled allowed root with stopped | ⟨after, _, went, -⟩
    · exact Or.inl stopped
    · exact Or.inr ⟨after, went⟩

theorem scheduler_states_agree_woken :
    ∃ actions sched, Run schedStep RootOnly Sched.initial actions sched ∧
      sched.state (.user 0) = .running ∧ sched.state (.user 1) = .runnable ∧
      ∃! cpu, sched.current cpu = .user 0 := by
  have one : ∀ index, Sched.initial.createProc.container index = rootContainer := by
    intro index
    simp [Sched.createProc, Sched.initial]
  have two : ∀ index, Sched.initial.createProc.createProc.container index = rootContainer := by
    intro index
    simp [Sched.createProc, Sched.initial]
  have run : Run schedStep RootOnly Sched.initial [.createProc, .createProc, .startProc 0,
      .sched ⟨2, by decide⟩ .runnable, .activate 1, .setKilled (.user 1)] _ :=
    Run.of_exec rfl
      ⟨⟨fun _ => rfl, trivial⟩, ⟨one, trivial⟩, ⟨two, trivial⟩,
        ⟨two, by decide, fun _ _ => rfl⟩, ⟨two, trivial⟩, ⟨two, trivial⟩, trivial⟩
  exact ⟨_, _, run, rfl, rfl, (scheduler_states_agree run).2.2.1 (.user 0) rfl⟩

end LabKernel.Kernel
