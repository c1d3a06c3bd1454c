/-
Which processes run while the CPUs switch between them.

A call of `simple_sched` that gets by its assertions takes the caller off its CPU and puts a
process on it that no CPU runs. So the running processes are the current ones, each of one CPU,
whatever containers there are.
-/

import LabKernel.Kernel.Procs
import LabKernel.Kernel.Switching

set_option autoImplicit false

namespace LabKernel.Kernel

open Arm Outcomes Transition

/-! ### Running and current processes -/

/-- The running processes are the current ones, the memory of a process that is gone was a
zombie's, and so was that of one that `wait` has found. -/
structure Tasks (sched : Sched) (live : Task → Bool) (found : Nat → Bool) : Prop where
  running : ∀ task, sched.state task = .running ↔ ∃ cpu, sched.current cpu = task
  apart : ∀ cpu other, sched.current cpu = sched.current other → cpu = other
  created : ∀ index, sched.procs ≤ index → sched.state (.user index) = .unused
  fresh : ∀ index, sched.procs ≤ index → live (.user index) = false
  known : ∀ index, index < sched.procs →
    live (.user index) = true ∨ sched.state (.user index) = .zombie
  idle : ∀ cpu, live (.idle cpu) = true
  found : ∀ index, found index = true → sched.state (.user index) = .zombie

namespace Tasks

variable {sched after : Sched} {live : Task → Bool} {found : Nat → Bool}

theorem alive (tasks : Tasks sched live found) {task : Task}
    (used : sched.state task ≠ .unused) (stays : sched.state task ≠ .zombie) :
    live task = true := by
  cases task with
  | idle cpu => exact tasks.idle cpu
  | user index =>
      have small : index < sched.procs := by
        by_contra large
        exact used (tasks.created index (Nat.le_of_not_lt large))
      rcases tasks.known index small with lives | dead
      · exact lives
      · exact absurd dead stays

theorem current_running (tasks : Tasks sched live found) (cpu : Fin ncpu) :
    sched.state (sched.current cpu) = .running :=
  (tasks.running _).mpr ⟨cpu, rfl⟩

theorem current_alive (tasks : Tasks sched live found) (cpu : Fin ncpu) :
    live (sched.current cpu) = true := by
  apply tasks.alive
  · rw [tasks.current_running]
    decide
  · rw [tasks.current_running]
    decide

theorem same (tasks : Tasks sched live found) (state : after.state = sched.state)
    (current : after.current = sched.current) (procs : after.procs = sched.procs) :
    Tasks after live found := by
  obtain ⟨running, apart, created, fresh, known, idle, found⟩ := tasks
  constructor
  · rw [state, current]
    exact running
  · rw [current]
    exact apart
  · rw [state, procs]
    exact created
  · rw [procs]
    exact fresh
  · rw [state, procs]
    exact known
  · exact idle
  · rw [state]
    exact found

theorem wake (tasks : Tasks sched live found) {index : Nat} {onalert : Bool}
    (small : index < sched.procs)
    (wakes : (sched.state (.user index)).wakes onalert = true) :
    Tasks (sched.setState (.user index) .runnable) live found := by
  have asleep : sched.state (.user index) ≠ .running ∧ sched.state (.user index) ≠ .zombie := by
    cases state : sched.state (.user index) <;> simp [ProcState.wakes, state] at wakes ⊢
  have other : ∀ task, task ≠ .user index →
      (sched.setState (.user index) .runnable).state task = sched.state task :=
    fun task different => Function.update_of_ne different _ _
  have woken : (sched.setState (.user index) .runnable).state (.user index) = .runnable :=
    Function.update_self _ _ _
  constructor
  · intro task
    change _ ↔ ∃ cpu, sched.current cpu = task
    rw [← tasks.running]
    by_cases this : task = .user index
    · rw [this, woken]
      simp [asleep.1]
    · rw [other task this]
  · exact tasks.apart
  · intro later large
    change sched.procs ≤ later at large
    rw [other]
    · exact tasks.created later large
    · intro same
      have equal := Task.user.inj same
      omega
  · exact tasks.fresh
  · intro later less
    by_cases this : later = index
    · rcases tasks.known later less with lives | dead
      · exact Or.inl lives
      · rw [this] at dead
        exact absurd dead asleep.2
    · rw [other _ (fun same => this (Task.user.inj same))]
      exact tasks.known later less
  · exact tasks.idle
  · intro later seen
    have dead := tasks.found later seen
    have this : later ≠ index := by
      intro same
      rw [same] at dead
      exact asleep.2 dead
    rw [other _ (fun same => this (Task.user.inj same))]
    exact dead

theorem next_elsewhere (tasks : Tasks sched live found) {cpu other : Fin ncpu} {next : Task}
    {state : ProcState} (hands : Sched.Hands sched cpu next state after) (different : other ≠ cpu) :
    sched.current other ≠ next := by
  intro same
  have ready := hands.ready
  have apart : sched.current other ≠ sched.current cpu :=
    fun equal => different (tasks.apart other cpu equal)
  rw [← same, Function.update_of_ne apart, tasks.current_running] at ready
  cases ready

theorem hands_zombie {cpu : Fin ncpu} {next task : Task} {state : ProcState}
    (tasks : Tasks sched live found) (hands : Sched.Hands sched cpu next state after)
    (dead : sched.state task = .zombie) : after.state task = .zombie := by
  have running := tasks.current_running cpu
  have this : task ≠ sched.current cpu := by
    intro same
    rw [same, running] at dead
    cases dead
  have ready := hands.ready
  have other : task ≠ next := by
    intro same
    rw [← same, Function.update_of_ne this, dead] at ready
    cases ready
  rw [hands.state, Function.update_of_ne other, Function.update_of_ne this]
  exact dead

theorem hands (tasks : Tasks sched live found) {cpu : Fin ncpu} {next : Task} {state : ProcState}
    (hands : Sched.Hands sched cpu next state after) : Tasks after live found := by
  have running := tasks.current_running cpu
  constructor
  · intro task
    rw [hands.state, hands.current]
    by_cases entering : task = next
    · rw [entering, Function.update_self]
      exact iff_of_true rfl ⟨cpu, Function.update_self _ _ _⟩
    · rw [Function.update_of_ne entering]
      by_cases leaving : task = sched.current cpu
      · rw [leaving, Function.update_self]
        apply iff_of_false hands.stopped.2
        rintro ⟨other, same⟩
        by_cases here : other = cpu
        · rw [here, Function.update_self] at same
          exact entering (leaving.trans same.symm)
        · rw [Function.update_of_ne here] at same
          exact here (tasks.apart _ _ same)
      · rw [Function.update_of_ne leaving, tasks.running]
        constructor
        · rintro ⟨other, same⟩
          refine ⟨other, ?_⟩
          rw [Function.update_of_ne]
          · exact same
          · intro here
            rw [here] at same
            exact leaving same.symm
        · rintro ⟨other, same⟩
          by_cases here : other = cpu
          · rw [here, Function.update_self] at same
            exact absurd same.symm entering
          · rw [Function.update_of_ne here] at same
            exact ⟨other, same⟩
  · intro one other same
    rw [hands.current] at same
    by_cases first : one = cpu
    · by_cases second : other = cpu
      · rw [first, second]
      · rw [first, Function.update_self, Function.update_of_ne second] at same
        exact absurd same.symm (tasks.next_elsewhere hands second)
    · by_cases second : other = cpu
      · rw [second, Function.update_self, Function.update_of_ne first] at same
        exact absurd same (tasks.next_elsewhere hands first)
      · rw [Function.update_of_ne first, Function.update_of_ne second] at same
        exact tasks.apart _ _ same
  · intro index large
    rw [hands.procs] at large
    have unused := tasks.created index large
    have leaving : Task.user index ≠ sched.current cpu := by
      intro same
      rw [same, running] at unused
      cases unused
    have ready := hands.ready
    have entering : Task.user index ≠ next := by
      intro same
      rw [← same, Function.update_of_ne leaving, unused] at ready
      cases ready
    rw [hands.state, Function.update_of_ne entering, Function.update_of_ne leaving]
    exact unused
  · rw [hands.procs]
    exact tasks.fresh
  · intro index small
    rw [hands.procs] at small
    rcases tasks.known index small with lives | dead
    · exact Or.inl lives
    · exact Or.inr (tasks.hands_zombie hands dead)
  · exact tasks.idle
  · intro index seen
    exact tasks.hands_zombie hands (tasks.found index seen)

theorem create (tasks : Tasks sched live found) :
    Tasks sched.createProc (Function.update live (.user sched.procs) true) found := by
  have state : sched.createProc.state = sched.state := by
    change Function.update sched.state (.user sched.procs) .unused = sched.state
    rw [← tasks.created sched.procs (Nat.le_refl _), Function.update_eq_self]
  constructor
  · rw [state]
    exact tasks.running
  · exact tasks.apart
  · intro index large
    rw [state]
    exact tasks.created index (Nat.le_of_succ_le large)
  · intro index large
    have other : Task.user index ≠ .user sched.procs := by
      intro same
      rw [Task.user.inj same] at large
      exact absurd large (Nat.not_succ_le_self _)
    rw [Function.update_of_ne other]
    exact tasks.fresh index (Nat.le_of_succ_le large)
  · intro index small
    rw [state]
    by_cases new : index = sched.procs
    · rw [new, Function.update_self]
      exact Or.inl rfl
    · rw [Function.update_of_ne (fun same => new (Task.user.inj same))]
      apply tasks.known index
      change index < sched.procs + 1 at small
      omega
  · intro cpu
    rw [Function.update_of_ne (by simp)]
    exact tasks.idle cpu
  · rw [state]
    exact tasks.found

theorem find (tasks : Tasks sched live found) (index : Nat) :
    Tasks sched live (Function.update found index
      (found index || sched.state (.user index) = .zombie)) := by
  refine ⟨tasks.running, tasks.apart, tasks.created, tasks.fresh, tasks.known, tasks.idle, ?_⟩
  intro other seen
  by_cases this : other = index
  · rw [this, Function.update_self, Bool.or_eq_true, decide_eq_true_eq] at seen
    rw [this]
    exact seen.elim (tasks.found index) id
  · rw [Function.update_of_ne this] at seen
    exact tasks.found other seen

theorem free (tasks : Tasks sched live found) {index : Nat} (seen : found index = true) :
    Tasks sched (Function.update live (.user index) false) found := by
  refine ⟨tasks.running, tasks.apart, tasks.created, ?_, ?_, ?_, tasks.found⟩
  · intro other large
    by_cases this : other = index
    · rw [this, Function.update_self]
    · rw [Function.update_of_ne (fun same => this (Task.user.inj same))]
      exact tasks.fresh other large
  · intro other small
    by_cases this : other = index
    · rw [this]
      exact Or.inr (tasks.found index seen)
    · rw [Function.update_of_ne (fun same => this (Task.user.inj same))]
      exact tasks.known other small
  · intro cpu
    rw [Function.update_of_ne (by simp)]
    exact tasks.idle cpu

end Tasks

end LabKernel.Kernel
