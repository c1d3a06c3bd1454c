/-
Runs of the CPUs switching between processes.

Each step keeps the invariant: the code of a process does not touch what belongs to the others,
`swtch` works on the stacks of two processes while its CPU holds the lock, and what the scheduler
does to the states of processes leaves their contexts alone.
-/

import LabKernel.Kernel.KernelStacks

set_option autoImplicit false

namespace LabKernel.Kernel

open Arm Outcomes Transition

namespace SwitchSystem

variable {sys after : SwitchSystem} {cpu : Fin ncpu}

/-! ### Code -/

/-- The words that a switch deals with are out of bounds for the code of other processes. -/
theorem Sound.region_reserved (sound : sys.Sound) {other : Fin ncpu} {this : Task}
    {rest : List Inst} (switching : sys.phase other = .switching this rest)
    (different : other ≠ cpu) {address : Word}
    (inside : SwitchRegion (sys.place this) (sys.place (sys.sched.current other)) address) :
    sys.Reserved (sys.sched.current cpu) address := by
  obtain ⟨-, lives, used, -⟩ := sound.contexts.leaver other this rest switching
  rcases inside with (holds | slot) | holds
  · exact ⟨this, lives, Or.inr ⟨sound.leaver_current switching, used, holds⟩⟩
  · exact ⟨this, lives, Or.inl slot⟩
  · refine ⟨_, sound.tasks.current_alive other, Or.inr ⟨?_, ?_, holds⟩⟩
    · exact fun same => different (sound.tasks.apart _ _ same)
    · rw [sound.tasks.current_running]
      decide

theorem Sound.code (sound : sys.Sound) {core : Core} {mem : Words}
    (inCode : (sys.phase cpu).inCode = true)
    (onStack : (sys.place (sys.sched.current cpu)).OnStack core.sp)
    (agree : AgreeOn (sys.Reserved (sys.sched.current cpu)) sys.mem mem) :
    ({ sys with core := Function.update sys.core cpu core, mem := mem } : SwitchSystem).Sound := by
  obtain ⟨tasks, placed, contexts⟩ := id sound
  refine ⟨tasks, placed, ?_⟩
  have otherwise : ∀ other this rest, sys.phase other = .switching this rest → other ≠ cpu := by
    intro other this rest switching same
    rw [← same, switching] at inCode
    cases inCode
  constructor
  · exact contexts.holder
  · intro other running
    by_cases same : other = cpu
    · rw [same]
      change (sys.place _).OnStack (Function.update sys.core cpu core cpu).sp
      rw [Function.update_self]
      exact onStack
    · change (sys.place _).OnStack (Function.update sys.core cpu core other).sp
      rw [Function.update_of_ne same]
      exact contexts.code other running
  · exact contexts.leaver
  · intro other this rest switching
    have different := otherwise other this rest switching
    change Switching _ _ _ _ rest (Function.update sys.core cpu core other) mem
    rw [Function.update_of_ne different]
    apply (contexts.switching other this rest switching).agree
    intro address inside
    exact agree address (sound.region_reserved switching different inside)
  · intro other switched
    have different : other ≠ cpu := by
      intro same
      change sys.phase other = .switched at switched
      rw [← same, switched] at inCode
      cases inCode
    change Resumed (Function.update sys.core cpu core other) mem _ _
    rw [Function.update_of_ne different]
    apply (contexts.switched other switched).agree
    intro address holds
    apply agree
    refine ⟨_, tasks.current_alive other, Or.inr ⟨?_, ?_, holds⟩⟩
    · exact fun same => different (tasks.apart _ _ same)
    · rw [tasks.current_running]
      decide
  · intro task lives used stopped stays
    apply (contexts.suspended task lives used stopped stays).agree
    rintro address (holds | slot)
    · apply agree
      refine ⟨task, lives, Or.inr ⟨?_, used, holds⟩⟩
      intro same
      rw [same] at stopped
      exact stopped (tasks.current_running cpu)
    · exact agree address ⟨task, lives, Or.inl slot⟩
  · intro task lives unused
    change mem _ = _
    rw [← agree _ ⟨task, lives, Or.inl rfl⟩]
    exact contexts.unstarted task lives unused
  · exact contexts.found

/-! ### The lock -/

/-- A CPU goes from one of its phases to another that is neither the switch nor its end. -/
theorem Sound.phase (sound : sys.Sound) {lock : Option (Fin ncpu)} {phase : Phase}
    (inCode : phase.inCode = true)
    (calm : ∀ this rest, sys.phase cpu ≠ .switching this rest)
    (holder : ∀ other, lock = some other ↔ Function.update sys.phase cpu phase other ≠ .running)
    (onStack : (sys.place (sys.sched.current cpu)).OnStack (sys.core cpu).sp) :
    ({ sys with
      lock := lock
      phase := Function.update sys.phase cpu phase } : SwitchSystem).Sound := by
  obtain ⟨tasks, placed, contexts⟩ := sound
  refine ⟨tasks, placed, ?_⟩
  have quiet : ∀ other this rest,
      Function.update sys.phase cpu phase other = .switching this rest ↔
        sys.phase other = .switching this rest := by
    intro other this rest
    by_cases same : other = cpu
    · rw [same, Function.update_self]
      constructor
      · intro switching
        rw [switching] at inCode
        cases inCode
      · exact fun switching => absurd switching (calm this rest)
    · rw [Function.update_of_ne same]
  constructor
  · exact holder
  · intro other running
    change (Function.update sys.phase cpu phase other).inCode = true at running
    by_cases same : other = cpu
    · rw [same]
      exact onStack
    · rw [Function.update_of_ne same] at running
      exact contexts.code other running
  · intro other this rest switching
    exact contexts.leaver other this rest ((quiet other this rest).mp switching)
  · intro other this rest switching
    exact contexts.switching other this rest ((quiet other this rest).mp switching)
  · intro other switched
    change Function.update sys.phase cpu phase other = .switched at switched
    by_cases same : other = cpu
    · rw [same, Function.update_self] at switched
      rw [switched] at inCode
      cases inCode
    · rw [Function.update_of_ne same] at switched
      exact contexts.switched other switched
  · intro task lives used stopped stays
    apply contexts.suspended task lives used stopped
    rintro ⟨other, rest, switching⟩
    exact stays ⟨other, rest, (quiet other task rest).mpr switching⟩
  · exact contexts.unstarted
  · rintro index seen ⟨other, rest, switching⟩
    exact contexts.found index seen ⟨other, rest, (quiet other _ rest).mp switching⟩

theorem Sound.acquire (sound : sys.Sound) (running : sys.phase cpu = .running)
    (lock : sys.lock = none) :
    ({ sys with
      lock := some cpu
      phase := Function.update sys.phase cpu .holding } : SwitchSystem).Sound := by
  apply sound.phase rfl
  · intro this rest switching
    rw [running] at switching
    cases switching
  · intro other
    by_cases same : other = cpu
    · rw [same, Function.update_self]
      simp
    · rw [Function.update_of_ne same, sound.contexts.free lock other]
      simp [Ne.symm same]
  · apply sound.contexts.code
    rw [running]
    rfl

theorem Sound.unlock (sound : sys.Sound) (busy : sys.phase cpu ≠ .running)
    (calm : ∀ this rest, sys.phase cpu ≠ .switching this rest)
    (onStack : (sys.place (sys.sched.current cpu)).OnStack (sys.core cpu).sp) :
    ({ sys with
      lock := none
      phase := Function.update sys.phase cpu .running } : SwitchSystem).Sound := by
  apply sound.phase rfl calm
  · intro other
    by_cases same : other = cpu
    · rw [same, Function.update_self]
      simp
    · rw [Function.update_of_ne same, sound.contexts.alone busy same]
      simp
  · exact onStack

/-! ### States of processes -/

/-- The scheduler has changed states, but no process has got into or out of running, and none has
been started. -/
theorem Sound.states (sound : sys.Sound) {sched : Sched} (tasks : Tasks sched sys.live sys.found)
    (current : sched.current = sys.sched.current)
    (running : ∀ task, sched.state task = .running ↔ sys.sched.state task = .running)
    (unused : ∀ task, sched.state task = .unused ↔ sys.sched.state task = .unused) :
    (sys.setSched sched).Sound := by
  obtain ⟨-, placed, contexts⟩ := sound
  refine ⟨tasks, placed, ?_⟩
  constructor
  · exact contexts.holder
  · intro other inCode
    change (sys.place (sched.current other)).OnStack _
    rw [current]
    exact contexts.code other inCode
  · intro other this rest switching
    obtain ⟨more, lives, used, stopped⟩ := contexts.leaver other this rest switching
    exact ⟨more, lives, fun idle => used ((unused this).mp idle),
      fun runs => stopped ((running this).mp runs)⟩
  · intro other this rest switching
    change Switching _ _ (sys.place (sched.current other)) (sys.left (sched.current other)) _ _ _
    rw [current]
    exact contexts.switching other this rest switching
  · intro other switched
    change Resumed _ _ (sys.place (sched.current other)) (sys.left (sched.current other))
    rw [current]
    exact contexts.switched other switched
  · intro task lives used stopped
    exact contexts.suspended task lives (fun idle => used ((unused task).mpr idle))
      (fun runs => stopped ((running task).mpr runs))
  · intro task lives idle
    exact contexts.unstarted task lives ((unused task).mp idle)
  · exact contexts.found

theorem Sound.same (sound : sys.Sound) {sched : Sched} (state : sched.state = sys.sched.state)
    (current : sched.current = sys.sched.current) (procs : sched.procs = sys.sched.procs) :
    (sys.setSched sched).Sound := by
  apply sound.states (sound.tasks.same state current procs) current
  · intro task
    rw [state]
  · intro task
    rw [state]

theorem Sound.wake (sound : sys.Sound) {index : Nat} {onalert woken : Bool} {sched : Sched}
    (small : index < sys.sched.procs) (used : sys.sched.state (.user index) ≠ .unused)
    (activated : sys.sched.activateProc (.user index) onalert = .ok (woken, sched)) :
    (sys.setSched sched).Sound := by
  rcases Sched.activateProc_tasks activated with ⟨-, same⟩ | ⟨wakes, same⟩
  · rw [same]
    exact sound
  · have stopped : sys.sched.state (.user index) ≠ .running := by
      intro runs
      rw [runs] at wakes
      cases wakes
    have state : ∀ task value, value ≠ .runnable → sys.sched.state (.user index) ≠ value →
        (sched.state task = value ↔ sys.sched.state task = value) := by
      intro task value other off
      rw [same.1]
      change Function.update sys.sched.state (.user index) .runnable task = value ↔ _
      by_cases this : task = .user index
      · rw [this, Function.update_self]
        exact iff_of_false (Ne.symm other) off
      · rw [Function.update_of_ne this]
    apply sound.states ((sound.tasks.wake small wakes).same same.1 same.2.1 same.2.2.1) same.2.1
    · exact fun task => state task .running (by decide) stopped
    · exact fun task => state task .unused (by decide) used

/-! ### The switch -/

theorem Sound.stay (sound : sys.Sound) {sched : Sched} (holding : sys.phase cpu = .holding)
    (same : Sched.SameTasks sys.sched sched) :
    (sys.switchTo cpu sched).Sound := by
  have here : sched.current cpu = sys.sched.current cpu := congrFun same.2.1 cpu
  unfold switchTo
  rw [if_pos here]
  have kept := sound.same same.1 same.2.1 same.2.2.1
  apply kept.unlock
  · change sys.phase cpu ≠ .running
    rw [holding]
    decide
  · intro this rest switching
    change sys.phase cpu = .switching this rest at switching
    rw [holding] at switching
    cases switching
  · apply kept.contexts.code
    change (sys.phase cpu).inCode = true
    rw [holding]
    rfl

/-- The scheduler has chosen another process and calls `swtch`. -/
theorem Sound.leave (sound : sys.Sound) {sched : Sched} {next : Task} {newState : ProcState}
    (holding : sys.phase cpu = .holding)
    (hands : Sched.Hands sys.sched cpu next newState sched)
    (different : next ≠ sys.sched.current cpu)
    (aligned : (sys.core cpu).sp.toNat % 16 = 0)
    (room : (sys.place (sys.sched.current cpu)).kstack.toNat + 112 < (sys.core cpu).sp.toNat) :
    (sys.switchTo cpu sched).Sound := by
  obtain ⟨tasks, placed, contexts⟩ := id sound
  have here : sched.current cpu = next := by
    rw [hands.current, Function.update_self]
  have busy : sys.phase cpu ≠ .running := by
    rw [holding]
    decide
  have calm : ∀ task, ¬ sys.Leaves task := by
    apply contexts.none_leaves_of busy
    intro this rest switching
    rw [holding] at switching
    cases switching
  have elsewhere : ∀ other, other ≠ cpu → sched.current other = sys.sched.current other := by
    intro other apart
    rw [hands.current, Function.update_of_ne apart]
  have ready : sys.sched.state next = .runnable := by
    have state := hands.ready
    rw [Function.update_of_ne different] at state
    exact state
  have nextLives : sys.live next = true := by
    apply tasks.alive
    · rw [ready]
      decide
    · rw [ready]
      decide
  have thisLives := tasks.current_alive cpu
  have asleep : Suspended sys.mem (sys.place next) (sys.left next) := by
    apply contexts.suspended next nextLives _ _ (calm next)
    · rw [ready]
      decide
    · rw [ready]
      decide
  have stateOf : ∀ task, task ≠ sys.sched.current cpu → task ≠ next →
      sched.state task = sys.sched.state task := by
    intro task off entering
    rw [hands.state, Function.update_of_ne entering, Function.update_of_ne off]
  have stateThis : sched.state (sys.sched.current cpu) = newState := by
    rw [hands.state, Function.update_of_ne (Ne.symm different), Function.update_self]
  have onStack := contexts.code cpu (by rw [holding]; rfl)
  unfold switchTo
  rw [here, if_neg different]
  refine ⟨tasks.hands hands, placed, ?_⟩
  have phaseOf : ∀ other, other ≠ cpu → Function.update sys.phase cpu
      (.switching (sys.sched.current cpu) Kernel.swtch) other = .running := by
    intro other apart
    rw [Function.update_of_ne apart]
    exact contexts.alone busy apart
  have only : ∀ other this rest, Function.update sys.phase cpu
      (.switching (sys.sched.current cpu) Kernel.swtch) other = .switching this rest →
      other = cpu ∧ sys.sched.current cpu = this ∧ Kernel.swtch = rest := by
    intro other this rest switching
    by_cases same : other = cpu
    · rw [same, Function.update_self] at switching
      cases switching
      exact ⟨same, rfl, rfl⟩
    · rw [phaseOf other same] at switching
      cases switching
  constructor
  · intro other
    change sys.lock = some other ↔ Function.update sys.phase cpu _ other ≠ .running
    rw [contexts.holder other]
    by_cases same : other = cpu
    · rw [same, Function.update_self]
      exact iff_of_true busy (by simp)
    · rw [Function.update_of_ne same]
  · intro other inCode
    change (Function.update sys.phase cpu _ other).inCode = true at inCode
    by_cases same : other = cpu
    · rw [same, Function.update_self] at inCode
      cases inCode
    · change (sys.place (sched.current other)).OnStack (Function.update sys.core cpu _ other).sp
      rw [elsewhere other same, Function.update_of_ne same]
      rw [Function.update_of_ne same] at inCode
      exact contexts.code other inCode
  · intro other this rest switching
    obtain ⟨-, equal, program⟩ := only other this rest switching
    rw [← equal, ← program]
    refine ⟨by decide, thisLives, ?_, ?_⟩
    · change sched.state _ ≠ .unused
      rw [stateThis]
      exact hands.stopped.1
    · change sched.state _ ≠ .running
      rw [stateThis]
      exact hands.stopped.2
  · intro other this rest switching
    obtain ⟨same, equal, program⟩ := only other this rest switching
    rw [same, ← equal, ← program]
    change Switching _ (Function.update sys.left _ _ (sys.sched.current cpu))
      (sys.place (sched.current cpu)) (Function.update sys.left _ _ (sched.current cpu)) _
      (Function.update sys.core cpu _ cpu) sys.mem
    rw [here, Function.update_self, Function.update_self, Function.update_of_ne different]
    apply Switching.start (placed.fits _ thisLives)
      (placed.apart _ _ thisLives nextLives (Ne.symm different)) asleep
    · rfl
    · rfl
    · exact aligned
    · exact room
    · exact onStack.2
  · intro other switched
    change Function.update sys.phase cpu _ other = .switched at switched
    by_cases same : other = cpu
    · rw [same, Function.update_self] at switched
      cases switched
    · rw [phaseOf other same] at switched
      cases switched
  · intro task lives used stopped stays
    have off : task ≠ sys.sched.current cpu := by
      intro same
      apply stays
      rw [same]
      exact ⟨cpu, Kernel.swtch, Function.update_self _ _ _⟩
    have entering : task ≠ next := by
      intro same
      change sched.state task ≠ .running at stopped
      rw [same, hands.state, Function.update_self] at stopped
      exact stopped rfl
    change Suspended sys.mem _ (Function.update sys.left _ _ task)
    change sched.state task ≠ _ at used stopped
    rw [stateOf task off entering] at used stopped
    rw [Function.update_of_ne off]
    exact contexts.suspended task lives used stopped (calm task)
  · intro task lives unused
    change sched.state task = .unused at unused
    have off : task ≠ sys.sched.current cpu := by
      intro same
      rw [same, stateThis] at unused
      exact hands.stopped.1 unused
    have entering : task ≠ next := by
      intro same
      rw [same, hands.state, Function.update_self] at unused
      cases unused
    rw [stateOf task off entering] at unused
    exact contexts.unstarted task lives unused
  · rintro index seen ⟨other, rest, switching⟩
    obtain ⟨-, equal, -⟩ := only other _ rest switching
    have dead := tasks.found index seen
    rw [← equal, tasks.current_running] at dead
    cases dead

theorem Sound.sched (sound : sys.Sound) {sched : Sched} {newState : ProcState}
    (holding : sys.phase cpu = .holding)
    (scheduled : sys.sched.simpleSched cpu newState = .ok sched)
    (aligned : (sys.core cpu).sp.toNat % 16 = 0)
    (room : (sys.place (sys.sched.current cpu)).kstack.toNat + 112 < (sys.core cpu).sp.toNat) :
    (sys.switchTo cpu sched).Sound := by
  rcases Sched.simpleSched_tasks scheduled with ⟨-, same⟩ | ⟨-, next, hands⟩
  · apply sound.stay holding
    rw [same]
    exact Sched.SameTasks.rfl
  · by_cases here : next = sys.sched.current cpu
    · apply sound.stay holding
      refine ⟨?_, ?_, hands.procs, hands.killed⟩
      · rw [hands.state, here, Function.update_idem, ← sound.tasks.current_running cpu,
          Function.update_eq_self]
      · rw [hands.current, here, Function.update_eq_self]
    · exact sound.leave holding hands here aligned room

/-- What a switch touches does not belong to a third process. -/
theorem Sound.region_others (sound : sys.Sound) {this task : Task} {rest : List Inst}
    (switching : sys.phase cpu = .switching this rest) (lives : sys.live task = true)
    (off : task ≠ this) (stopped : sys.sched.state task ≠ .running) {address : Word}
    (inside : SwitchRegion (sys.place this) (sys.place (sys.sched.current cpu)) address) :
    ¬ (sys.place task).Owns address := by
  obtain ⟨-, thisLives, -, -⟩ := sound.contexts.leaver cpu this rest switching
  rcases inside with owns | holds
  · exact (sound.placed.apart _ _ thisLives lives (Ne.symm off)).owns owns
  · have other : sys.sched.current cpu ≠ task := by
      intro same
      rw [← same] at stopped
      exact stopped (sound.tasks.current_running cpu)
    exact (sound.placed.apart _ _ (sound.tasks.current_alive cpu) lives other).holds holds

theorem Sound.swtch_step (sound : sys.Sound) {this : Task} {inst : Inst} {rest : List Inst}
    (switching : sys.phase cpu = .switching this (inst :: rest)) :
    ∃ core mem, inst.exec (sys.core cpu) sys.mem = .ok (core, mem) ∧
      (sys.executed cpu this rest core mem).Sound := by
  obtain ⟨tasks, placed, contexts⟩ := id sound
  obtain ⟨-, lives, used, stopped⟩ := contexts.leaver cpu this _ switching
  obtain ⟨-, inside, core, mem, executed, runs⟩ := contexts.switching cpu this _ switching
  have onward : Switching (sys.place this) (sys.left this) (sys.place (sys.sched.current cpu))
      (sys.left (sys.sched.current cpu)) rest core mem := runs
  have busy : sys.phase cpu ≠ .running := by
    rw [switching]
    simp
  refine ⟨core, mem, executed, tasks, placed, ?_⟩
  have phaseOf : ∀ other, other ≠ cpu → Function.update sys.phase cpu
      (if rest = [] then .switched else .switching this rest) other = .running := by
    intro other apart
    rw [Function.update_of_ne apart]
    exact contexts.alone busy apart
  have only : ∀ other leaver more, Function.update sys.phase cpu
      (if rest = [] then .switched else .switching this rest) other = .switching leaver more →
      other = cpu ∧ this = leaver ∧ rest = more ∧ rest ≠ [] := by
    intro other leaver more going
    by_cases same : other = cpu
    · rw [same, Function.update_self] at going
      by_cases last : rest = []
      · rw [if_pos last] at going
        cases going
      · rw [if_neg last] at going
        cases going
        exact ⟨same, rfl, rfl, last⟩
    · rw [phaseOf other same] at going
      cases going
  have others : ∀ task, sys.live task = true → task ≠ this → sys.sched.state task ≠ .running →
      AgreeOn (sys.place task).Owns sys.mem mem := by
    intro task also off still address owns
    apply (Inst.exec_outside executed _).symm
    intro touched
    exact sound.region_others switching also off still (inside address touched) owns
  constructor
  · intro other
    change sys.lock = some other ↔ Function.update sys.phase cpu _ other ≠ .running
    rw [contexts.holder other]
    by_cases same : other = cpu
    · rw [same, Function.update_self]
      apply iff_of_true busy
      split
      · decide
      · simp
    · rw [Function.update_of_ne same]
  · intro other inCode
    change (Function.update sys.phase cpu _ other).inCode = true at inCode
    by_cases same : other = cpu
    · rw [same, Function.update_self] at inCode
      split at inCode
      · cases inCode
      · cases inCode
    · change (sys.place _).OnStack (Function.update sys.core cpu _ other).sp
      rw [Function.update_of_ne same]
      rw [Function.update_of_ne same] at inCode
      exact contexts.code other inCode
  · intro other leaver more going
    obtain ⟨-, equal, program, unfinished⟩ := only other leaver more going
    rw [← equal, ← program]
    exact ⟨unfinished, lives, used, stopped⟩
  · intro other leaver more going
    obtain ⟨same, equal, program, -⟩ := only other leaver more going
    rw [same, ← equal, ← program]
    change Switching _ _ _ _ rest (Function.update sys.core cpu core cpu) mem
    rw [Function.update_self]
    exact onward
  · intro other switched
    change Function.update sys.phase cpu _ other = .switched at switched
    by_cases same : other = cpu
    · rw [same, Function.update_self] at switched
      split at switched
      · rename_i last
        rw [last] at onward
        rw [same]
        change Resumed (Function.update sys.core cpu core cpu) mem _ _
        rw [Function.update_self]
        exact onward.2.1
      · cases switched
    · rw [phaseOf other same] at switched
      cases switched
  · intro task also active still stays
    by_cases leaving : task = this
    · have last : rest = [] := by
        by_contra unfinished
        apply stays
        refine ⟨cpu, rest, ?_⟩
        change Function.update sys.phase cpu _ cpu = _
        rw [Function.update_self, if_neg unfinished, leaving]
      rw [last] at onward
      rw [leaving]
      exact onward.2.2
    · have calm : ¬ sys.Leaves task := by
        rintro ⟨other, more, going⟩
        by_cases same : other = cpu
        · rw [same, switching] at going
          cases going
          exact leaving rfl
        · rw [contexts.alone busy same] at going
          cases going
      exact (contexts.suspended task also active still calm).agree
        (others task also leaving still)
  · intro task also unused
    have still : sys.sched.state task ≠ .running := by
      change sys.sched.state task = .unused at unused
      rw [unused]
      decide
    have off : task ≠ this := by
      intro same
      rw [same] at unused
      exact used unused
    change mem (sys.place task).slot = _
    rw [← others task also off still _ (Or.inr rfl)]
    exact contexts.unstarted task also unused
  · rintro index seen ⟨other, more, going⟩
    obtain ⟨-, equal, -, -⟩ := only other _ more going
    exact contexts.found index seen ⟨cpu, _, equal ▸ switching⟩

theorem Sound.release (sound : sys.Sound) (switched : sys.phase cpu = .switched) :
    ({ sys with
      lock := none
      phase := Function.update sys.phase cpu .running } : SwitchSystem).Sound := by
  apply sound.unlock
  · rw [switched]
    decide
  · intro this rest switching
    rw [switched] at switching
    cases switching
  · exact (sound.contexts.switched cpu switched).onStack

/-! ### Processes that come and go -/

theorem Sound.initProc (sound : sys.Sound) {kstack slot : Word} {sched : Sched}
    (same : Sched.SameTasks sys.sched.createProc sched)
    (fits : ({ kstack := kstack, slot := slot } : Place).Fits)
    (apart : ∀ task, sys.live task = true →
      (sys.place task).Apart { kstack := kstack, slot := slot }) :
    (sys.initProc kstack slot sched).Sound := by
  obtain ⟨tasks, placed, contexts⟩ := id sound
  have fresh := tasks.fresh sys.sched.procs (Nat.le_refl _)
  have stateSame : sched.state = sys.sched.state := by
    rw [same.1]
    change Function.update sys.sched.state (.user sys.sched.procs) .unused = _
    rw [← tasks.created sys.sched.procs (Nat.le_refl _), Function.update_eq_self]
  have current : sched.current = sys.sched.current := same.2.1
  have old : ∀ task, sys.live task = true → task ≠ .user sys.sched.procs := by
    intro task lives new
    rw [new, fresh] at lives
    cases lives
  have placeOf : ∀ task, sys.live task = true →
      (sys.initProc kstack slot sched).place task = sys.place task :=
    fun task lives => Function.update_of_ne (old task lives) _ _
  have liveOf : ∀ task, (sys.initProc kstack slot sched).live task = true →
      task = .user sys.sched.procs ∨ sys.live task = true := by
    intro task lives
    by_cases new : task = .user sys.sched.procs
    · exact Or.inl new
    · change Function.update sys.live _ true task = true at lives
      rw [Function.update_of_ne new] at lives
      exact Or.inr lives
  have newPlace : (sys.initProc kstack slot sched).place (.user sys.sched.procs) =
      { kstack := kstack, slot := slot } := Function.update_self _ _ _
  have memOf : ∀ task, sys.live task = true →
      AgreeOn (sys.place task).Owns sys.mem (sys.initProc kstack slot sched).mem := by
    intro task lives
    apply AgreeOn.symm
    apply (AgreeOn.refl sys.mem).update_left
    rintro (holds | also)
    · exact (apart task lives).slotOff holds
    · exact (apart task lives).slots also.symm
  constructor
  · exact tasks.create.same same.1 same.2.1 same.2.2.1
  · constructor
    · intro task lives
      rcases liveOf task lives with new | already
      · rw [new, newPlace]
        exact fits
      · rw [placeOf task already]
        exact placed.fits task already
    · intro task other lives also different
      rcases liveOf task lives with new | already
      · rcases liveOf other also with second | before
        · exact absurd (new.trans second.symm) different
        · rw [new, newPlace, placeOf other before]
          exact (apart other before).symm
      · rcases liveOf other also with second | before
        · rw [second, newPlace, placeOf task already]
          exact apart task already
        · rw [placeOf task already, placeOf other before]
          exact placed.apart task other already before different
  · constructor
    · exact contexts.holder
    · intro other inCode
      change ((sys.initProc kstack slot sched).place (sched.current other)).OnStack _
      rw [current, placeOf _ (tasks.current_alive other)]
      exact contexts.code other inCode
    · intro other this rest switching
      obtain ⟨more, lives, used, stopped⟩ := contexts.leaver other this rest switching
      refine ⟨more, ?_, ?_, ?_⟩
      · change Function.update sys.live _ true this = true
        rw [Function.update_of_ne (old this lives)]
        exact lives
      · change sched.state this ≠ .unused
        rw [stateSame]
        exact used
      · change sched.state this ≠ .running
        rw [stateSame]
        exact stopped
    · intro other this rest switching
      obtain ⟨-, lives, -, -⟩ := contexts.leaver other this rest switching
      change Switching _ _ ((sys.initProc kstack slot sched).place (sched.current other))
        (sys.left (sched.current other)) _ _ _
      rw [current, placeOf this lives, placeOf _ (tasks.current_alive other)]
      apply (contexts.switching other this rest switching).agree
      rintro address (owns | holds)
      · exact memOf this lives address owns
      · exact memOf _ (tasks.current_alive other) address (Or.inl holds)
    · intro other switched
      change Resumed _ _ ((sys.initProc kstack slot sched).place (sched.current other))
        (sys.left (sched.current other))
      rw [current, placeOf _ (tasks.current_alive other)]
      exact (contexts.switched other switched).agree
        ((memOf _ (tasks.current_alive other)).mono fun _ => Or.inl)
    · intro task lives used stopped stays
      change sched.state task ≠ _ at used stopped
      rw [stateSame] at used stopped
      rcases liveOf task lives with new | already
      · rw [new] at used
        exact absurd (tasks.created _ (Nat.le_refl _)) used
      · rw [placeOf task already]
        exact (contexts.suspended task already used stopped stays).agree (memOf task already)
    · intro task lives unused
      change sched.state task = _ at unused
      rw [stateSame] at unused
      rcases liveOf task lives with new | already
      · rw [new, newPlace]
        exact Function.update_self _ _ _
      · rw [placeOf task already, ← memOf task already _ (Or.inr rfl)]
        exact contexts.unstarted task already unused
    · exact contexts.found

theorem Sound.startMem_agree (sound : sys.Sound) {index : Nat} {procEntry : Word}
    {entry arg : Word} {region : Word → Prop} (lives : sys.live (.user index) = true)
    (unused : sys.sched.state (.user index) = .unused)
    (outside : ∀ address, (sys.place (.user index)).Holds address → ¬ region address) :
    AgreeOn region sys.mem (sys.startMem procEntry index entry arg) := by
  have whole := (sound.placed.fits _ lives).whole
  have context := sound.contexts.unstarted _ lives unused
  have holds : ∀ offset, offset < 112 → (sys.place (.user index)).Holds
      (sys.mem (sys.place (.user index)).slot + BitVec.ofNat 64 offset) := by
    intro offset small
    rw [context]
    unfold Place.Holds kcontextOffset
    unfold kstackSize at whole ⊢
    bv_omega
  apply AgreeOn.symm
  unfold startMem
  apply AgreeOn.update_left
  · apply AgreeOn.update_left
    · apply (AgreeOn.refl sys.mem).update_left
      have first := holds 0 (by decide)
      rw [BitVec.add_zero] at first
      exact outside _ first
    · exact outside _ (holds 8 (by decide))
  · exact outside _ (holds 16 (by decide))

theorem Sound.start (sound : sys.Sound) {index : Nat} {procEntry entry arg : Word} {sched : Sched}
    {woken : Bool} (small : index < sys.sched.procs)
    (unused : sys.sched.state (.user index) = .unused)
    (started : sys.sched.startProc index = .ok (woken, sched)) :
    (sys.start procEntry index entry arg sched).Sound := by
  obtain ⟨tasks, placed, contexts⟩ := id sound
  have same := Sched.startProc_tasks unused started
  have current : sched.current = sys.sched.current := same.2.1
  have stateThis : sched.state (.user index) = .runnable := by
    rw [same.1]
    exact Function.update_self _ _ _
  have stateOf : ∀ task, task ≠ .user index → sched.state task = sys.sched.state task := by
    intro task off
    rw [same.1]
    exact Function.update_of_ne off _ _
  have wakes : (sys.sched.state (.user index)).wakes false = true := by
    rw [unused]
    rfl
  have lives : sys.live (.user index) = true := by
    rcases tasks.known index small with lives | dead
    · exact lives
    · rw [unused] at dead
      cases dead
  have fits := placed.fits _ lives
  have elsewhere : ∀ other, sys.sched.current other ≠ .user index := by
    intro other this
    have running := tasks.current_running other
    rw [this, unused] at running
    cases running
  have memOf : ∀ task, sys.live task = true → task ≠ .user index →
      AgreeOn (sys.place task).Owns sys.mem (sys.startMem procEntry index entry arg) :=
    fun task also off => sound.startMem_agree lives unused
      fun _ holds => (placed.apart _ _ lives also (Ne.symm off)).holds holds
  have leftOf : ∀ task, task ≠ .user index →
      (sys.start procEntry index entry arg sched).left task = sys.left task :=
    fun task off => Function.update_of_ne off _ _
  refine ⟨(tasks.wake small wakes).same same.1 same.2.1 same.2.2.1, placed, ?_⟩
  constructor
  · exact contexts.holder
  · intro other inCode
    change (sys.place (sched.current other)).OnStack _
    rw [current]
    exact contexts.code other inCode
  · intro other this rest switching
    obtain ⟨more, also, used, stopped⟩ := contexts.leaver other this rest switching
    have off : this ≠ .user index := by
      intro equal
      rw [equal] at used
      exact used unused
    refine ⟨more, also, ?_, ?_⟩
    · change sched.state this ≠ .unused
      rw [stateOf this off]
      exact used
    · change sched.state this ≠ .running
      rw [stateOf this off]
      exact stopped
  · intro other this rest switching
    obtain ⟨-, also, used, -⟩ := contexts.leaver other this rest switching
    have off : this ≠ .user index := by
      intro equal
      rw [equal] at used
      exact used unused
    change Switching _ _ (sys.place (sched.current other))
      ((sys.start procEntry index entry arg sched).left (sched.current other)) _ _ _
    rw [current, leftOf this off, leftOf _ (elsewhere other)]
    apply (contexts.switching other this rest switching).agree
    rintro address (owns | holds)
    · exact memOf this also off address owns
    · exact memOf _ (tasks.current_alive other) (elsewhere other) address (Or.inl holds)
  · intro other switched
    change Resumed _ _ (sys.place (sched.current other))
      ((sys.start procEntry index entry arg sched).left (sched.current other))
    rw [current, leftOf _ (elsewhere other)]
    exact (contexts.switched other switched).agree
      ((memOf _ (tasks.current_alive other) (elsewhere other)).mono fun _ => Or.inl)
  · intro task also used stopped stays
    by_cases this : task = .user index
    · rw [this]
      have context := contexts.unstarted _ lives unused
      have whole := fits.whole
      have aligned := fits.aligned
      have slot : sys.startMem procEntry index entry arg (sys.place (.user index)).slot =
          sys.mem (sys.place (.user index)).slot := by
        have agree : AgreeOn (fun address => address = (sys.place (.user index)).slot) sys.mem
            (sys.startMem procEntry index entry arg) := by
          apply sound.startMem_agree lives unused
          intro address holds equal
          rw [equal] at holds
          exact fits.slotOff holds
        exact (agree _ rfl).symm
      have back : below (above (sys.mem (sys.place (.user index)).slot) 7) 7 =
          sys.mem (sys.place (.user index)).slot := by
        unfold below above
        bv_omega
      change Suspended (sys.startMem procEntry index entry arg) (sys.place (.user index))
        (Function.update sys.left (.user index) _ (.user index))
      rw [Function.update_self]
      constructor
      · rw [slot]
        exact back.symm
      · change Frame _ (readFrame _ _ _) (below (above _ 7) 7) kernelContext
        rw [back]
        exact Frame.of_read (by decide)
      · change (above _ 7).toNat % 16 = 0
        rw [context]
        unfold above kcontextOffset
        unfold kstackSize at whole
        bv_omega
      · change _ < (above _ 7).toNat
        rw [context]
        unfold above kcontextOffset
        unfold kstackSize at whole
        bv_omega
      · change (above _ 7).toNat ≤ _
        rw [context]
        unfold above kcontextOffset
        unfold kstackSize at whole ⊢
        bv_omega
      · exact fun _ _ _ => rfl
    · change sched.state task ≠ _ at used stopped
      rw [stateOf task this] at used stopped
      rw [leftOf task this]
      exact (contexts.suspended task also used stopped stays).agree (memOf task also this)
  · intro task also idle
    change sched.state task = .unused at idle
    have off : task ≠ .user index := by
      intro equal
      rw [equal, stateThis] at idle
      cases idle
    rw [stateOf task off] at idle
    change sys.startMem procEntry index entry arg (sys.place task).slot = _
    rw [← memOf task also off _ (Or.inr rfl)]
    exact contexts.unstarted task also idle
  · exact contexts.found

theorem Sound.isZombie (sound : sys.Sound) (lock : sys.lock = none) (index : Nat) :
    ({ sys with
      found := Function.update sys.found index
        (sys.found index || sys.sched.state (.user index) = .zombie) } : SwitchSystem).Sound := by
  obtain ⟨tasks, placed, contexts⟩ := sound
  refine ⟨tasks.find index, placed, ?_⟩
  have calm := contexts.none_leaves lock
  obtain ⟨holder, code, leaver, switching, switched, suspended, unstarted, -⟩ := contexts
  exact ⟨holder, code, leaver, switching, switched, suspended, unstarted, fun _ _ => calm _⟩

theorem Sound.freeProc (sound : sys.Sound) {index : Nat} (seen : sys.found index = true) :
    ({ sys with live := Function.update sys.live (.user index) false } : SwitchSystem).Sound := by
  obtain ⟨tasks, placed, contexts⟩ := sound
  have liveOf : ∀ task, Function.update sys.live (.user index) false task = true →
      sys.live task = true := by
    intro task lives
    by_cases this : task = .user index
    · rw [this, Function.update_self] at lives
      cases lives
    · rw [Function.update_of_ne this] at lives
      exact lives
  refine ⟨tasks.free seen, ?_, ?_⟩
  · constructor
    · exact fun task lives => placed.fits task (liveOf task lives)
    · exact fun task other lives also =>
        placed.apart task other (liveOf task lives) (liveOf other also)
  · obtain ⟨holder, code, leaver, switching, switched, suspended, unstarted, found⟩ := contexts
    refine ⟨holder, code, ?_, switching, switched, ?_, ?_, found⟩
    · intro other this rest going
      obtain ⟨more, lives, rest⟩ := leaver other this rest going
      refine ⟨more, ?_, rest⟩
      change Function.update sys.live (.user index) false this = true
      rw [Function.update_of_ne]
      · exact lives
      · intro same
        rw [same] at going
        exact found index seen ⟨other, _, going⟩
    · exact fun task lives => suspended task (liveOf task lives)
    · exact fun task lives => unstarted task (liveOf task lives)

/-! ### Steps and runs -/

theorem scheduler_ok {action : SchedAction} {next : Sched → SwitchSystem}
    (stepped : sys.scheduler action next = .ok after) :
    ∃ sched, schedStep sys.sched action = .ok sched ∧ next sched = after := by
  obtain ⟨sched, taken, same⟩ := map_eq_ok stepped
  cases result : schedStep sys.sched action with
  | error stop =>
      rw [result] at taken
      cases taken
  | ok value =>
      rw [result] at taken
      cases taken
      exact ⟨sched, rfl, same⟩

theorem locked_ok {action : SchedAction} {next : Sched → SwitchSystem}
    (stepped : sys.locked action next = .ok after) :
    ∃ sched, schedStep sys.sched action = .ok sched ∧ next sched = after := by
  unfold locked at stepped
  split at stepped
  · exact scheduler_ok stepped
  · cases stepped

theorem called_ok {index : Nat} {call : Except Stop (Bool × Sched)} {sched : Sched}
    (taken : (if index < sys.sched.procs then call.map Prod.snd else .error .disabled) =
      .ok sched) :
    index < sys.sched.procs ∧ ∃ woken, call = .ok (woken, sched) := by
  split at taken
  · rename_i small
    obtain ⟨⟨woken, value⟩, returned, same⟩ := map_eq_ok taken
    cases same
    exact ⟨small, woken, returned⟩
  · cases taken

theorem Sound.step {procEntry : Word} (sound : sys.Sound) {action : SwitchAction}
    (trusted : sys.Trusted action) (stepped : switchStep procEntry sys action = .ok after) :
    after.Sound := by
  cases action with
  | code cpu core mem =>
      simp only [switchStep] at stepped
      split at stepped
      · rename_i inCode
        cases stepped
        exact sound.code inCode trusted.1 trusted.2
      · cases stepped
  | acquire cpu =>
      simp only [switchStep] at stepped
      split at stepped
      · rename_i running
        split at stepped
        · rename_i lock
          cases stepped
          exact sound.acquire running lock
        · cases stepped
      · cases stepped
  | sched cpu newState =>
      simp only [switchStep] at stepped
      split at stepped
      · rename_i holding
        obtain ⟨sched, scheduled, same⟩ := scheduler_ok stepped
        rw [← same]
        exact sound.sched holding scheduled trusted.1 trusted.2
      · cases stepped
  | swtch cpu =>
      simp only [switchStep] at stepped
      split at stepped
      · rename_i this inst rest switching
        obtain ⟨core, mem, executed, sound'⟩ := sound.swtch_step switching
        rw [executed] at stepped
        cases stepped
        exact sound'
      · cases stepped
  | release cpu =>
      simp only [switchStep] at stepped
      split at stepped
      · rename_i switched
        cases stepped
        exact sound.release switched
      · cases stepped
  | createProc kstack slot =>
      obtain ⟨sched, taken, same⟩ := scheduler_ok stepped
      cases taken
      rw [← same]
      exact sound.initProc Sched.SameTasks.rfl trusted.1 trusted.2
  | createContainer kstack slot =>
      obtain ⟨sched, taken, same⟩ := scheduler_ok stepped
      cases taken
      rw [← same]
      exact sound.initProc Sched.createProc_tasks trusted.1 trusted.2
  | setContainerParentToThis cpu container =>
      obtain ⟨sched, taken, same⟩ := scheduler_ok stepped
      simp only [schedStep] at taken
      split at taken
      · cases taken
        rw [← same]
        exact sound.same rfl rfl rfl
      · cases taken
  | setProcToContainer index container =>
      obtain ⟨sched, taken, same⟩ := scheduler_ok stepped
      simp only [schedStep] at taken
      split at taken
      · cases taken
        rw [← same]
        exact sound.same rfl rfl rfl
      · cases taken
  | startProc index entry arg =>
      obtain ⟨sched, taken, same⟩ := locked_ok stepped
      obtain ⟨small, woken, started⟩ := called_ok taken
      rw [← same]
      exact sound.start small trusted started
  | activate index =>
      obtain ⟨sched, taken, same⟩ := locked_ok stepped
      obtain ⟨small, woken, activated⟩ := called_ok taken
      rw [← same]
      exact sound.wake small trusted activated
  | alert index =>
      obtain ⟨sched, taken, same⟩ := locked_ok stepped
      obtain ⟨small, woken, activated⟩ := called_ok taken
      rw [← same]
      exact sound.wake small trusted activated
  | setKilled task =>
      obtain ⟨sched, taken, same⟩ := scheduler_ok stepped
      cases taken
      rw [← same]
      exact sound.same rfl rfl rfl
  | setPanic =>
      obtain ⟨sched, taken, same⟩ := scheduler_ok stepped
      cases taken
      rw [← same]
      exact sound.same rfl rfl rfl
  | isZombie index =>
      simp only [switchStep] at stepped
      split at stepped
      · rename_i lock
        cases stepped
        exact sound.isZombie lock index
      · cases stepped
  | freeProc index =>
      simp only [switchStep] at stepped
      split at stepped
      · rename_i seen
        cases stepped
        exact sound.freeProc seen.1
      · cases stepped

theorem Sound.of_run {procEntry : Word} {guard : SwitchSystem → SwitchAction → Prop}
    {origin : SwitchSystem} {actions : List SwitchAction} (sound : origin.Sound)
    (trusted : ∀ state action, guard state action → state.Trusted action)
    (run : Run (switchStep procEntry) guard origin actions sys) : sys.Sound :=
  run.invariant sound (fun state action _ holds met stepped =>
    holds.step (trusted state action met) stepped)

end SwitchSystem

end LabKernel.Kernel
