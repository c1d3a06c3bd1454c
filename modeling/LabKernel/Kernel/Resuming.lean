/-
What a process finds when it is switched to.

For the process that calls it, `swtch` is a call that returns, later and perhaps on another CPU:
the stack pointer, the registers that a callee preserves and the stack in use are those of the
call. A new process arrives at `proc_entry` above an untouched `UserContext`. No two CPUs are ever
on one kernel stack, and the stack that `wait` frees has no CPU on it.
-/

import LabKernel.Kernel.SwitchRuns

set_option autoImplicit false

namespace LabKernel.Kernel

open Arm Outcomes Transition

namespace SwitchSystem

variable {sys after called later origin : SwitchSystem} {procEntry : Word} {task : Task}

/-- What the process left and where is as recorded, and the process has been started. -/
structure Recorded (sys : SwitchSystem) (task : Task) (left : Left) (place : Place) : Prop where
  used : sys.sched.state task ≠ .unused
  left : sys.left task = left
  place : sys.place task = place

/-- The code is trusted, and this process makes no call of the scheduler. -/
def TrustedOff (task : Task) (sys : SwitchSystem) (action : SwitchAction) : Prop :=
  sys.Trusted action ∧
    ∀ cpu newState, action = .sched cpu newState → sys.sched.current cpu ≠ task

theorem Recorded.switchTo {left : Left} {place : Place} {cpu : Fin ncpu} {sched : Sched}
    (recorded : sys.Recorded task left place) (off : sys.sched.current cpu ≠ task)
    (used : sched.state task ≠ .unused) : (sys.switchTo cpu sched).Recorded task left place := by
  unfold SwitchSystem.switchTo
  by_cases same : sched.current cpu = sys.sched.current cpu
  · rw [if_pos same]
    exact ⟨used, recorded.left, recorded.place⟩
  · rw [if_neg same]
    refine ⟨used, ?_, recorded.place⟩
    change Function.update sys.left (sys.sched.current cpu) _ task = left
    rw [Function.update_of_ne (Ne.symm off)]
    exact recorded.left

theorem Recorded.initProc {left : Left} {place : Place} {kstack slot : Word} {sched : Sched}
    (recorded : sys.Recorded task left place) (new : task ≠ .user sys.sched.procs)
    (same : Sched.SameTasks sys.sched.createProc sched) :
    (sys.initProc kstack slot sched).Recorded task left place := by
  refine ⟨?_, recorded.left, ?_⟩
  · change sched.state task ≠ .unused
    rw [same.1]
    change Function.update sys.sched.state (.user sys.sched.procs) .unused task ≠ .unused
    rw [Function.update_of_ne new]
    exact recorded.used
  · change Function.update sys.place (.user sys.sched.procs) _ task = place
    rw [Function.update_of_ne new]
    exact recorded.place

theorem activated_used {index : Nat} {onalert woken : Bool} {before sched : Sched}
    (used : before.state task ≠ .unused)
    (activated : before.activateProc (.user index) onalert = .ok (woken, sched)) :
    sched.state task ≠ .unused := by
  rcases Sched.activateProc_tasks activated with ⟨-, same⟩ | ⟨-, same⟩
  · rw [same]
    exact used
  · rw [same.1]
    change Function.update before.state (.user index) .runnable task ≠ .unused
    by_cases this : task = .user index
    · rw [this, Function.update_self]
      decide
    · rw [Function.update_of_ne this]
      exact used

/-- As long as a process does not call the scheduler, the record of it stays. -/
theorem Recorded.step {left : Left} {place : Place} {action : SwitchAction} (sound : sys.Sound)
    (recorded : sys.Recorded task left place) (met : TrustedOff task sys action)
    (stepped : switchStep procEntry sys action = .ok after) :
    after.Recorded task left place := by
  obtain ⟨trusted, off⟩ := met
  have new : task ≠ .user sys.sched.procs := by
    intro same
    have used := recorded.used
    rw [same] at used
    exact used (sound.tasks.created _ (Nat.le_refl _))
  cases action with
  | code cpu core mem =>
      simp only [switchStep] at stepped
      split at stepped
      · cases stepped
        exact ⟨recorded.used, recorded.left, recorded.place⟩
      · cases stepped
  | acquire cpu =>
      simp only [switchStep] at stepped
      split at stepped
      · split at stepped
        · cases stepped
          exact ⟨recorded.used, recorded.left, recorded.place⟩
        · cases stepped
      · cases stepped
  | sched cpu newState =>
      simp only [switchStep] at stepped
      split at stepped
      · obtain ⟨sched, scheduled, same⟩ := scheduler_ok stepped
        have absent := off cpu newState rfl
        rw [← same]
        apply recorded.switchTo absent
        rcases Sched.simpleSched_tasks scheduled with ⟨-, kept⟩ | ⟨-, next, hands⟩
        · rw [kept]
          exact recorded.used
        · rw [hands.state]
          by_cases entering : task = next
          · rw [entering, Function.update_self]
            decide
          · rw [Function.update_of_ne entering, Function.update_of_ne (Ne.symm absent)]
            exact recorded.used
      · cases stepped
  | swtch cpu =>
      simp only [switchStep] at stepped
      split at stepped
      · split at stepped
        · cases stepped
          exact ⟨recorded.used, recorded.left, recorded.place⟩
        · cases stepped
      · cases stepped
  | release cpu =>
      simp only [switchStep] at stepped
      split at stepped
      · cases stepped
        exact ⟨recorded.used, recorded.left, recorded.place⟩
      · cases stepped
  | createProc kstack slot =>
      obtain ⟨sched, taken, same⟩ := scheduler_ok stepped
      cases taken
      rw [← same]
      exact recorded.initProc new Sched.SameTasks.rfl
  | createContainer kstack slot =>
      obtain ⟨sched, taken, same⟩ := scheduler_ok stepped
      cases taken
      rw [← same]
      exact recorded.initProc new Sched.createProc_tasks
  | setContainerParentToThis cpu container =>
      obtain ⟨sched, taken, same⟩ := scheduler_ok stepped
      simp only [schedStep] at taken
      split at taken
      · cases taken
        rw [← same]
        exact ⟨recorded.used, recorded.left, recorded.place⟩
      · cases taken
  | setProcToContainer index container =>
      obtain ⟨sched, taken, same⟩ := scheduler_ok stepped
      simp only [schedStep] at taken
      split at taken
      · cases taken
        rw [← same]
        exact ⟨recorded.used, recorded.left, recorded.place⟩
      · cases taken
  | startProc index entry arg =>
      obtain ⟨sched, taken, same⟩ := locked_ok stepped
      obtain ⟨-, woken, started⟩ := called_ok taken
      have other : task ≠ .user index := by
        intro this
        apply recorded.used
        rw [this]
        exact trusted
      rw [← same]
      refine ⟨?_, ?_, recorded.place⟩
      · change sched.state task ≠ .unused
        rw [(Sched.startProc_tasks trusted started).1]
        change Function.update sys.sched.state (.user index) .runnable task ≠ .unused
        rw [Function.update_of_ne other]
        exact recorded.used
      · change Function.update sys.left (.user index) _ task = left
        rw [Function.update_of_ne other]
        exact recorded.left
  | activate index =>
      obtain ⟨sched, taken, same⟩ := locked_ok stepped
      obtain ⟨-, woken, activated⟩ := called_ok taken
      rw [← same]
      exact ⟨activated_used recorded.used activated, recorded.left, recorded.place⟩
  | alert index =>
      obtain ⟨sched, taken, same⟩ := locked_ok stepped
      obtain ⟨-, woken, activated⟩ := called_ok taken
      rw [← same]
      exact ⟨activated_used recorded.used activated, recorded.left, recorded.place⟩
  | setKilled other =>
      obtain ⟨sched, taken, same⟩ := scheduler_ok stepped
      cases taken
      rw [← same]
      exact ⟨recorded.used, recorded.left, recorded.place⟩
  | setPanic =>
      obtain ⟨sched, taken, same⟩ := scheduler_ok stepped
      cases taken
      rw [← same]
      exact ⟨recorded.used, recorded.left, recorded.place⟩
  | isZombie index =>
      simp only [switchStep] at stepped
      split at stepped
      · cases stepped
        exact ⟨recorded.used, recorded.left, recorded.place⟩
      · cases stepped
  | freeProc index =>
      simp only [switchStep] at stepped
      split at stepped
      · cases stepped
        exact ⟨recorded.used, recorded.left, recorded.place⟩
      · cases stepped

/-- What a CPU finds that has come to a process since the record of it was made. -/
theorem Recorded.resumes {left : Left} {place : Place} {onward : List SwitchAction}
    {cpu : Fin ncpu} (sound : sys.Sound) (recorded : sys.Recorded task left place)
    (away : Run (switchStep procEntry) (TrustedOff task) sys onward later)
    (back : later.phase cpu = .switched) (here : later.sched.current cpu = task) :
    Resumed (later.core cpu) later.mem place left := by
  have kept : later.Sound ∧ later.Recorded task left place :=
    away.invariant (P := fun state => state.Sound ∧ state.Recorded task left place)
      ⟨sound, recorded⟩ (fun state action _ holds met stepped =>
        ⟨holds.1.step met.1 stepped, holds.2.step holds.1 met stepped⟩)
  have resumed := kept.1.contexts.switched cpu back
  rw [here, kept.2.place, kept.2.left] at resumed
  exact resumed

theorem called_recorded {cpu : Fin ncpu} {newState : ProcState}
    (calls : switchStep procEntry sys (.sched cpu newState) = .ok called)
    (switches : called.phase cpu ≠ .running) :
    ∃ core : Core, core.sp = (sys.core cpu).sp ∧ core.reg lr = (sys.core cpu).pc + 4 ∧
      (∀ target : Reg, 19 ≤ target.val → target.val ≤ 29 →
        core.reg target = (sys.core cpu).reg target) ∧
      called.Recorded (sys.sched.current cpu) { reg := core.reg, sp := core.sp, mem := sys.mem }
        (sys.place (sys.sched.current cpu)) := by
  simp only [switchStep] at calls
  split at calls
  · obtain ⟨sched, scheduled, same⟩ := scheduler_ok calls
    rw [← same] at switches ⊢
    unfold SwitchSystem.switchTo at switches ⊢
    by_cases stays : sched.current cpu = sys.sched.current cpu
    · rw [if_pos stays] at switches
      exact absurd (Function.update_self _ _ _) switches
    · rw [if_neg stays]
      refine ⟨sys.swtchCore cpu (sys.sched.current cpu) (sched.current cpu), rfl, ?_, ?_, ?_⟩
      · simp [swtchCore, Core.setReg]
      · intro target low high
        have apart : target ≠ lr ∧ target ≠ 1 ∧ target ≠ 0 := by
          simp only [ne_eq, Fin.ext_iff, lr]
          omega
        change Function.update (Function.update (Function.update (sys.core cpu).reg 0 _) 1 _) lr _
          target = _
        rw [Function.update_of_ne apart.1, Function.update_of_ne apart.2.1,
          Function.update_of_ne apart.2.2]
      · refine ⟨?_, Function.update_self _ _ _, rfl⟩
        rcases Sched.simpleSched_tasks scheduled with ⟨-, kept⟩ | ⟨-, next, hands⟩
        · rw [kept] at stays
          exact absurd rfl stays
        · have here : sched.current cpu = next := by
            rw [hands.current, Function.update_self]
          rw [here] at stays
          change sched.state (sys.sched.current cpu) ≠ .unused
          rw [hands.state, Function.update_of_ne (Ne.symm stays), Function.update_self]
          exact hands.stopped.1
  · cases calls

/-- A call of `swtch` returns to the instruction behind it, on whichever CPU and after whatever
has run meanwhile: the stack pointer, the registers that a callee preserves and the stack in use
are as they were. -/
theorem swtch_returns {actions onward : List SwitchAction} {cpu other : Fin ncpu}
    {newState : ProcState} (booted : origin.Booted)
    (run : Run (switchStep procEntry) SwitchSystem.Trusted origin actions sys)
    (trusted : sys.Trusted (.sched cpu newState))
    (calls : switchStep procEntry sys (.sched cpu newState) = .ok called)
    (switches : called.phase cpu ≠ .running)
    (away : Run (switchStep procEntry) (TrustedOff (sys.sched.current cpu)) called onward later)
    (back : later.phase other = .switched)
    (here : later.sched.current other = sys.sched.current cpu) :
    (later.core other).sp = (sys.core cpu).sp ∧
      (later.core other).pc = (sys.core cpu).pc + 4 ∧
      (∀ target : Reg, 19 ≤ target.val → target.val ≤ 29 →
        (later.core other).reg target = (sys.core cpu).reg target) ∧
      ∀ address, (sys.place (sys.sched.current cpu)).Holds address →
        (sys.core cpu).sp.toNat ≤ address.toNat → later.mem address = sys.mem address := by
  have sound := booted.sound.of_run (fun _ _ => id) run
  obtain ⟨core, sp, link, regs, recorded⟩ := called_recorded calls switches
  have resumed := recorded.resumes (sound.step trusted calls) away back here
  refine ⟨resumed.sp.trans sp, resumed.pc.trans link, ?_, ?_⟩
  · intro target low high
    rw [resumed.reg target (by revert low high; revert target; decide)]
    exact regs target low high
  · intro address holds high
    rw [← sp] at high
    exact resumed.kept address holds high

def bootedCpus : SwitchSystem :=
  { sched := Sched.initial
    lock := none
    phase := fun _ => .running
    core := fun cpu =>
      { reg := fun target => BitVec.ofNat 64 (100 * cpu.val + target.val)
        sp := BitVec.ofNat 64 (4096 * (cpu.val + 2))
        pc := 524288
        pstate := 0
        sys := fun _ => 0 }
    mem := fun _ => 0
    place := fun task => match task with
      | .idle cpu =>
          { kstack := BitVec.ofNat 64 (4096 * (cpu.val + 1))
            slot := BitVec.ofNat 64 (65536 + 8 * cpu.val) }
      | .user _ => { kstack := 0, slot := 0 }
    live := fun task => match task with
      | .idle _ => true
      | .user _ => false
    found := fun _ => false
    left := fun _ => { reg := fun _ => 0, sp := 0, mem := fun _ => 0 } }

theorem bootedCpus_booted : bootedCpus.Booted := by
  refine ⟨rfl, rfl, fun _ => rfl, fun _ => rfl, fun _ => rfl, fun _ => rfl, by decide, ?_, ?_⟩
  · intro cpu
    constructor <;> revert cpu <;> decide
  · intro cpu other different
    constructor <;> revert cpu other different <;> decide

/-- The state after `init_proc` has been given this page and this `struct proc`. -/
def bootedProc : SwitchSystem :=
  bootedCpus.initProc 131072 196608 Sched.initial.createProc

theorem bootedProc_run :
    Run (switchStep 64) SwitchSystem.Trusted bootedCpus [.createProc 131072 196608] bootedProc := by
  apply Run.start.next _ rfl
  refine ⟨?_, ?_⟩
  · constructor <;> decide
  · intro task lives
    cases task with
    | user index => cases lives
    | idle cpu =>
        constructor <;> revert cpu <;> decide

/-- `TrustedOff` for these steps, as a check. -/
def allowedOff (task : Option Task) (sys : SwitchSystem) : SwitchAction → Bool
  | .sched cpu _ =>
      ((sys.core cpu).sp.toNat % 16 = 0 ∧
        (sys.place (sys.sched.current cpu)).kstack.toNat + 112 < (sys.core cpu).sp.toNat) ∧
      some (sys.sched.current cpu) ≠ task
  | .startProc index _ _ => sys.sched.state (.user index) = .unused
  | .acquire _ | .swtch _ | .release _ => true
  | _ => false

theorem allowedOff_sound (task : Task) (sys : SwitchSystem) (action : SwitchAction)
    (allowed : allowedOff (some task) sys action = true) : TrustedOff task sys action := by
  cases action <;> simp only [allowedOff, decide_eq_true_eq, Bool.false_eq_true] at allowed
  case sched cpu newState =>
    refine ⟨allowed.1, ?_⟩
    intro other state same away
    cases same
    exact allowed.2 (congrArg some away)
  case startProc index entry arg =>
    exact ⟨allowed, fun _ _ same => by cases same⟩
  all_goals exact ⟨trivial, fun _ _ same => by cases same⟩

theorem allowed_sound (sys : SwitchSystem) (action : SwitchAction)
    (allowed : allowedOff none sys action = true) : sys.Trusted action := by
  cases action <;> simp only [allowedOff, decide_eq_true_eq, Bool.false_eq_true] at allowed
  case sched cpu newState => exact allowed.1
  case startProc index entry arg => exact allowed
  all_goals trivial

def bootCpu : Fin ncpu := ⟨0, by decide⟩

def swtchSteps : List SwitchAction := List.replicate 18 (.swtch bootCpu)

/-- The idle process of the CPU calls the scheduler here and comes back. -/
def idleReturns (sys : SwitchSystem) : Bool :=
  allowedOff none sys (.sched bootCpu .runnable) &&
    match switchStep 64 sys (.sched bootCpu .runnable) with
    | .ok called =>
        called.phase bootCpu ≠ .running &&
          checkRun (switchStep 64) (allowedOff (some (sys.sched.current bootCpu)))
            (fun later => later.phase bootCpu = .switched ∧
              later.sched.current bootCpu = sys.sched.current bootCpu) called
            (swtchSteps ++ [.release bootCpu, .acquire bootCpu, .sched bootCpu .sleeping] ++
              swtchSteps)
    | .error _ => false

theorem idleReturns_passed :
    checkRun (switchStep 64) (allowedOff none) idleReturns bootedProc
      [.startProc 0 7 8, .acquire bootCpu] = true := by
  decide +kernel

theorem swtch_returns_idle :
    ∃ (sys later : SwitchSystem) (actions : List SwitchAction),
      Run (switchStep 64) SwitchSystem.Trusted bootedCpus actions sys ∧
      later.phase bootCpu = .switched ∧
      (later.core bootCpu).sp = (sys.core bootCpu).sp ∧
      (later.core bootCpu).pc = (sys.core bootCpu).pc + 4 := by
  obtain ⟨sys, run, returns⟩ := Run.of_checkRun allowed_sound idleReturns_passed
  unfold idleReturns at returns
  rw [Bool.and_eq_true] at returns
  obtain ⟨allowed, returns⟩ := returns
  split at returns
  · rename_i called calls
    rw [Bool.and_eq_true, decide_eq_true_eq] at returns
    obtain ⟨switches, passed⟩ := returns
    obtain ⟨later, away, back⟩ := Run.of_checkRun (allowedOff_sound _) passed
    rw [decide_eq_true_eq] at back
    have result := swtch_returns bootedCpus_booted (bootedProc_run.append run)
      (allowed_sound _ _ allowed) calls switches away back.1 back.2
    exact ⟨sys, later, _, bootedProc_run.append run, back.1, result.1, result.2.1⟩
  · cases returns

/-- The CPU that first comes to a new process is at `proc_entry`, with the two arguments of
`start_proc` and its stack pointer at the `UserContext`, which is as it was. -/
theorem started_process_enters {actions onward : List SwitchAction} {cpu : Fin ncpu}
    {index : Nat} {entry arg : Word} {started : SwitchSystem} (booted : origin.Booted)
    (run : Run (switchStep procEntry) SwitchSystem.Trusted origin actions sys)
    (trusted : sys.Trusted (.startProc index entry arg))
    (starts : switchStep procEntry sys (.startProc index entry arg) = .ok started)
    (away : Run (switchStep procEntry) (TrustedOff (.user index)) started onward later)
    (back : later.phase cpu = .switched) (here : later.sched.current cpu = .user index) :
    (later.core cpu).pc = procEntry ∧ (later.core cpu).reg 0 = entry ∧
      (later.core cpu).reg 1 = arg ∧
      (later.core cpu).sp =
        (sys.place (.user index)).kstack + BitVec.ofNat 64 ucontextOffset ∧
      ∀ address, (sys.place (.user index)).Holds address →
        (sys.place (.user index)).kstack.toNat + ucontextOffset ≤ address.toNat →
          later.mem address = sys.mem address := by
  have sound := booted.sound.of_run (fun _ _ => id) run
  obtain ⟨sched, taken, same⟩ := locked_ok starts
  obtain ⟨small, woken, called⟩ := called_ok taken
  have unused : sys.sched.state (.user index) = .unused := trusted
  have lives : sys.live (.user index) = true := by
    rcases sound.tasks.known index small with lives | dead
    · exact lives
    · rw [unused] at dead
      cases dead
  have context := sound.contexts.unstarted _ lives unused
  have whole := (sound.placed.fits _ lives).whole
  have recorded : started.Recorded (.user index) (sys.startLeft procEntry index entry arg)
      (sys.place (.user index)) := by
    rw [← same]
    refine ⟨?_, Function.update_self _ _ _, rfl⟩
    change sched.state (.user index) ≠ .unused
    rw [(Sched.startProc_tasks unused called).1]
    change Function.update sys.sched.state (.user index) .runnable (.user index) ≠ .unused
    rw [Function.update_self]
    decide
  have resumed := recorded.resumes (sound.step trusted starts) away back here
  have top : (sys.startLeft procEntry index entry arg).sp =
      (sys.place (.user index)).kstack + BitVec.ofNat 64 ucontextOffset := by
    change above (sys.mem (sys.place (.user index)).slot) 7 = _
    rw [context]
    unfold above kcontextOffset ucontextOffset
    bv_omega
  have field : ∀ target, target ∈ kernelContext → (later.core cpu).reg target =
      readFrame (sys.startMem procEntry index entry arg)
        (sys.mem (sys.place (.user index)).slot) kernelContext target := resumed.reg
  have first : sys.mem (sys.place (.user index)).slot ≠
      sys.mem (sys.place (.user index)).slot + 8 := by bv_omega
  have second : sys.mem (sys.place (.user index)).slot ≠
      sys.mem (sys.place (.user index)).slot + 16 := by bv_omega
  have third : sys.mem (sys.place (.user index)).slot + 8 ≠
      sys.mem (sys.place (.user index)).slot + 16 := by bv_omega
  have fourth : sys.mem (sys.place (.user index)).slot + 8 + 8 =
      sys.mem (sys.place (.user index)).slot + 16 := by bv_omega
  refine ⟨?_, ?_, ?_, resumed.sp.trans top, ?_⟩
  · rw [resumed.pc]
    change sys.startMem procEntry index entry arg (sys.mem (sys.place (.user index)).slot) = _
    unfold SwitchSystem.startMem
    rw [Function.update_of_ne second, Function.update_of_ne first, Function.update_self]
  · rw [field 0 (by decide)]
    change sys.startMem procEntry index entry arg (sys.mem (sys.place (.user index)).slot + 8) = _
    unfold SwitchSystem.startMem
    rw [Function.update_of_ne third, Function.update_self]
  · rw [field 1 (by decide)]
    change sys.startMem procEntry index entry arg
      (sys.mem (sys.place (.user index)).slot + 8 + 8) = _
    unfold SwitchSystem.startMem
    rw [fourth, Function.update_self]
  · intro address holds high
    rw [resumed.kept address holds]
    · change sys.startMem procEntry index entry arg address = _
      unfold SwitchSystem.startMem
      have off : ∀ offset, offset < 24 →
          address ≠ sys.mem (sys.place (.user index)).slot + BitVec.ofNat 64 offset := by
        intro offset less equal
        rw [context] at equal
        rw [equal] at high
        unfold kcontextOffset ucontextOffset at high
        unfold kstackSize at whole
        bv_omega
      have low : address ≠ sys.mem (sys.place (.user index)).slot := by
        have none := off 0 (by decide)
        rw [BitVec.add_zero] at none
        exact none
      have middle : address ≠ sys.mem (sys.place (.user index)).slot + 8 := off 8 (by decide)
      have last : address ≠ sys.mem (sys.place (.user index)).slot + 16 := off 16 (by decide)
      rw [Function.update_of_ne last, Function.update_of_ne middle, Function.update_of_ne low]
    · rw [top]
      unfold ucontextOffset at high ⊢
      unfold kstackSize at whole
      bv_omega

theorem started_process_enters_first :
    ∃ started later onward,
      Run (switchStep 64) (TrustedOff (.user 0)) started onward later ∧
      later.phase bootCpu = .switched ∧ (later.core bootCpu).pc = 64 ∧
      (later.core bootCpu).reg 0 = 7 ∧ (later.core bootCpu).reg 1 = 8 ∧
      (later.core bootCpu).sp = 131072 + BitVec.ofNat 64 ucontextOffset := by
  obtain ⟨sched, started⟩ : ∃ sched, schedStep bootedProc.sched (.startProc 0) = .ok sched :=
    ⟨_, rfl⟩
  have starts : switchStep 64 bootedProc (.startProc 0 7 8) =
      .ok (bootedProc.start 64 0 7 8 sched) := by
    cases started
    rfl
  have passed : checkRun (switchStep 64) (allowedOff (some (.user 0)))
      (fun later => later.phase bootCpu = .switched ∧ later.sched.current bootCpu = .user 0)
      (bootedProc.start 64 0 7 8 sched)
      ([.acquire bootCpu, .sched bootCpu .runnable] ++ swtchSteps) = true := by
    cases started
    decide +kernel
  obtain ⟨later, away, back⟩ := Run.of_checkRun (allowedOff_sound _) passed
  rw [decide_eq_true_eq] at back
  have unused : bootedProc.sched.state (.user 0) = .unused := rfl
  have result := started_process_enters bootedCpus_booted bootedProc_run unused starts away back.1
    back.2
  exact ⟨_, later, _, away, back.1, result.1, result.2.1, result.2.2.1, result.2.2.2.1⟩

theorem Sound.stands (sound : sys.Sound) (cpu : Fin ncpu) :
    ∃ task, sys.live task = true ∧ (sys.place task).OnStack (sys.core cpu).sp ∧
      (sys.sched.current cpu = task ∨ ∃ rest, sys.phase cpu = .switching task rest) := by
  have lives := sound.tasks.current_alive cpu
  cases phase : sys.phase cpu with
  | running =>
      refine ⟨_, lives, sound.contexts.code cpu ?_, Or.inl rfl⟩
      rw [phase]
      rfl
  | holding =>
      refine ⟨_, lives, sound.contexts.code cpu ?_, Or.inl rfl⟩
      rw [phase]
      rfl
  | switched => exact ⟨_, lives, (sound.contexts.switched cpu phase).onStack, Or.inl rfl⟩
  | switching this rest =>
      obtain ⟨-, thisLives, -, -⟩ := sound.contexts.leaver cpu this rest phase
      have stays : (sys.place this).OnStack (sys.core cpu).sp ∨
          (sys.place (sys.sched.current cpu)).OnStack (sys.core cpu).sp := by
        have runs := sound.contexts.switching cpu this rest phase
        cases rest with
        | nil => exact runs.1
        | cons inst rest => exact runs.1
      rcases stays with here | there
      · exact ⟨this, thisLives, here, Or.inr ⟨rest, rfl⟩⟩
      · exact ⟨_, lives, there, Or.inl rfl⟩

theorem Sound.stands_on (sound : sys.Sound) {cpu : Fin ncpu} (lives : sys.live task = true)
    (on : (sys.place task).OnStack (sys.core cpu).sp) :
    sys.sched.current cpu = task ∨ ∃ rest, sys.phase cpu = .switching task rest := by
  obtain ⟨stand, also, under, why⟩ := sound.stands cpu
  have same : stand = task := by
    by_contra different
    exact (sound.placed.apart stand task also lives different).onStack under on
  rw [← same]
  exact why

/-- Every CPU is on the stack of a process that has memory, and no two are on the same. The stack
of a process that `wait` has found dead has no CPU on it. And `swtch`, where a CPU has come to it,
goes on without a fault. -/
theorem kernel_stacks_exclusive {actions : List SwitchAction} (booted : origin.Booted)
    (run : Run (switchStep procEntry) SwitchSystem.Trusted origin actions sys) :
    (∀ cpu, ∃ task, sys.live task = true ∧ (sys.place task).OnStack (sys.core cpu).sp) ∧
      (∀ cpu other task, sys.live task = true → (sys.place task).OnStack (sys.core cpu).sp →
        (sys.place task).OnStack (sys.core other).sp → cpu = other) ∧
      (∀ index cpu, sys.found index = true → sys.live (.user index) = true →
        ¬ (sys.place (.user index)).OnStack (sys.core cpu).sp) ∧
      ∀ cpu this rest, sys.phase cpu = .switching this rest →
        ∃ after, switchStep procEntry sys (.swtch cpu) = .ok after := by
  have sound := booted.sound.of_run (fun _ _ => id) run
  refine ⟨?_, ?_, ?_, ?_⟩
  · intro cpu
    obtain ⟨task, lives, on, -⟩ := sound.stands cpu
    exact ⟨task, lives, on⟩
  · intro cpu other task lives on also
    rcases sound.stands_on lives on with current | ⟨rest, switching⟩
    · rcases sound.stands_on lives also with second | ⟨rest, switching⟩
      · exact sound.tasks.apart cpu other (current.trans second.symm)
      · exact absurd current.symm (sound.leaver_current switching)
    · rcases sound.stands_on lives also with second | ⟨more, leaving⟩
      · exact absurd second.symm (sound.leaver_current switching)
      · by_contra different
        have busy : sys.phase cpu ≠ .running := by
          rw [switching]
          simp
        have idle := sound.contexts.alone busy (Ne.symm different)
        rw [leaving] at idle
        cases idle
  · intro index cpu seen lives on
    rcases sound.stands_on lives on with current | ⟨rest, switching⟩
    · have dead := sound.tasks.found index seen
      rw [← current, sound.tasks.current_running] at dead
      cases dead
    · exact sound.contexts.found index seen ⟨cpu, rest, switching⟩
  · intro cpu this rest switching
    obtain ⟨unfinished, -⟩ := sound.contexts.leaver cpu this rest switching
    cases rest with
    | nil => exact absurd rfl unfinished
    | cons inst rest =>
        obtain ⟨core, mem, executed, -⟩ := sound.swtch_step switching
        refine ⟨sys.executed cpu this rest core mem, ?_⟩
        simp only [switchStep, switching, executed]

def secondProc : SwitchSystem := bootedProc.initProc 139264 196616 bootedProc.sched.createProc

theorem secondProc_run : Run (switchStep 64) SwitchSystem.Trusted bootedCpus
    [.createProc 131072 196608, .createProc 139264 196616] secondProc := by
  apply bootedProc_run.next _ rfl
  refine ⟨?_, ?_⟩
  · constructor <;> decide
  · intro task lives
    cases task with
    | idle cpu => constructor <;> revert cpu <;> decide
    | user index =>
        cases index with
        | zero => constructor <;> decide
        | succ index => cases lives

/-- Process 1 exits and is found by `wait`; then process 0 is on its way to the idle process. -/
def exitAndLeave : List SwitchAction :=
  [.startProc 0 7 8, .startProc 1 9 10, .acquire bootCpu, .sched bootCpu .runnable] ++ swtchSteps ++
    [.release bootCpu, .acquire bootCpu, .sched bootCpu .zombie] ++ swtchSteps ++
    [.release bootCpu, .isZombie 1, .acquire bootCpu, .sched bootCpu .sleeping] ++
    swtchSteps.take 9

/-- The steps of `allowedOff`, and the check of `wait`. -/
def allowedWaiting (sys : SwitchSystem) : SwitchAction → Bool
  | .isZombie _ => true
  | action => allowedOff none sys action

theorem allowedWaiting_sound (sys : SwitchSystem) (action : SwitchAction)
    (allowed : allowedWaiting sys action = true) : sys.Trusted action := by
  cases action with
  | isZombie index => exact True.intro
  | _ => exact allowed_sound sys _ allowed

/-- One CPU is in the middle of `swtch` when a zombie is reaped. -/
theorem kernel_stacks_exclusive_reaped : ∃ actions sys reaped,
    Run (switchStep 64) SwitchSystem.Trusted bootedCpus actions sys ∧
      sys.phase bootCpu = .switching (.user 0) (Kernel.swtch.drop 9) ∧
      (∃ after, switchStep 64 sys (.swtch bootCpu) = .ok after) ∧
      (∀ cpu, ¬(sys.place (.user 1)).OnStack (sys.core cpu).sp) ∧
      switchStep 64 sys (.freeProc 1) = .ok reaped ∧ reaped.live (.user 1) = false ∧
      (∀ cpu, ∃ task, reaped.live task = true ∧
        (reaped.place task).OnStack (reaped.core cpu).sp) ∧
      ∀ cpu other task, reaped.live task = true → (reaped.place task).OnStack (reaped.core cpu).sp →
        (reaped.place task).OnStack (reaped.core other).sp → cpu = other := by
  have passed : checkRun (switchStep 64) allowedWaiting
      (fun sys => decide (sys.phase bootCpu = .switching (.user 0) (Kernel.swtch.drop 9)) &&
        (sys.found 1 && sys.live (.user 1))) secondProc exitAndLeave = true := by
    decide +kernel
  obtain ⟨sys, run, checked⟩ := Run.of_checkRun allowedWaiting_sound passed
  simp only [Bool.and_eq_true, decide_eq_true_eq] at checked
  obtain ⟨leaving, found, lives⟩ := checked
  have whole := secondProc_run.append run
  obtain ⟨-, -, dead, goes⟩ := kernel_stacks_exclusive bootedCpus_booted whole
  have freed : switchStep 64 sys (.freeProc 1) =
      .ok { sys with live := Function.update sys.live (.user 1) false } := by
    unfold switchStep
    exact if_pos ⟨found, lives⟩
  have trusted : sys.Trusted (.freeProc 1) := True.intro
  obtain ⟨on, alone, -, -⟩ :=
    kernel_stacks_exclusive bootedCpus_booted (whole.next trusted freed)
  refine ⟨_, sys, _, whole, leaving, goes bootCpu _ _ leaving, ?_, freed, ?_, on, alone⟩
  · exact fun cpu => dead 1 cpu found lives
  · exact Function.update_self (Task.user 1) false sys.live

end SwitchSystem

end LabKernel.Kernel
