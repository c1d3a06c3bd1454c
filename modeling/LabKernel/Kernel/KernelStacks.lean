/-
The kernel stacks and the saved contexts of the processes.

A process that is off the CPU keeps its context on its own stack, whole and untouched, until it is
switched to. The one exception is a process whose CPU is still executing `swtch` for it. That CPU
holds the lock, so nobody can choose the process, or find it dead, before its context is complete.
-/

import LabKernel.Kernel.Tasks

set_option autoImplicit false

namespace LabKernel.Kernel

open Arm Outcomes Transition

/-! ### Contexts -/

/-- The context of a process lies below the stack pointer it left with, `kcontext` points to it,
and the stack above is as it was. -/
structure Suspended (mem : Words) (place : Place) (left : Left) : Prop where
  context : mem place.slot = below left.sp 7
  frame : Frame mem left.reg (below left.sp 7) kernelContext
  aligned : left.sp.toNat % 16 = 0
  room : place.kstack.toNat + 112 < left.sp.toNat
  top : left.sp.toNat ≤ place.kstack.toNat + kstackSize
  kept : ∀ address, place.Holds address → left.sp.toNat ≤ address.toNat →
    mem address = left.mem address

/-- The core goes on where the process left, on the stack that it had. -/
structure Resumed (core : Core) (mem : Words) (place : Place) (left : Left) : Prop where
  sp : core.sp = left.sp
  pc : core.pc = left.reg lr
  reg : ∀ target ∈ kernelContext, core.reg target = left.reg target
  onStack : place.OnStack core.sp
  kept : ∀ address, place.Holds address → left.sp.toNat ≤ address.toNat →
    mem address = left.mem address

/-- The words that a switch between two processes deals with. -/
def SwitchRegion (this next : Place) (address : Word) : Prop :=
  this.Owns address ∨ next.Holds address

/-- The rest of `swtch` brings the core to the next process and leaves this one suspended. -/
def Switching (this : Place) (left : Left) (next : Place) (nextLeft : Left) :
    List Inst → Core → Words → Prop :=
  Runs (SwitchRegion this next) (fun sp => this.OnStack sp ∨ next.OnStack sp)
    (fun core mem => Resumed core mem next nextLeft ∧ Suspended mem this left)

section Context

variable {mem other : Words} {this next place : Place} {left nextLeft : Left} {core : Core}

theorem row_holds {sp : Word} (room : place.kstack.toNat + 112 < sp.toNat)
    (top : sp.toNat ≤ place.kstack.toNat + kstackSize) {address : Word}
    (inside : Row (below sp 7) 14 address) : place.Holds address := by
  obtain ⟨index, less, same⟩ := inside
  unfold below at same
  unfold kstackSize at top
  unfold Place.Holds kstackSize
  bv_omega

theorem row_below {sp : Word} (room : place.kstack.toNat + 112 < sp.toNat) {address : Word}
    (inside : Row (below sp 7) 14 address) : address.toNat < sp.toNat := by
  obtain ⟨index, less, same⟩ := inside
  unfold below at same
  bv_omega

theorem Suspended.agree (suspended : Suspended mem place left)
    (agree : AgreeOn place.Owns mem other) : Suspended other place left := by
  obtain ⟨context, frame, aligned, room, top, kept⟩ := suspended
  constructor
  · rw [← agree _ (Or.inr rfl)]
    exact context
  · apply frame.agree
    intro address inside
    exact agree address (Or.inl (row_holds room top inside))
  · exact aligned
  · exact room
  · exact top
  · intro address holds high
    rw [← agree address (Or.inl holds)]
    exact kept address holds high

theorem Resumed.agree (resumed : Resumed core mem place left)
    (agree : AgreeOn place.Holds mem other) : Resumed core other place left := by
  obtain ⟨sp, pc, reg, onStack, kept⟩ := resumed
  refine ⟨sp, pc, reg, onStack, ?_⟩
  intro address holds high
  rw [← agree address holds]
  exact kept address holds high

theorem Switching.agree {rest : List Inst}
    (switching : Switching this left next nextLeft rest core mem)
    (agree : AgreeOn (SwitchRegion this next) mem other) :
    Switching this left next nextLeft rest core other := by
  apply Runs.agree switching agree
  rintro core mem other same ⟨resumed, suspended⟩
  exact ⟨resumed.agree (same.mono fun _ => Or.inr), suspended.agree (same.mono fun _ => Or.inl)⟩

theorem Place.Apart.symm (apart : this.Apart next) : next.Apart this :=
  ⟨apart.disjoint.symm, apart.slots.symm, apart.otherOff, apart.slotOff⟩

theorem Place.Apart.onStack (apart : this.Apart next) {sp : Word} (on : this.OnStack sp) :
    ¬ next.OnStack sp := by
  intro other
  have disjoint := apart.disjoint
  unfold Place.OnStack at on other
  omega

theorem Place.Apart.holds (apart : this.Apart next) {address : Word} (holds : this.Holds address) :
    ¬ next.Owns address := by
  rintro (other | slot)
  · have disjoint := apart.disjoint
    unfold Place.Holds at holds other
    omega
  · rw [slot] at holds
    exact apart.slotOff holds

theorem Place.Apart.owns (apart : this.Apart next) {address : Word} (owns : this.Owns address) :
    ¬ next.Owns address := by
  rcases owns with holds | slot
  · exact apart.holds holds
  · rintro (holds | other)
    · rw [slot] at holds
      exact apart.otherOff holds
    · rw [slot] at other
      exact apart.slots other

/-- `swtch` between two processes with stacks of their own. -/
theorem Switching.start (fits : this.Fits) (apart : this.Apart next)
    (suspended : Suspended mem next nextLeft)
    (new : core.reg 0 = mem next.slot) (old : core.reg 1 = this.slot)
    (aligned : core.sp.toNat % 16 = 0) (room : this.kstack.toNat + 112 < core.sp.toNat)
    (top : core.sp.toNat ≤ this.kstack.toNat + kstackSize) :
    Switching this { reg := core.reg, sp := core.sp, mem := mem } next nextLeft swtch core mem := by
  obtain ⟨context, frame, nextAligned, nextRoom, nextTop, nextKept⟩ := suspended
  rw [context] at new
  have ours : ∀ address, Row (below core.sp 7) 14 address → this.Holds address :=
    fun address => row_holds room top
  have theirs : ∀ address, Row (core.reg 0) 14 address → next.Holds address := by
    rw [new]
    exact fun address => row_holds nextRoom nextTop
  apply runs_swtch
  · exact aligned
  · rw [new]
    unfold below
    bv_omega
  · rw [old]
    exact fits.slotAligned
  · exact fun address inside => Or.inl (Or.inl (ours address inside))
  · exact fun address inside => Or.inr (theirs address inside)
  · exact Or.inl (Or.inr old)
  · intro depth shallow
    refine Or.inl ⟨?_, ?_⟩
    · unfold below
      bv_omega
    · unfold below
      unfold kstackSize at top ⊢
      bv_omega
  · intro height low
    rw [new]
    refine Or.inr ⟨?_, ?_⟩
    · unfold above below
      unfold kstackSize at nextTop
      bv_omega
    · unfold above below
      unfold kstackSize at nextTop ⊢
      bv_omega
  · rw [new]
    exact frame
  · intro address inside same
    exact apart.symm.holds (theirs address inside) (Or.inl (ours address same))
  · rw [old]
    intro inside
    exact fits.slotOff (ours _ inside)
  · rw [old]
    intro inside
    exact apart.symm.holds (theirs _ inside) (Or.inr rfl)
  · intro core' mem' sp pc reg left slot same
    rw [new, above_below] at sp
    have kept : ∀ address, ¬ Row (below core.sp 7) 14 address → address ≠ this.slot →
        mem' address = mem address := by
      rw [← old]
      exact same
    constructor
    · refine ⟨sp, pc, reg, ?_, ?_⟩
      · rw [sp]
        exact ⟨by omega, nextTop⟩
      · intro address holds high
        have off := apart.symm.holds holds
        rw [kept address (fun inside => off (Or.inl (ours address inside)))
          (fun equal => off (Or.inr equal))]
        exact nextKept address holds high
    · refine ⟨?_, left, aligned, room, top, ?_⟩
      · rw [← old]
        exact slot
      · intro address holds high
        apply kept
        · intro inside
          have less := row_below room inside
          exact absurd high (Nat.not_le_of_lt less)
        · intro equal
          rw [equal] at holds
          exact fits.slotOff holds

end Context

/-! ### What every step keeps -/

/-- Stacks and pointers of their own for the processes that have memory. -/
structure Placed (place : Task → Place) (live : Task → Bool) : Prop where
  fits : ∀ task, live task = true → (place task).Fits
  apart : ∀ task other, live task = true → live other = true → task ≠ other →
    (place task).Apart (place other)

namespace SwitchSystem

/-- A CPU is executing `swtch` for this process. -/
def Leaves (sys : SwitchSystem) (task : Task) : Prop :=
  ∃ cpu rest, sys.phase cpu = .switching task rest

/-- Where the stack pointers are and which contexts are complete. -/
structure Contexts (sys : SwitchSystem) : Prop where
  holder : ∀ cpu, sys.lock = some cpu ↔ sys.phase cpu ≠ .running
  code : ∀ cpu, (sys.phase cpu).inCode = true →
    (sys.place (sys.sched.current cpu)).OnStack (sys.core cpu).sp
  leaver : ∀ cpu this rest, sys.phase cpu = .switching this rest →
    rest ≠ [] ∧ sys.live this = true ∧ sys.sched.state this ≠ .unused ∧
      sys.sched.state this ≠ .running
  switching : ∀ cpu this rest, sys.phase cpu = .switching this rest →
    Switching (sys.place this) (sys.left this) (sys.place (sys.sched.current cpu))
      (sys.left (sys.sched.current cpu)) rest (sys.core cpu) sys.mem
  switched : ∀ cpu, sys.phase cpu = .switched →
    Resumed (sys.core cpu) sys.mem (sys.place (sys.sched.current cpu))
      (sys.left (sys.sched.current cpu))
  suspended : ∀ task, sys.live task = true → sys.sched.state task ≠ .unused →
    sys.sched.state task ≠ .running → ¬ sys.Leaves task →
    Suspended sys.mem (sys.place task) (sys.left task)
  unstarted : ∀ task, sys.live task = true → sys.sched.state task = .unused →
    sys.mem (sys.place task).slot = (sys.place task).kstack + BitVec.ofNat 64 kcontextOffset
  found : ∀ index, sys.found index = true → ¬ sys.Leaves (.user index)

structure Sound (sys : SwitchSystem) : Prop where
  tasks : Tasks sys.sched sys.live sys.found
  placed : Placed sys.place sys.live
  contexts : sys.Contexts

variable {sys after : SwitchSystem}

theorem Booted.sound (booted : sys.Booted) : sys.Sound := by
  obtain ⟨sched, lock, phase, idle, user, found, onStack, fits, apart⟩ := booted
  have still : ∀ task, ¬ sys.Leaves task := by
    rintro task ⟨cpu, rest, switching⟩
    rw [phase cpu] at switching
    cases switching
  have idles : ∀ task, sys.live task = true → ∃ cpu, task = .idle cpu := by
    intro task lives
    cases task with
    | idle cpu => exact ⟨cpu, rfl⟩
    | user index =>
        rw [user index] at lives
        cases lives
  constructor
  · rw [sched]
    constructor
    · intro task
      cases task with
      | idle cpu => simp [Sched.initial]
      | user index => simp [Sched.initial]
    · intro cpu other same
      exact Task.idle.inj same
    · exact fun _ _ => rfl
    · exact fun index _ => user index
    · intro index small
      exact absurd small (Nat.not_lt_zero index)
    · exact idle
    · intro index seen
      rw [found index] at seen
      cases seen
  · constructor
    · intro task lives
      obtain ⟨cpu, same⟩ := idles task lives
      rw [same]
      exact fits cpu
    · intro task second lives also different
      obtain ⟨cpu, same⟩ := idles task lives
      obtain ⟨other, equal⟩ := idles second also
      rw [same, equal] at different ⊢
      exact apart cpu other (fun this => different (congrArg Task.idle this))
  · constructor
    · intro cpu
      rw [lock, phase cpu]
      simp
    · intro cpu _
      rw [sched]
      exact onStack cpu
    · intro cpu this rest switching
      exact absurd ⟨cpu, rest, switching⟩ (still this)
    · intro cpu this rest switching
      exact absurd ⟨cpu, rest, switching⟩ (still this)
    · intro cpu switched
      rw [phase cpu] at switched
      cases switched
    · intro task lives _ stopped _
      obtain ⟨cpu, same⟩ := idles task lives
      rw [same, sched] at stopped
      exact absurd rfl stopped
    · intro task lives unused
      obtain ⟨cpu, same⟩ := idles task lives
      rw [same, sched] at unused
      cases unused
    · exact fun index _ => still _

theorem Contexts.alone (contexts : sys.Contexts) {cpu other : Fin ncpu}
    (busy : sys.phase cpu ≠ .running) (different : other ≠ cpu) : sys.phase other = .running := by
  by_contra also
  have one := (contexts.holder cpu).mpr busy
  have second := (contexts.holder other).mpr also
  rw [one] at second
  exact different (Option.some.inj second).symm

theorem Contexts.free (contexts : sys.Contexts) (lock : sys.lock = none) (cpu : Fin ncpu) :
    sys.phase cpu = .running := by
  by_contra busy
  rw [(contexts.holder cpu).mpr busy] at lock
  cases lock

theorem Contexts.none_leaves (contexts : sys.Contexts) (lock : sys.lock = none) (task : Task) :
    ¬ sys.Leaves task := by
  rintro ⟨cpu, rest, switching⟩
  rw [contexts.free lock cpu] at switching
  cases switching

theorem Contexts.none_leaves_of (contexts : sys.Contexts) {cpu : Fin ncpu}
    (busy : sys.phase cpu ≠ .running) (calm : ∀ this rest, sys.phase cpu ≠ .switching this rest)
    (task : Task) : ¬ sys.Leaves task := by
  rintro ⟨other, rest, switching⟩
  by_cases same : other = cpu
  · rw [same] at switching
    exact calm task rest switching
  · rw [contexts.alone busy same] at switching
    cases switching

theorem Sound.leaver_current (sound : sys.Sound) {cpu other : Fin ncpu} {this : Task}
    {rest : List Inst} (switching : sys.phase cpu = .switching this rest) :
    this ≠ sys.sched.current other := by
  intro same
  apply (sound.contexts.leaver cpu this rest switching).2.2.2
  rw [same]
  exact sound.tasks.current_running other

end SwitchSystem

end LabKernel.Kernel
