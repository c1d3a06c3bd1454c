/-
Processes that take turns on the CPUs.

Every CPU runs the code of its current process on the kernel stack of that process. The scheduler
is the one of `sched.c`, entered with `sched_lock` held, and `swtch` is executed one instruction at
a time, so the other CPUs go on between any two of them. What a process does with its registers
and its memory between two calls is left open. What it had when it called `swtch` is recorded.
-/

import LabKernel.Kernel.Sched
import LabKernel.Kernel.Swtch
import LabKernel.Lib.Outcome

set_option autoImplicit false

namespace LabKernel.Kernel

open Arm Outcomes Transition

/-- `PAGE_SIZE` and `KERNEL_STACK_SIZE`. -/
def kstackSize : Nat := 4096

/-- `PAGE_SIZE - 16 - sizeof(UserContext)`. -/
def ucontextOffset : Nat := 3888

/-- `PAGE_SIZE - 16 - sizeof(KernelContext) - sizeof(UserContext)`. -/
def kcontextOffset : Nat := 3776

/-- The lowest address of a kernel stack, and the address of the field `kcontext`. -/
structure Place where
  kstack : Word
  slot : Word

namespace Place

def Holds (place : Place) (address : Word) : Prop :=
  place.kstack.toNat ≤ address.toNat ∧ address.toNat < place.kstack.toNat + kstackSize

/-- A stack pointer of this stack. The stack grows down, and its lowest word stays free. -/
def OnStack (place : Place) (sp : Word) : Prop :=
  place.kstack.toNat < sp.toNat ∧ sp.toNat ≤ place.kstack.toNat + kstackSize

instance (place : Place) (address : Word) : Decidable (place.Holds address) :=
  inferInstanceAs (Decidable (_ ∧ _))

instance (place : Place) (sp : Word) : Decidable (place.OnStack sp) :=
  inferInstanceAs (Decidable (_ ∧ _))

def Owns (place : Place) (address : Word) : Prop := place.Holds address ∨ address = place.slot

structure Fits (place : Place) : Prop where
  whole : place.kstack.toNat + kstackSize < 2 ^ 64
  aligned : place.kstack.toNat % 16 = 0
  slotAligned : place.slot.toNat % 8 = 0
  slotOff : ¬ place.Holds place.slot

structure Apart (place other : Place) : Prop where
  disjoint : place.kstack.toNat + kstackSize ≤ other.kstack.toNat ∨
    other.kstack.toNat + kstackSize ≤ place.kstack.toNat
  slots : place.slot ≠ other.slot
  slotOff : ¬ place.Holds other.slot
  otherOff : ¬ other.Holds place.slot

end Place

/-- What a CPU does: it runs code without or with `sched_lock`, it executes `swtch` on behalf of
the process that gives it up, or it is back from `swtch` and about to release the lock. -/
inductive Phase where
  | running
  | holding
  | switching (this : Task) (rest : List Inst)
  | switched
  deriving DecidableEq

def Phase.inCode : Phase → Bool
  | .running | .holding => true
  | .switching _ _ | .switched => false

/-- What a process had when it called `swtch`, or what `start_proc` gave it. -/
structure Left where
  reg : Reg → Word
  sp : Word
  mem : Words

structure SwitchSystem where
  sched : Sched
  lock : Option (Fin ncpu)
  phase : Fin ncpu → Phase
  core : Fin ncpu → Core
  mem : Words
  place : Task → Place
  live : Task → Bool
  found : Nat → Bool
  left : Task → Left

inductive Halt where
  | disabled
  | waits
  | stop (stop : Stop)
  | fault (fault : Fault)
  deriving DecidableEq, Repr

inductive SwitchAction where
  | code (cpu : Fin ncpu) (core : Core) (mem : Words)
  | acquire (cpu : Fin ncpu)
  | sched (cpu : Fin ncpu) (newState : ProcState)
  | swtch (cpu : Fin ncpu)
  | release (cpu : Fin ncpu)
  | createProc (kstack slot : Word)
  | createContainer (kstack slot : Word)
  | setContainerParentToThis (cpu : Fin ncpu) (container : Nat)
  | setProcToContainer (index container : Nat)
  | startProc (index : Nat) (entry arg : Word)
  | activate (index : Nat)
  | alert (index : Nat)
  | setKilled (task : Task)
  | setPanic
  | isZombie (index : Nat)
  | freeProc (index : Nat)

namespace SwitchSystem

variable (sys : SwitchSystem)

def scheduler (action : SchedAction) (next : Sched → SwitchSystem) : Except Halt SwitchSystem :=
  ((schedStep sys.sched action).mapError .stop).map next

/-- The same while nobody holds `sched_lock`. -/
def locked (action : SchedAction) (next : Sched → SwitchSystem) : Except Halt SwitchSystem :=
  if sys.lock = none then sys.scheduler action next else .error .waits

def setSched (sched : Sched) : SwitchSystem := { sys with sched := sched }

/-- The registers at the first instruction of `swtch(next->kcontext, &this->kcontext)`. -/
def swtchCore (cpu : Fin ncpu) (this next : Task) : Core :=
  (((sys.core cpu).setReg 0 (sys.mem (sys.place next).slot)).setReg 1
    (sys.place this).slot).setReg lr ((sys.core cpu).pc + 4)

/-- `simple_sched` behind the choice of the next process. -/
def switchTo (cpu : Fin ncpu) (sched : Sched) : SwitchSystem :=
  let this := sys.sched.current cpu
  let next := sched.current cpu
  if next = this then
    { sys with
      sched := sched
      lock := none
      phase := Function.update sys.phase cpu .running }
  else
    let core := sys.swtchCore cpu this next
    { sys with
      sched := sched
      phase := Function.update sys.phase cpu (.switching this Kernel.swtch)
      core := Function.update sys.core cpu core
      left := Function.update sys.left this { reg := core.reg, sp := core.sp, mem := sys.mem } }

def executed (cpu : Fin ncpu) (this : Task) (rest : List Inst) (core : Core) (mem : Words) :
    SwitchSystem :=
  { sys with
    phase := Function.update sys.phase cpu
      (if rest = [] then .switched else .switching this rest)
    core := Function.update sys.core cpu core
    mem := mem }

/-- `init_proc`, with the page and the `struct proc` it is given. -/
def initProc (kstack slot : Word) (sched : Sched) : SwitchSystem :=
  { sys with
    sched := sched
    mem := Function.update sys.mem slot (kstack + BitVec.ofNat 64 kcontextOffset)
    place := Function.update sys.place (.user sys.sched.procs) { kstack := kstack, slot := slot }
    live := Function.update sys.live (.user sys.sched.procs) true }

/-- The memory after the three assignments of `start_proc` to `kcontext`. -/
def startMem (procEntry : Word) (index : Nat) (entry arg : Word) : Words :=
  let context := sys.mem (sys.place (.user index)).slot
  Function.update (Function.update (Function.update sys.mem context procEntry) (context + 8) entry)
    (context + 16) arg

/-- What the new process goes on with: the context that is then in its memory. -/
def startLeft (procEntry : Word) (index : Nat) (entry arg : Word) : Left :=
  let context := sys.mem (sys.place (.user index)).slot
  let mem := sys.startMem procEntry index entry arg
  { reg := readFrame mem context kernelContext
    sp := above context 7
    mem := mem }

def start (procEntry : Word) (index : Nat) (entry arg : Word) (sched : Sched) : SwitchSystem :=
  { sys with
    sched := sched
    mem := sys.startMem procEntry index entry arg
    left := Function.update sys.left (.user index) (sys.startLeft procEntry index entry arg) }

end SwitchSystem

/-- One step; `procEntry` is the address of `proc_entry`. -/
def switchStep (procEntry : Word) (sys : SwitchSystem) : SwitchAction → Except Halt SwitchSystem
  | .code cpu core mem =>
      if (sys.phase cpu).inCode then
        .ok { sys with core := Function.update sys.core cpu core, mem := mem }
      else .error .disabled
  | .acquire cpu =>
      if sys.phase cpu = .running then
        if sys.lock = none then
          .ok { sys with lock := some cpu, phase := Function.update sys.phase cpu .holding }
        else .error .waits
      else .error .disabled
  | .sched cpu newState =>
      if sys.phase cpu = .holding then
        sys.scheduler (.sched cpu newState) (sys.switchTo cpu)
      else .error .disabled
  | .swtch cpu =>
      match sys.phase cpu with
      | .switching this (inst :: rest) =>
          match inst.exec (sys.core cpu) sys.mem with
          | .ok (core, mem) => .ok (sys.executed cpu this rest core mem)
          | .error fault => .error (.fault fault)
      | _ => .error .disabled
  | .release cpu =>
      if sys.phase cpu = .switched then
        .ok { sys with lock := none, phase := Function.update sys.phase cpu .running }
      else .error .disabled
  | .createProc kstack slot => sys.scheduler .createProc (sys.initProc kstack slot)
  | .createContainer kstack slot => sys.scheduler .createContainer (sys.initProc kstack slot)
  | .setContainerParentToThis cpu container =>
      sys.scheduler (.setContainerParentToThis cpu container) sys.setSched
  | .setProcToContainer index container =>
      sys.scheduler (.setProcToContainer index container) sys.setSched
  | .startProc index entry arg =>
      sys.locked (.startProc index) (sys.start procEntry index entry arg)
  | .activate index => sys.locked (.activate index) sys.setSched
  | .alert index => sys.locked (.alert index) sys.setSched
  | .setKilled task => sys.scheduler (.setKilled task) sys.setSched
  | .setPanic => sys.scheduler .setPanic sys.setSched
  | .isZombie index =>
      if sys.lock = none then
        .ok { sys with
          found := Function.update sys.found index
            (sys.found index || sys.sched.state (.user index) = .zombie) }
      else .error .waits
  | .freeProc index =>
      if sys.found index ∧ sys.live (.user index) then
        .ok { sys with live := Function.update sys.live (.user index) false }
      else .error .disabled

/-! ### What the code is trusted with -/

/-- The words that the code of a process leaves alone: every field `kcontext`, and the stacks of
the other processes. The stack of one that has not been started is still filled by its creator. -/
def SwitchSystem.Reserved (sys : SwitchSystem) (this : Task) (address : Word) : Prop :=
  ∃ task, sys.live task = true ∧ (address = (sys.place task).slot ∨
    (task ≠ this ∧ sys.sched.state task ≠ .unused ∧ (sys.place task).Holds address))

/-- The stack pointer stays on the stack of the current process, with room for a context where
`swtch` is called; a new process gets memory that nobody has; a process is started once and not
activated before. -/
def SwitchSystem.Trusted (sys : SwitchSystem) : SwitchAction → Prop
  | .code cpu core mem =>
      (sys.place (sys.sched.current cpu)).OnStack core.sp ∧
        AgreeOn (sys.Reserved (sys.sched.current cpu)) sys.mem mem
  | .sched cpu _ =>
      (sys.core cpu).sp.toNat % 16 = 0 ∧
        (sys.place (sys.sched.current cpu)).kstack.toNat + 112 < (sys.core cpu).sp.toNat
  | .createProc kstack slot | .createContainer kstack slot =>
      ({ kstack := kstack, slot := slot } : Place).Fits ∧
        ∀ task, sys.live task = true →
          (sys.place task).Apart { kstack := kstack, slot := slot }
  | .startProc index _ _ => sys.sched.state (.user index) = .unused
  | .activate index | .alert index => sys.sched.state (.user index) ≠ .unused
  | _ => True

/-- The CPUs run their idle processes, each on the stack it has come up on. -/
structure SwitchSystem.Booted (sys : SwitchSystem) : Prop where
  sched : sys.sched = Sched.initial
  lock : sys.lock = none
  phase : ∀ cpu, sys.phase cpu = .running
  idle : ∀ cpu, sys.live (.idle cpu) = true
  user : ∀ index, sys.live (.user index) = false
  found : ∀ index, sys.found index = false
  onStack : ∀ cpu, (sys.place (.idle cpu)).OnStack (sys.core cpu).sp
  fits : ∀ cpu, (sys.place (.idle cpu)).Fits
  apart : ∀ cpu other, cpu ≠ other → (sys.place (.idle cpu)).Apart (sys.place (.idle other))

end LabKernel.Kernel
