/-
Traps of a user program, with the dispatch of `trap.c` and `syscall.c`.

A trap is taken, `trap_entry` saves the context, the C code handles it and `trap_return` gives the
context back. The processor sets the syndrome register for an exception but not for an interrupt:
the handler takes an interrupt for one because every trap before has cleared the register. What
the C code does is left open, apart from what its callers may rely on.
-/

import LabKernel.Kernel.TrapFrame
import LabKernel.Lib.Transition

set_option autoImplicit false

namespace LabKernel.Kernel

open Arm Transition

/-! ### The dispatch -/

def kspaceMask : Word := 0xffff000000000000
def nrSyscall : Word := 512

def esrEc (esr : Word) : Word := esr >>> 26

inductive TrapStop where
  | brokenPc
  | pageFault (ec : Word)
  | unknownException (ec : Word)
  | exits
  | fault (fault : Fault)
  deriving DecidableEq, Repr

/-- What a system call with this number returns, with the entries of the table that are set and
what the function there returns. -/
def syscallResult (present : Word → Bool) (ret callno : Word) : Word :=
  if callno.toNat < nrSyscall.toNat ∧ present callno then ret else -1

/-- The core and the memory when `trap_global_handler` returns, what the system call returned and
whether the process has been killed by then. -/
structure Handled where
  core : Core
  mem : Words
  ret : Word
  killed : Bool

structure TrapSystem where
  core : Core
  mem : Words
  esr : Word

inductive TrapAction where
  | user (core : Core)
  | svc (imm : BitVec 16) (handled : Handled)
  | irq (handled : Handled)
  | abort (esr back : Word) (handled : Handled)

section Steps

variable (vector masked : Word) (present : Word → Bool)

/-- What a program at exception level 0 can see of the core. `UserContext` has no field for
`x18`. -/
structure UserView where
  reg : Reg → Word
  usp : Word
  pc : Word
  pstate : Word
  ttbr0 : Word
  tpidr : Word

def UserView.of (core : Core) : UserView :=
  { reg := fun target => if target = 18 then 0 else core.reg target
    usp := core.sys .spEl0
    pc := core.pc
    pstate := core.pstate
    ttbr0 := core.sys .ttbr0El1
    tpidr := core.sys .tpidrEl0 }

/-- A system call as the program sees it. -/
def UserView.call (ret : Word) (view : UserView) : UserView :=
  { view with
    pc := view.pc + 4
    reg := Function.update view.reg 0 (syscallResult present ret (view.reg 8)) }

/-- The program by itself, without interrupts. -/
def UserView.step (view : UserView) : TrapAction → Except TrapStop UserView
  | .user core => .ok (.of core)
  | .svc _ handled => .ok (view.call present handled.ret)
  | .irq _ => .ok view
  | .abort esr _ _ => .error (.unknownException (esrEc esr))

end Steps

/-! ### A trap from one end to the other -/

section RoundTrip

variable {vector masked : Word} {present : Word → Bool} {sys after : TrapSystem}

/-- A program that counts in `x4`, about to make the call of number 3. -/
def counting : TrapSystem :=
  { core := { reg := fun _ => 3, sp := 4096, pc := 64, pstate := 0, sys := fun _ => 5 }
    mem := fun _ => 0
    esr := 0 }

def counted : TrapSystem :=
  { counting with core := { counting.core with reg := Function.update counting.core.reg 4 4 } }

end RoundTrip

end LabKernel.Kernel
