/-
The way into the kernel and out of it, as in `trap.S`.

`trap_entry` saves on the kernel stack what a `UserContext` has fields for, and `trap_return`
takes it from there. Between the two the C code may change these words; what it leaves in them is
what the user gets back.
-/

import LabKernel.Lib.Arm

set_option autoImplicit false

namespace LabKernel.Kernel

open Arm

structure UserContext where
  ttbr0 : Word
  tpidr : Word
  usp : Word
  elr : Word
  spsr : Word
  lr : Word
  x : Fin 18 → Word

namespace UserContext

def words (context : UserContext) : List Word :=
  [context.ttbr0, context.tpidr, context.usp, context.elr, context.spsr, context.lr] ++
    List.ofFn context.x

def value (context : UserContext) (target : Reg) : Word :=
  if small : target.val < 18 then context.x ⟨target.val, small⟩ else 0

end UserContext

def trapReturn : List Inst :=
  [.popp 0 1, .msr .ttbr0El1 0, .msr .tpidrEl0 1,
    .popp 0 1, .msr .spEl0 0, .msr .elrEl1 1,
    .popp 0 lr, .msr .spsrEl1 0,
    .popp 0 1, .popp 2 3, .popp 4 5, .popp 6 7, .popp 8 9, .popp 10 11, .popp 12 13,
    .popp 14 15, .popp 16 17,
    .eret]

section TrapFrame

variable {region : Word → Prop} {stay : Word → Prop} {post : Core → Words → Prop} {core : Core}
  {mem : Words}

end TrapFrame

end LabKernel.Kernel
