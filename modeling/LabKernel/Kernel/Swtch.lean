/-
The context switch of `swtch.S`.

`swtch` saves the registers of a `KernelContext` on the stack it is called on, leaves their address
at the address in `x1`, and goes on from the context whose address is in `x0`.
-/

import LabKernel.Lib.Arm

set_option autoImplicit false

namespace LabKernel.Kernel

open Arm

/-- The fields of `KernelContext`. -/
def kernelContext : List Reg := [lr, 0, 1, 19, 20, 21, 22, 23, 24, 25, 26, 27, 28, 29]

def swtch : List Inst :=
  [.pushp 28 29, .pushp 26 27, .pushp 24 25, .pushp 22 23, .pushp 20 21, .pushp 1 19,
    .pushp lr 0,
    .movFromSp 2, .str 2 1, .movToSp 0,
    .popp lr 0, .popp 1 19, .popp 20 21, .popp 22 23, .popp 24 25, .popp 26 27, .popp 28 29,
    .ret]

/-- The pairs of a `KernelContext`. -/
def contextPairs : List (Reg × Reg) :=
  [(lr, 0), (1, 19), (20, 21), (22, 23), (24, 25), (26, 27), (28, 29)]

theorem frameOf_contextPairs : frameOf contextPairs = kernelContext := rfl

theorem swtch_eq :
    swtch = pushAll contextPairs ++ ([.movFromSp 2, .str 2 1, .movToSp 0] ++
      (popAll contextPairs ++ [.ret])) := rfl

/-- `swtch` goes on from the context at `x0`, and the context it leaves is at the address that is
then at `x1`. -/
theorem runs_swtch {region : Word → Prop} {stay : Word → Prop} {post : Core → Words → Prop}
    {core : Core} {mem : Words} {values : Reg → Word}
    (aligned : core.sp.toNat % 16 = 0) (newAligned : (core.reg 0).toNat % 16 = 0)
    (slotAligned : (core.reg 1).toNat % 8 = 0)
    (oldInside : ∀ address, Row (below core.sp 7) 14 address → region address)
    (newInside : ∀ address, Row (core.reg 0) 14 address → region address)
    (slotInside : region (core.reg 1))
    (oldStays : ∀ depth, depth ≤ 7 → stay (below core.sp depth))
    (newStays : ∀ height, height ≤ 7 → stay (above (core.reg 0) height))
    (frame : Frame mem values (core.reg 0) kernelContext)
    (apart : ∀ address, Row (core.reg 0) 14 address → ¬ Row (below core.sp 7) 14 address)
    (slotOld : ¬ Row (below core.sp 7) 14 (core.reg 1))
    (slotNew : ¬ Row (core.reg 0) 14 (core.reg 1))
    (done : ∀ core' mem', core'.sp = above (core.reg 0) 7 → core'.pc = values lr →
      (∀ target ∈ kernelContext, core'.reg target = values target) →
      Frame mem' core.reg (below core.sp 7) kernelContext →
      mem' (core.reg 1) = below core.sp 7 →
      (∀ address, ¬ Row (below core.sp 7) 14 address → address ≠ core.reg 1 →
        mem' address = mem address) →
      post core' mem') :
    Runs region stay post swtch core mem := by
  rw [swtch_eq]
  apply Runs.pushAll
  · exact aligned
  · decide
  · exact oldInside
  · exact oldStays
  intro pushed saved sp reg _ _ left same
  rw [frameOf_contextPairs] at left
  change pushed.sp = below core.sp 7 at sp
  have two : (Function.update pushed.reg 2 pushed.sp) 1 = core.reg 1 := by
    rw [Function.update_of_ne (by decide), reg]
  have zero : (Function.update pushed.reg 2 pushed.sp) 0 = core.reg 0 := by
    rw [Function.update_of_ne (by decide), reg]
  have deepest : stay pushed.sp := by
    rw [sp]
    exact oldStays 7 (Nat.le_refl _)
  -- The three instructions between the two stacks.
  refine ⟨deepest, by simp [Inst.touches], _, _, rfl, deepest, ?_, _, _, if_pos ?_, deepest,
    by simp [Inst.touches], _, _, rfl, ?_⟩
  · intro address member
    change address ∈ [Function.update pushed.reg 2 pushed.sp 1] at member
    rw [two, List.mem_singleton] at member
    rw [member]
    exact slotInside
  · change (Function.update pushed.reg 2 pushed.sp 1).toNat % 8 = 0
    rw [two]
    exact slotAligned
  have stored : Frame (Function.update saved (Function.update pushed.reg 2 pushed.sp 1)
      (Function.update pushed.reg 2 pushed.sp 2)) values (core.reg 0) kernelContext := by
    apply frame.agree
    intro address inside
    change Row (core.reg 0) 14 address at inside
    have other : address ≠ core.reg 1 := by
      intro equal
      rw [equal] at inside
      exact slotNew inside
    rw [two, Function.update_of_ne other]
    exact (same address (apart address inside)).symm
  apply Runs.popAll
  · change (Function.update pushed.reg 2 pushed.sp 0).toNat % 16 = 0
    rw [zero]
    exact newAligned
  · change ∀ address, Row (Function.update pushed.reg 2 pushed.sp 0) 14 address → _
    rw [zero]
    exact newInside
  · change ∀ height, height ≤ 7 → stay (above (Function.update pushed.reg 2 pushed.sp 0) height)
    rw [zero]
    exact newStays
  · change Frame _ values (Function.update pushed.reg 2 pushed.sp 0) kernelContext
    rw [zero]
    exact stored
  · intro popped newSp newReg _ _
    change popped.sp = above (Function.update pushed.reg 2 pushed.sp 0) 7 at newSp
    rw [zero] at newSp
    have restored : ∀ target ∈ kernelContext, popped.reg target = values target := by
      intro target member
      rw [newReg target, frameOf_contextPairs, if_pos member]
    have top : stay popped.sp := by
      rw [newSp]
      exact newStays 7 (Nat.le_refl _)
    refine ⟨top, by simp [Inst.touches], _, _, rfl, top, ?_⟩
    apply done
    · exact newSp
    · exact restored lr (by decide)
    · exact restored
    · apply left.agree
      intro address inside
      change Row (below core.sp 7) 14 address at inside
      have other : address ≠ core.reg 1 := by
        intro equal
        rw [equal] at inside
        exact slotOld inside
      change saved address = Function.update saved (Function.update pushed.reg 2 pushed.sp 1) _ _
      rw [two, Function.update_of_ne other]
    · change Function.update saved (Function.update pushed.reg 2 pushed.sp 1)
        (Function.update pushed.reg 2 pushed.sp 2) (core.reg 1) = _
      rw [two, Function.update_self, Function.update_self, sp]
    · intro address outside other
      change Function.update saved (Function.update pushed.reg 2 pushed.sp 1) _ address = _
      rw [two, Function.update_of_ne other]
      exact same address outside

end LabKernel.Kernel
