/-
The semaphores with `val` as the `int` it is.

Adding and subtracting go around at the ends of `int`, as the instructions of the processor do.
Between the ends the sections are those without bounds.
-/

import LabKernel.Common.Sem

set_option autoImplicit false

namespace LabKernel.Common

def intMax : Int := 2147483647

def intMin : Int := -2147483648

/-- What is left of a number in an `int`. -/
def intWrap (n : Int) : Int := n.bmod 4294967296

theorem intWrap_inside {n : Int} (low : intMin ≤ n) (high : n ≤ intMax) : intWrap n = n := by
  unfold intMin at low
  unfold intMax at high
  exact Int.bmod_eq_of_le_mul_two (by omega) (by omega)

theorem intWrap_add (n k : Int) : intWrap (intWrap n + k) = intWrap (n + k) := Int.bmod_add_bmod

def Semaphore.InInt (sem : Semaphore) : Prop := intMin ≤ sem.val ∧ sem.val ≤ intMax

/-- `_wait_sem` up to the point where it returns true or sleeps. -/
def waitInt (thread : Tid) (sem : Semaphore) : Bool × Semaphore :=
  let val := intWrap (sem.val - 1)
  if 0 ≤ val then (true, { sem with val := val })
  else (false, { val := val, sleeplist := thread :: sem.sleeplist })

/-- `_post_sem`, with the thread it activates. -/
def postInt (sem : Semaphore) : Option (Option Tid × Semaphore) :=
  let val := intWrap (sem.val + 1)
  if val ≤ 0 then
    match sem.sleeplist.getLast? with
    | none => none
    | some thread => some (some thread, { val := val, sleeplist := sem.sleeplist.dropLast })
  else some (none, { sem with val := val })

variable {sem : Semaphore}

theorem waitInt_eq (inside : sem.InInt) (above : sem.val ≠ intMin) (thread : Tid) :
    waitInt thread sem = waitSem thread sem := by
  obtain ⟨low, high⟩ := inside
  unfold waitInt waitSem
  rw [intWrap_inside (by omega) (by omega)]

theorem postInt_eq (inside : sem.InInt) (below : sem.val ≠ intMax) : postInt sem = postSem sem := by
  obtain ⟨low, high⟩ := inside
  unfold postInt
  rw [intWrap_inside (by omega) (by omega)]
  rfl

theorem postInt_mem {thread : Tid} {after : Semaphore}
    (posted : postInt sem = some (some thread, after)) : thread ∈ sem.sleeplist := by
  unfold postInt at posted
  simp only at posted
  split at posted
  · split at posted
    · cases posted
    · rename_i last
      cases posted
      exact List.mem_of_getLast? last
  · cases posted

theorem postInt_full (full : sem.val = intMax) (empty : sem.sleeplist = []) :
    postInt sem = none := by
  have around : intWrap (sem.val + 1) ≤ 0 := by
    rw [full]
    decide
  unfold postInt
  rw [if_pos around, empty]
  rfl

end LabKernel.Common
