/-
The semaphores of `sem.c`, each section under `sem->lock` as one function.

A sleeping thread is on the sleep list until a post takes it off. New sleepers
enter at the front of the list and posts take from the back, so the list is
kept here with the youngest sleeper first.

Here `val` is an integer without bounds, which is what it is while an `int` holds it:
`SemInt` has the sections with the `int` of the source and says when the two agree.
-/

import Mathlib.Data.List.Basic
import Mathlib.Algebra.Order.Group.Int

set_option autoImplicit false

namespace LabKernel.Common

abbrev Tid := Nat

structure Semaphore where
  val : Int
  sleeplist : List Tid
  deriving DecidableEq, Repr

def initSem (val : Int) : Semaphore := { val := val, sleeplist := [] }

def getSem (sem : Semaphore) : Bool × Semaphore :=
  if 0 < sem.val then (true, { sem with val := sem.val - 1 }) else (false, sem)

/-- `_wait_sem` up to the point where it returns true or sleeps. -/
def waitSem (thread : Tid) (sem : Semaphore) : Bool × Semaphore :=
  if 0 ≤ sem.val - 1 then (true, { sem with val := sem.val - 1 })
  else (false, { val := sem.val - 1, sleeplist := thread :: sem.sleeplist })

/-- `_post_sem`, with the thread it activates. There is no result when its
assertion that the sleep list is not empty fails. -/
def postSem (sem : Semaphore) : Option (Option Tid × Semaphore) :=
  if sem.val + 1 ≤ 0 then
    match sem.sleeplist.getLast? with
    | none => none
    | some thread =>
        some (some thread, { val := sem.val + 1, sleeplist := sem.sleeplist.dropLast })
  else some (none, { sem with val := sem.val + 1 })

/-- The loop of `post_all_sem`: the returned count, the activated threads in order,
and the semaphore. Each round that continues takes one sleeper off the list. -/
def postAllLoop : Nat → Int → Semaphore → Option (Int × List Tid × Semaphore)
  | 0, _, _ => none
  | fuel + 1, ret, sem =>
      match postSem sem with
      | none => none
      | some (woken, posted) =>
          match getSem posted with
          | (true, after) => some (ret + 1, woken.toList, after)
          | (false, after) =>
              match postAllLoop fuel (ret + 1) after with
              | none => none
              | some (count, more, final) => some (count, woken.toList ++ more, final)

def postAllSem (sem : Semaphore) : Option (Int × List Tid × Semaphore) :=
  postAllLoop (sem.sleeplist.length + 1) (-1) sem

/-- The value counts free permits, or the sleepers when it is negative. -/
def Semaphore.Balanced (sem : Semaphore) : Prop :=
  (sem.sleeplist.length : Int) = max 0 (-sem.val)

theorem Semaphore.Balanced.init {val : Int} (free : 0 ≤ val) : (initSem val).Balanced := by
  simp only [Balanced, initSem, List.length_nil]
  omega

theorem Semaphore.Balanced.wait {sem : Semaphore} (balanced : sem.Balanced) (thread : Tid) :
    (waitSem thread sem).2.Balanced := by
  unfold Balanced at balanced
  unfold waitSem Balanced
  split
  · simp only
    omega
  · simp only [List.length_cons]
    omega

theorem postSem_sleeping {sem : Semaphore} (balanced : sem.Balanced) {older : List Tid}
    {thread : Tid} (sleepers : sem.sleeplist = older ++ [thread]) :
    postSem sem = some (some thread, { val := sem.val + 1, sleeplist := older }) := by
  unfold Semaphore.Balanced at balanced
  have negative : sem.val + 1 ≤ 0 := by
    rw [sleepers, List.length_append, List.length_singleton] at balanced
    omega
  unfold postSem
  rw [if_pos negative, sleepers, List.getLast?_concat, List.dropLast_concat]

theorem postSem_free {sem : Semaphore} (balanced : sem.Balanced) (none : sem.sleeplist = []) :
    postSem sem = some (.none, { sem with val := sem.val + 1 }) := by
  unfold Semaphore.Balanced at balanced
  have free : ¬sem.val + 1 ≤ 0 := by
    rw [none, List.length_nil] at balanced
    omega
  unfold postSem
  rw [if_neg free]

private theorem postAllLoop_balanced (sleepers : List Tid) :
    ∀ (sem : Semaphore) (fuel : Nat) (ret : Int), sem.Balanced →
      sem.sleeplist = sleepers.reverse → sleepers.length < fuel →
      postAllLoop fuel ret sem =
        some (ret + 1 + sleepers.length, sleepers, { val := max sem.val 0, sleeplist := [] }) := by
  induction sleepers with
  | nil =>
      intro sem fuel ret balanced listed enough
      obtain ⟨fuel, rfl⟩ : ∃ rest, fuel = rest + 1 := ⟨fuel - 1, by simp at enough; omega⟩
      rw [List.reverse_nil] at listed
      have nonneg : 0 ≤ sem.val := by
        unfold Semaphore.Balanced at balanced
        rw [listed, List.length_nil] at balanced
        omega
      have positive : 0 < sem.val + 1 := by omega
      have same : max sem.val 0 = sem.val + 1 - 1 := by omega
      simp only [postAllLoop, postSem_free balanced listed, getSem, if_pos positive,
        Option.toList_none, List.length_nil, Int.natCast_zero, Int.add_zero, listed, same]
  | cons thread rest ih =>
      intro sem fuel ret balanced listed enough
      obtain ⟨fuel, rfl⟩ : ∃ rest, fuel = rest + 1 := ⟨fuel - 1, by simp at enough; omega⟩
      rw [List.reverse_cons] at listed
      have value : sem.val = -((rest.length : Int) + 1) := by
        unfold Semaphore.Balanced at balanced
        rw [listed, List.length_append, List.length_reverse, List.length_singleton] at balanced
        omega
      have negative : ¬0 < sem.val + 1 := by omega
      have remaining : ({ val := sem.val + 1, sleeplist := rest.reverse } : Semaphore).Balanced := by
        simp only [Semaphore.Balanced, List.length_reverse]
        omega
      have later := ih _ fuel (ret + 1) remaining rfl (by simp at enough; omega)
      have zero : max (sem.val + 1) 0 = max sem.val 0 := by omega
      simp only [postAllLoop, postSem_sleeping balanced listed, getSem, if_neg negative, later,
        Option.toList_some, List.singleton_append, List.length_cons, zero, Option.some.injEq,
        Prod.mk.injEq, and_true]
      omega

theorem postAllSem_balanced {sem : Semaphore} (balanced : sem.Balanced) :
    postAllSem sem = some ((sem.sleeplist.length : Int), sem.sleeplist.reverse,
      { val := max sem.val 0, sleeplist := [] }) := by
  have looped := postAllLoop_balanced sem.sleeplist.reverse sem
    (sem.sleeplist.length + 1) (-1) balanced (List.reverse_reverse _).symm
    (by rw [List.length_reverse]; omega)
  unfold postAllSem
  rw [looped, List.length_reverse]
  simp

end LabKernel.Common
