/-
Lookups in the page tables.

A call of `get_pte` without `alloc` returns what is there once the root has been made. The root
itself is made by any call, whether it may allocate or not.
-/

import LabKernel.Kernel.PageMap

set_option autoImplicit false

namespace LabKernel.Kernel.PageTable

open Descent Transition

namespace Paging

variable {state after : Paging} {page : UInt64} {rest : List UInt64}

/-- The lookup returns, no page is taken, the root and all words of the memory stay, and there is
no entry exactly when there is no table for it. -/
def LooksUp (state : Paging) (va : UInt64) : Prop :=
  ∃ result after, state.getPte va false = .ok (result, after) ∧
    after.taken = state.taken ∧ after.pt = state.pt ∧ after.mem = state.mem ∧
    (result = none ↔ state.tableAt (tablePath va) = none)

/-- The root that is made when there is none is a page from `kalloc_page`. -/
theorem makeRoot_taken (unmade : state.pt = 0) (rooted : state.makeRoot = .ok after) :
    ∃ page, after.taken = state.taken ++ [page] ∧ after.pt = page := by
  unfold makeRoot at rooted
  rw [if_pos unmade] at rooted
  unfold newTable at rooted
  cases supply : state.pages with
  | nil =>
      rw [supply] at rooted
      cases rooted
  | cons page rest =>
      rw [supply] at rooted
      cases rooted
      exact ⟨page, rfl, rfl⟩

theorem getPte_rooted {va : UInt64} {result : Option UInt64}
    (called : state.getPte va false = .ok (result, after)) : state.makeRoot = .ok after := by
  unfold getPte at called
  cases root : state.makeRoot with
  | error reason =>
      rw [root] at called
      cases called
  | ok rooted =>
      simp only [root, walk_lookup] at called
      cases found : descend (child rooted.mem) rooted.pt (tablePath va) with
      | none =>
          simp only [found] at called
          cases called
          rfl
      | some table =>
          simp only [found] at called
          cases called
          rfl

end Paging

/-- A lookup is read-only exactly when the address space has a root. -/
theorem lookup_readOnly (state : Paging) (va : UInt64) : state.LooksUp va ↔ state.pt ≠ 0 := by
  constructor
  · intro reads unmade
    obtain ⟨result, after, called, taken, -⟩ := reads
    obtain ⟨page, more, -⟩ := Paging.makeRoot_taken unmade (Paging.getPte_rooted called)
    rw [more] at taken
    exact absurd taken (by simp)
  · intro made
    refine ⟨_, state, Paging.getPte_made made va, rfl, rfl, rfl, ?_⟩
    exact Option.map_eq_none_iff

/-- A lookup of address 0 in a new address space. -/
theorem lookup_unmade :
    ¬Paging.LooksUp { Paging.initial (fun _ => 0) 0 with pages := [0xffff000000400000] } 0 := by
  intro reads
  obtain ⟨result, after, called, taken, -⟩ := reads
  obtain ⟨page, more, -⟩ := Paging.makeRoot_taken rfl (Paging.getPte_rooted called)
  rw [more] at taken
  cases taken

end LabKernel.Kernel.PageTable
