/-
Sequences of atomic writes to a store of cells, and what a store holds when only
a first part of a sequence has reached it. Nothing here names a program.
-/

import Mathlib.Logic.Function.Basic
import Mathlib.Data.List.Basic

set_option autoImplicit false

namespace LabKernel.Writes

variable {Key Value : Type} [DecidableEq Key]

def applyWrites : List (Key × Value) → (Key → Value) → (Key → Value)
  | [], store => store
  | (key, value) :: rest, store => applyWrites rest (Function.update store key value)

@[simp] theorem applyWrites_nil (store : Key → Value) : applyWrites [] store = store := rfl

@[simp] theorem applyWrites_append (first second : List (Key × Value)) (store : Key → Value) :
    applyWrites (first ++ second) store = applyWrites second (applyWrites first store) := by
  induction first generalizing store with
  | nil => rfl
  | cons write rest ih =>
      obtain ⟨key, value⟩ := write
      exact ih (Function.update store key value)

theorem applyWrites_singleton (key : Key) (value : Value) (store : Key → Value) :
    applyWrites [(key, value)] store = Function.update store key value := rfl

theorem applyWrites_untouched {writes : List (Key × Value)} {cell : Key}
    (absent : ∀ write ∈ writes, write.1 ≠ cell) (store : Key → Value) :
    applyWrites writes store cell = store cell := by
  induction writes generalizing store with
  | nil => rfl
  | cons write rest ih =>
      obtain ⟨key, value⟩ := write
      have different : cell ≠ key := fun same =>
        absent (key, value) List.mem_cons_self same.symm
      unfold applyWrites
      rw [ih (fun later member => absent later (List.mem_cons_of_mem _ member))]
      exact Function.update_of_ne different _ _

theorem applyWrites_last {first rest : List (Key × Value)} {cell : Key} {value : Value}
    (absent : ∀ write ∈ rest, write.1 ≠ cell) (store : Key → Value) :
    applyWrites (first ++ (cell, value) :: rest) store cell = value := by
  rw [applyWrites_append]
  change applyWrites rest (Function.update (applyWrites first store) cell value) cell = value
  rw [applyWrites_untouched absent, Function.update_self]

theorem applyWrites_agree {writes : List (Key × Value)} {left right : Key → Value} {cell : Key}
    (agree : (∀ write ∈ writes, write.1 ≠ cell) → left cell = right cell) :
    applyWrites writes left cell = applyWrites writes right cell := by
  induction writes generalizing left right with
  | nil => exact agree (fun write member => absurd member List.not_mem_nil)
  | cons write rest ih =>
      obtain ⟨key, value⟩ := write
      unfold applyWrites
      apply ih
      intro absent
      by_cases same : cell = key
      · subst same
        rw [Function.update_self, Function.update_self]
      · rw [Function.update_of_ne same, Function.update_of_ne same]
        apply agree
        intro named member
        rcases List.mem_cons.mp member with rfl | later
        · exact fun equal => same equal.symm
        · exact absent named later

/-- Repeating a sequence over a store that a first part of it has reached. -/
theorem applyWrites_take (writes : List (Key × Value)) (cut : Nat) (store : Key → Value) :
    applyWrites writes (applyWrites (writes.take cut) store) = applyWrites writes store := by
  funext cell
  apply applyWrites_agree
  intro absent
  apply applyWrites_untouched
  intro write member
  exact absent write (List.mem_of_mem_take member)

theorem applyWrites_constant {writes : List (Key × Value)} {cell : Key} {value : Value}
    (named : ∃ write ∈ writes, write.1 = cell)
    (constant : ∀ write ∈ writes, write.1 = cell → write.2 = value) (store : Key → Value) :
    applyWrites writes store cell = value := by
  have agree : applyWrites writes store cell =
      applyWrites writes (Function.update store cell value) cell := by
    apply applyWrites_agree
    intro absent
    obtain ⟨write, member, same⟩ := named
    exact absurd same (absent write member)
  rw [agree]
  clear agree named
  induction writes generalizing store with
  | nil => exact Function.update_self _ _ _
  | cons write rest ih =>
      obtain ⟨key, written⟩ := write
      have later := ih (fun next member => constant next (List.mem_cons_of_mem _ member))
      unfold applyWrites
      by_cases same : key = cell
      · subst same
        have agreed : written = value := constant (key, written) List.mem_cons_self rfl
        rw [agreed, Function.update_idem]
        exact later store
      · rw [Function.update_comm (Ne.symm same)]
        exact later _

end LabKernel.Writes
