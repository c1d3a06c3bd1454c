/-
Copying within one memory.

A list of moves is made one after another: each reads a place as the earlier moves left it and
writes another. When no move reads or writes what an earlier one wrote, the places written hold
what the places read held at the start. Nothing here names a program.
-/

import Mathlib.Data.List.Pairwise
import Mathlib.Logic.Function.Basic

set_option autoImplicit false

namespace LabKernel.Copying

variable {Place Value : Type}

/-- Where a value goes and where it comes from. -/
structure Move (Place : Type) where
  target : Place
  origin : Place

def Move.Clear (earlier later : Move Place) : Prop :=
  later.origin ≠ earlier.target ∧ later.target ≠ earlier.target

variable [DecidableEq Place]

def make (mem : Place → Value) (move : Move Place) : Place → Value :=
  Function.update mem move.target (mem move.origin)

def makeAll : (Place → Value) → List (Move Place) → Place → Value := List.foldl make

variable {moves : List (Move Place)}

theorem makeAll_cons (mem : Place → Value) (move : Move Place) (moves : List (Move Place)) :
    makeAll mem (move :: moves) = makeAll (make mem move) moves := rfl

theorem makeAll_other (mem : Place → Value) {place : Place}
    (outside : ∀ move ∈ moves, place ≠ move.target) : makeAll mem moves place = mem place := by
  induction moves generalizing mem with
  | nil => rfl
  | cons move rest ih =>
      rw [makeAll_cons, ih _ (fun other member => outside other (List.mem_cons_of_mem move member))]
      exact Function.update_of_ne (outside move List.mem_cons_self) _ _

theorem makeAll_target (mem : Place → Value) (clear : moves.Pairwise Move.Clear) {move : Move Place}
    (member : move ∈ moves) : makeAll mem moves move.target = mem move.origin := by
  induction moves generalizing mem with
  | nil => cases member
  | cons first rest ih =>
      obtain ⟨apart, later⟩ := List.pairwise_cons.mp clear
      rw [makeAll_cons]
      rcases List.mem_cons.mp member with same | behind
      · rw [same, makeAll_other _ (fun other inside => (apart other inside).2.symm)]
        exact Function.update_self _ _ _
      · rw [ih _ later behind]
        exact Function.update_of_ne (apart move behind).1 _ _

end LabKernel.Copying
