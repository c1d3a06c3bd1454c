/-
Recorded histories.

A history is the list of events so far, oldest first. A property of every event and of
what was recorded before it grows with the history. Nothing here names a program.
-/

import Mathlib.Data.List.Basic

set_option autoImplicit false

namespace LabKernel.History

variable {Event : Type}

/-- Every event has the property, with what was recorded before it. -/
def Each (P : List Event → Event → Prop) (history : List Event) : Prop :=
  ∀ before event rest, history = before ++ event :: rest → P before event

variable {P : List Event → Event → Prop} {history : List Event}

theorem Each.nil : Each P [] := by
  intro before event rest split
  exact absurd split (List.append_ne_nil_of_right_ne_nil _ (List.cons_ne_nil _ _)).symm

theorem Each.concat (each : Each P history) {event : Event} (new : P history event) :
    Each P (history ++ [event]) := by
  intro before other rest split
  rcases List.eq_nil_or_concat rest with rfl | ⟨rest, last, rfl⟩
  · obtain ⟨same, equal⟩ := List.append_inj' split rfl
    rw [← same, ← List.singleton_inj.mp equal]
    exact new
  · rw [List.concat_eq_append, ← List.cons_append, ← List.append_assoc] at split
    obtain ⟨same, _⟩ := List.append_inj' split rfl
    exact each before other rest same

end LabKernel.History
