/-
Programs that may stop with an error: what their steps return, and rules for a postcondition
together with the only reason for which they may stop. Nothing here names a program.
-/

import Mathlib.Logic.Basic

set_option autoImplicit false

namespace LabKernel.Outcomes

variable {ε α β : Type}

theorem ok_bind (value : α) (next : α → Except ε β) : (Except.ok value >>= next) = next value := rfl

theorem bind_eq_ok {first : Except ε α} {next : α → Except ε β} {result : β}
    (returned : first >>= next = .ok result) :
    ∃ value, first = .ok value ∧ next value = .ok result := by
  cases first with
  | error reason => cases returned
  | ok value => exact ⟨value, rfl, returned⟩

theorem map_eq_ok {first : Except ε α} {f : α → β} {result : β}
    (returned : first.map f = .ok result) : ∃ value, first = .ok value ∧ f value = result := by
  cases first with
  | error reason => cases returned
  | ok value => exact ⟨value, rfl, Except.ok.inj returned⟩

/-- The program returns a value as described, or it stops and there is the reason for that. -/
structure Outcome (result : Except ε α) (reason : Prop) (post : α → Prop) : Prop where
  returned : ∀ value, result = .ok value → post value
  stopped : ∀ stop, result = .error stop → reason

namespace Outcome

variable {first : Except ε α} {next : α → Except ε β} {reason reason' : Prop} {post mid : α → Prop}
  {final : β → Prop}

theorem ok {value : α} (holds : post value) :
    Outcome (Except.ok value : Except ε α) reason post := by
  constructor
  · intro _ same
    exact Except.ok.inj same ▸ holds
  · intro _ impossible
    cases impossible

theorem error {stop : ε} (why : reason) : Outcome (Except.error stop : Except ε α) reason post := by
  constructor
  · intro _ impossible
    cases impossible
  · exact fun _ _ => why

theorem bind (outcome : Outcome first reason mid)
    (step : ∀ value, mid value → Outcome (next value) reason final) :
    Outcome (first >>= next) reason final := by
  cases first with
  | error stop => exact error (outcome.stopped stop rfl)
  | ok value => exact step value (outcome.returned value rfl)

theorem mono (outcome : Outcome first reason mid) (why : reason → reason')
    (what : ∀ value, mid value → post value) : Outcome first reason' post :=
  ⟨fun value result => what value (outcome.returned value result),
    fun stop result => why (outcome.stopped stop result)⟩

theorem of_returns (result : ∃ value, first = .ok value ∧ post value) :
    Outcome first reason post := by
  obtain ⟨value, same, holds⟩ := result
  rw [same]
  exact ok holds

theorem returns (outcome : Outcome first reason post) (none : ¬reason) :
    ∃ value, first = .ok value ∧ post value := by
  cases first with
  | error stop => exact absurd (outcome.stopped stop rfl) none
  | ok value => exact ⟨value, rfl, outcome.returned value rfl⟩

end Outcome

end LabKernel.Outcomes
