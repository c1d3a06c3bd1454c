/-
Executable transition systems with stopped steps.

A system is a step function into `Except`: an action either yields the next
state or stops with a reason (it has to wait, or it faults). A run is a list of
actions whose steps all succeed. A guard records what every step of the run is
assumed to meet in the state before it. Nothing here names a program.
-/

import Mathlib.Data.List.Basic

set_option autoImplicit false

namespace LabKernel.Transition

variable {State Action Stop : Type}

/-- A run from `origin`, with the actions taken so far and the state reached. Every
action meets `guard` in the state it is taken in. -/
inductive Run (step : State → Action → Except Stop State) (guard : State → Action → Prop)
    (origin : State) : List Action → State → Prop
  | start : Run step guard origin [] origin
  | next {actions : List Action} {state after : State} {action : Action}
      (before : Run step guard origin actions state) (met : guard state action)
      (taken : step state action = .ok after) :
      Run step guard origin (actions ++ [action]) after

/-- Reachability without any assumption on the steps. -/
def Reachable (step : State → Action → Except Stop State) (origin state : State) : Prop :=
  ∃ actions, Run step (fun _ _ => True) origin actions state

/-- Execute a list of actions, stopping at the first one that does not succeed. -/
def exec (step : State → Action → Except Stop State) : State → List Action → Except Stop State
  | state, [] => .ok state
  | state, action :: rest =>
      match step state action with
      | .ok after => exec step after rest
      | .error reason => .error reason

variable {step : State → Action → Except Stop State} {guard : State → Action → Prop}
  {origin : State}

theorem Run.invariant {P : State → Prop} (initially : P origin)
    (preserved : ∀ state action after, P state → guard state action →
      step state action = .ok after → P after)
    {actions : List Action} {state : State} (run : Run step guard origin actions state) :
    P state := by
  induction run with
  | start => exact initially
  | next _ met taken ih => exact preserved _ _ _ ih met taken

theorem Run.strengthen {P : State → Prop} {stronger : State → Action → Prop} (initially : P origin)
    (preserved : ∀ state action after, P state → guard state action →
      step state action = .ok after → P after)
    (met : ∀ state action, P state → guard state action → stronger state action)
    {actions : List Action} {state : State} (run : Run step guard origin actions state) :
    Run step stronger origin actions state ∧ P state := by
  induction run with
  | start => exact ⟨.start, initially⟩
  | next before allowed taken ih =>
      exact ⟨ih.1.next (met _ _ ih.2 allowed) taken, preserved _ _ _ ih.2 allowed taken⟩

theorem Reachable.invariant {P : State → Prop} (initially : P origin)
    (preserved : ∀ state action after, P state → step state action = .ok after →
      P after)
    {state : State} (reached : Reachable step origin state) : P state := by
  obtain ⟨actions, run⟩ := reached
  exact run.invariant initially
    (fun state action after holds _ taken => preserved state action after holds taken)

theorem Run.mono {weaker : State → Action → Prop}
    (weaken : ∀ state action, guard state action → weaker state action)
    {actions : List Action} {state : State} (run : Run step guard origin actions state) :
    Run step weaker origin actions state := by
  induction run with
  | start => exact .start
  | next _ met taken ih => exact .next ih (weaken _ _ met) taken

theorem Run.reachable {actions : List Action} {state : State}
    (run : Run step guard origin actions state) : Reachable step origin state :=
  ⟨actions, run.mono (fun _ _ _ => trivial)⟩

theorem Run.append {actions more : List Action} {state final : State}
    (run : Run step guard origin actions state) (later : Run step guard state more final) :
    Run step guard origin (actions ++ more) final := by
  induction later with
  | start =>
      rw [List.append_nil]
      exact run
  | next _ met taken ih =>
      rw [← List.append_assoc]
      exact ih.next met taken

theorem Reachable.next {state after : State} {action : Action}
    (reached : Reachable step origin state) (taken : step state action = .ok after) :
    Reachable step origin after := by
  obtain ⟨actions, run⟩ := reached
  exact ⟨actions ++ [action], run.next True.intro taken⟩

def Guarded (step : State → Action → Except Stop State) (guard : State → Action → Prop) :
    State → List Action → Prop
  | _, [] => True
  | state, action :: rest =>
      guard state action ∧
        match step state action with
        | .ok after => Guarded step guard after rest
        | .error _ => True

theorem Run.exec_append {actions more : List Action} {state final : State}
    (run : Run step guard origin actions state) (executed : exec step state more = .ok final)
    (met : Guarded step guard state more) :
    Run step guard origin (actions ++ more) final := by
  induction more generalizing actions state with
  | nil =>
      cases executed
      rw [List.append_nil]
      exact run
  | cons action rest ih =>
      unfold exec at executed
      unfold Guarded at met
      split at executed
      · rename_i after taken
        rw [taken] at met
        rw [List.append_cons]
        exact ih (run.next met.1 taken) executed met.2
      · cases executed

theorem Run.of_exec {actions : List Action} {final : State}
    (executed : exec step origin actions = .ok final) (met : Guarded step guard origin actions) :
    Run step guard origin actions final :=
  Run.start.exec_append executed met

theorem Run.exec {actions : List Action} {state : State}
    (run : Run step guard origin actions state) : exec step origin actions = .ok state := by
  have snoc : ∀ (earlier : List Action) (action : Action) (first middle last : State),
      Transition.exec step first earlier = .ok middle → step middle action = .ok last →
        Transition.exec step first (earlier ++ [action]) = .ok last := by
    intro earlier action
    induction earlier with
    | nil =>
        intro first middle last executed taken
        cases executed
        simp only [List.nil_append, Transition.exec, taken]
    | cons head rest ih =>
        intro first middle last executed taken
        rw [List.cons_append]
        unfold Transition.exec at executed ⊢
        split at executed
        · rename_i next went
          exact ih next middle last executed taken
        · cases executed
  induction run with
  | start => rfl
  | next _ _ taken ih => exact snoc _ _ _ _ _ ih taken

theorem Guarded.trivial (state : State) (actions : List Action) :
    Guarded step (fun _ _ => True) state actions := by
  induction actions generalizing state with
  | nil => exact True.intro
  | cons action rest ih =>
      constructor
      · exact True.intro
      · cases step state action with
        | ok after => exact ih after
        | error reason => exact True.intro

theorem Reachable.of_exec {actions : List Action} {final : State}
    (executed : exec step origin actions = .ok final) : Reachable step origin final :=
  ⟨actions, Run.of_exec executed (Guarded.trivial origin actions)⟩

def checkRun (step : State → Action → Except Stop State) (allowed : State → Action → Bool)
    (check : State → Bool) : State → List Action → Bool
  | state, [] => check state
  | state, action :: rest =>
      allowed state action &&
        match step state action with
        | .ok after => checkRun step allowed check after rest
        | .error _ => false

theorem Run.checked_append {allowed : State → Action → Bool} {check : State → Bool}
    (sound : ∀ state action, allowed state action = true → guard state action)
    {actions more : List Action} {state : State} (run : Run step guard origin actions state)
    (passed : checkRun step allowed check state more = true) :
    ∃ final, Run step guard origin (actions ++ more) final ∧ check final = true := by
  induction more generalizing actions state with
  | nil =>
      rw [List.append_nil]
      exact ⟨state, run, passed⟩
  | cons action rest ih =>
      unfold checkRun at passed
      rw [Bool.and_eq_true] at passed
      obtain ⟨met, passed⟩ := passed
      split at passed
      · rename_i after taken
        rw [List.append_cons]
        exact ih (run.next (sound state action met) taken) passed
      · cases passed

theorem Run.of_checkRun {allowed : State → Action → Bool} {check : State → Bool}
    (sound : ∀ state action, allowed state action = true → guard state action)
    {actions : List Action} (passed : checkRun step allowed check origin actions = true) :
    ∃ final, Run step guard origin actions final ∧ check final = true :=
  Run.start.checked_append sound passed

theorem Reachable.of_checkRun {check : State → Bool} {actions : List Action}
    (passed : checkRun step (fun _ _ => true) check origin actions = true) :
    ∃ final, Reachable step origin final ∧ check final = true := by
  obtain ⟨final, run, checked⟩ := Run.of_checkRun (fun _ _ _ => True.intro) passed
  exact ⟨final, ⟨actions, run⟩, checked⟩

end LabKernel.Transition
