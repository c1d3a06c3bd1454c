/-
Spinlocks.

`_try_acquire_spinlock` reads the flag, and if it is clear exchanges it. `_acquire_spinlock` tries
until it succeeds. Between any two accesses of one CPU the others may run. Still, what a CPU does
from taking the lock to releasing it is one step of a system whose CPUs take turns.
-/

import LabKernel.Lib.Transition
import Mathlib.Logic.Function.Basic

set_option autoImplicit false

namespace LabKernel.Common

open Transition

/-- Where a CPU is: in front of the read of the flag or of the exchange, in `_acquire_spinlock`,
which loops, or in `_try_acquire_spinlock`, which does not. -/
inductive SpinPc where
  | outside
  | reading (loops : Bool)
  | exchanging (loops : Bool)
  | holding
  deriving DecidableEq, Repr

/-- What one access inside a section does to the CPU's own state and to what the lock guards. -/
abbrev SpinWork (Local Data : Type) := Local → Data → Local × Data

/-- What counts as one step: something a CPU does alone, or a whole section. -/
inductive SpinItem (Cpu Local Data : Type) where
  | alone (cpu : Cpu) (think : Local → Local)
  | critical (cpu : Cpu) (works : List (SpinWork Local Data))

variable {Cpu Local Data : Type}

def runWorks (works : List (SpinWork Local Data)) (own : Local) (data : Data) : Local × Data :=
  works.foldl (fun state work => work state.1 state.2) (own, data)

theorem runWorks_concat (works : List (SpinWork Local Data)) (work : SpinWork Local Data)
    (own : Local) (data : Data) : runWorks (works ++ [work]) own data =
      work (runWorks works own data).1 (runWorks works own data).2 := by
  unfold runWorks
  rw [List.foldl_append]
  rfl

variable [DecidableEq Cpu]

namespace SpinItem

def apply (state : (Cpu → Local) × Data) : SpinItem Cpu Local Data → (Cpu → Local) × Data
  | .alone cpu think => (Function.update state.1 cpu (think (state.1 cpu)), state.2)
  | .critical cpu works =>
      let result := runWorks works (state.1 cpu) state.2
      (Function.update state.1 cpu result.1, result.2)

theorem apply_critical_concat (state : (Cpu → Local) × Data) (cpu : Cpu)
    (works : List (SpinWork Local Data)) (work : SpinWork Local Data) :
    apply state (.critical cpu (works ++ [work])) =
      apply (apply state (.critical cpu works)) (.critical cpu [work]) := by
  have own : (apply state (.critical cpu works)).1 cpu =
      (runWorks works (state.1 cpu) state.2).1 := Function.update_self _ _ _
  change (Function.update state.1 cpu (runWorks (works ++ [work]) (state.1 cpu) state.2).1,
    (runWorks (works ++ [work]) (state.1 cpu) state.2).2) =
      (Function.update (Function.update state.1 cpu _) cpu
        (work ((apply state (.critical cpu works)).1 cpu) (runWorks works _ _).2).1,
          (work ((apply state (.critical cpu works)).1 cpu) (runWorks works _ _).2).2)
  rw [runWorks_concat, own, Function.update_idem]

theorem apply_alone_comm (state : (Cpu → Local) × Data) {cpu other : Cpu} (apart : other ≠ cpu)
    (think : Local → Local) (works : List (SpinWork Local Data)) :
    apply (apply state (.alone cpu think)) (.critical other works) =
      apply (apply state (.critical other works)) (.alone cpu think) := by
  have mine : (apply state (.alone cpu think)).1 other = state.1 other :=
    Function.update_of_ne apart _ _
  have yours : (apply state (.critical other works)).1 cpu = state.1 cpu :=
    Function.update_of_ne (Ne.symm apart) _ _
  change (Function.update (Function.update state.1 cpu _) other
      (runWorks works ((apply state (.alone cpu think)).1 other) state.2).1,
    (runWorks works ((apply state (.alone cpu think)).1 other) state.2).2) =
      (Function.update (Function.update state.1 other _) cpu
        (think ((apply state (.critical other works)).1 cpu)), (runWorks works _ state.2).2)
  rw [mine, yours, Function.update_comm apart]

def replay (start : (Cpu → Local) × Data) (items : List (SpinItem Cpu Local Data)) :
    (Cpu → Local) × Data :=
  items.foldl apply start

theorem replay_concat (start : (Cpu → Local) × Data) (items : List (SpinItem Cpu Local Data))
    (item : SpinItem Cpu Local Data) :
    replay start (items ++ [item]) = apply (replay start items) item := by
  unfold replay
  rw [List.foldl_append]
  rfl

end SpinItem

/-- The flag, where each CPU is, the CPUs' own state and what the lock guards. Beside it the
accesses of a CPU since it took the lock, and the items so far, a section at its release. -/
structure Spin (Cpu Local Data : Type) where
  locked : Bool
  pc : Cpu → SpinPc
  own : Cpu → Local
  data : Data
  pending : Cpu → List (SpinWork Local Data)
  items : List (SpinItem Cpu Local Data)

inductive SpinAction (Cpu Local Data : Type) where
  | call (cpu : Cpu) (loops : Bool)
  | access (cpu : Cpu)
  | work (cpu : Cpu) (work : SpinWork Local Data)
  | think (cpu : Cpu) (think : Local → Local)
  | release (cpu : Cpu)

def Spin.initial (own : Cpu → Local) (data : Data) : Spin Cpu Local Data :=
  { locked := false
    pc := fun _ => .outside
    own := own
    data := data
    pending := fun _ => []
    items := [] }

namespace Spin

variable (spin : Spin Cpu Local Data)

def goto (cpu : Cpu) (pc : SpinPc) : Spin Cpu Local Data :=
  { spin with pc := Function.update spin.pc cpu pc }

/-- A try has failed: `_acquire_spinlock` yields and tries again. -/
def failed (cpu : Cpu) (loops : Bool) : Spin Cpu Local Data :=
  spin.goto cpu (if loops then .reading loops else .outside)

/-- `__atomic_test_and_set` has found the flag clear. -/
def take (cpu : Cpu) : Spin Cpu Local Data :=
  { spin with
    locked := true
    pc := Function.update spin.pc cpu .holding }

def access (cpu : Cpu) : Option (Spin Cpu Local Data) :=
  match spin.pc cpu with
  | .reading loops =>
      some (if spin.locked then spin.failed cpu loops else spin.goto cpu (.exchanging loops))
  | .exchanging loops => some (if spin.locked then spin.failed cpu loops else spin.take cpu)
  | _ => none

def work (cpu : Cpu) (work : SpinWork Local Data) : Spin Cpu Local Data :=
  let result := work (spin.own cpu) spin.data
  { spin with
    own := Function.update spin.own cpu result.1
    data := result.2
    pending := Function.update spin.pending cpu (spin.pending cpu ++ [work]) }

def think (cpu : Cpu) (think : Local → Local) : Spin Cpu Local Data :=
  { spin with
    own := Function.update spin.own cpu (think (spin.own cpu))
    items := spin.items ++ [.alone cpu think] }

def release (cpu : Cpu) : Spin Cpu Local Data :=
  { spin with
    locked := false
    pc := Function.update spin.pc cpu .outside
    pending := Function.update spin.pending cpu []
    items := spin.items ++ [.critical cpu (spin.pending cpu)] }

end Spin

/-- What the lock guards is accessed, and the lock released, by a CPU that holds it only. -/
def spinStep (spin : Spin Cpu Local Data) :
    SpinAction Cpu Local Data → Except Unit (Spin Cpu Local Data)
  | .call cpu loops =>
      if spin.pc cpu = .outside then .ok (spin.goto cpu (.reading loops)) else .error ()
  | .access cpu =>
      match spin.access cpu with
      | none => .error ()
      | some after => .ok after
  | .work cpu work => if spin.pc cpu = .holding then .ok (spin.work cpu work) else .error ()
  | .think cpu think => if spin.pc cpu = .outside then .ok (spin.think cpu think) else .error ()
  | .release cpu => if spin.pc cpu = .holding then .ok (spin.release cpu) else .error ()

/-- What a CPU does apart from the accesses to the flag. -/
inductive SpinEvent (Local Data : Type) where
  | think (think : Local → Local)
  | work (work : SpinWork Local Data)

def SpinItem.events (cpu : Cpu) : SpinItem Cpu Local Data → List (SpinEvent Local Data)
  | .alone other thought => if other = cpu then [.think thought] else []
  | .critical other works => if other = cpu then works.map .work else []

def SpinAction.events (cpu : Cpu) : SpinAction Cpu Local Data → List (SpinEvent Local Data)
  | .think other thought => if other = cpu then [.think thought] else []
  | .work other job => if other = cpu then [.work job] else []
  | _ => []

/-- At most one CPU holds the lock, and the flag says whether one does. While nobody holds it all
is as after the items, one after the other; else one CPU is in the middle of the next. What a CPU
has done is in the items in its own order. -/
structure Spin.Atomic (start : (Cpu → Local) × Data) (actions : List (SpinAction Cpu Local Data))
    (spin : Spin Cpu Local Data) : Prop where
  exclusive : ∀ cpu other, spin.pc cpu = .holding → spin.pc other = .holding → cpu = other
  flag : spin.locked = true ↔ ∃ cpu, spin.pc cpu = .holding
  free : spin.locked = false → (spin.own, spin.data) = SpinItem.replay start spin.items
  held : ∀ cpu, spin.pc cpu = .holding → (spin.own, spin.data) =
    SpinItem.replay start (spin.items ++ [.critical cpu (spin.pending cpu)])
  ended : ∀ cpu, spin.pc cpu ≠ .holding → spin.pending cpu = []
  order : ∀ cpu, spin.items.flatMap (SpinItem.events cpu) ++ (spin.pending cpu).map .work =
    actions.flatMap (SpinAction.events cpu)

namespace Spin.Atomic

variable {start : (Cpu → Local) × Data} {actions : List (SpinAction Cpu Local Data)}
  {spin after : Spin Cpu Local Data} {cpu : Cpu}

theorem initial (own : Cpu → Local) (data : Data) :
    (Spin.initial own data).Atomic (own, data) [] := by
  constructor
  · intro cpu other holding
    cases holding
  · constructor
    · intro locked
      cases locked
    · rintro ⟨cpu, holding⟩
      cases holding
  · exact fun _ => rfl
  · intro cpu holding
    cases holding
  · exact fun _ _ => rfl
  · exact fun _ => rfl

theorem goto (atomic : spin.Atomic start actions) {pc : SpinPc} {action : SpinAction Cpu Local Data}
    (before : spin.pc cpu ≠ .holding) (behind : pc ≠ .holding)
    (silent : ∀ other, action.events other = []) :
    (spin.goto cpu pc).Atomic start (actions ++ [action]) := by
  have same : ∀ other, (spin.goto cpu pc).pc other = .holding ↔ spin.pc other = .holding := by
    intro other
    change Function.update spin.pc cpu pc other = _ ↔ _
    by_cases mine : other = cpu
    · rw [mine, Function.update_self]
      exact ⟨fun now => absurd now behind, fun then_ => absurd then_ before⟩
    · rw [Function.update_of_ne mine]
  constructor
  · intro one other holding again
    exact atomic.exclusive one other ((same one).mp holding) ((same other).mp again)
  · rw [show (∃ other, (spin.goto cpu pc).pc other = .holding) ↔ _ from exists_congr same]
    exact atomic.flag
  · exact atomic.free
  · exact fun other holding => atomic.held other ((same other).mp holding)
  · exact fun other outside => atomic.ended other (fun now => outside ((same other).mpr now))
  · intro other
    rw [List.flatMap_append, List.flatMap_singleton, silent other, List.append_nil]
    exact atomic.order other

theorem unlocked (atomic : spin.Atomic start actions) (clear : spin.locked = false) (other : Cpu) :
    spin.pc other ≠ .holding := by
  intro holding
  have set := atomic.flag.mpr ⟨other, holding⟩
  rw [clear] at set
  cases set

theorem take (atomic : spin.Atomic start actions) (clear : spin.locked = false)
    {action : SpinAction Cpu Local Data} (silent : ∀ other, action.events other = []) :
    (spin.take cpu).Atomic start (actions ++ [action]) := by
  have self : (spin.take cpu).pc cpu = .holding := Function.update_self _ _ _
  have only : ∀ other, (spin.take cpu).pc other = .holding → other = cpu := by
    intro other holding
    by_contra mine
    rw [show (spin.take cpu).pc other = spin.pc other from Function.update_of_ne mine _ _] at holding
    exact atomic.unlocked clear other holding
  constructor
  · intro one other holding again
    rw [only one holding, only other again]
  · exact ⟨fun _ => ⟨cpu, self⟩, fun _ => rfl⟩
  · intro impossible
    cases impossible
  · intro other holding
    rw [only other holding]
    change (spin.own, spin.data) =
      SpinItem.replay start (spin.items ++ [.critical cpu (spin.pending cpu)])
    rw [SpinItem.replay_concat, ← atomic.free clear, atomic.ended cpu (atomic.unlocked clear cpu)]
    change _ = (Function.update spin.own cpu (spin.own cpu), spin.data)
    rw [Function.update_eq_self]
  · exact fun other _ => atomic.ended other (atomic.unlocked clear other)
  · intro other
    rw [List.flatMap_append, List.flatMap_singleton, silent other, List.append_nil]
    exact atomic.order other

theorem work (atomic : spin.Atomic start actions) (holding : spin.pc cpu = .holding)
    (job : SpinWork Local Data) :
    (spin.work cpu job).Atomic start (actions ++ [.work cpu job]) := by
  have self : (spin.work cpu job).pending cpu = spin.pending cpu ++ [job] :=
    Function.update_self _ _ _
  have others : ∀ other, other ≠ cpu → (spin.work cpu job).pending other = spin.pending other :=
    fun other apart => Function.update_of_ne apart _ _
  constructor
  · exact atomic.exclusive
  · exact atomic.flag
  · intro clear
    exact absurd holding (atomic.unlocked clear cpu)
  · intro other again
    have before := atomic.held cpu holding
    rw [SpinItem.replay_concat] at before
    rw [atomic.exclusive other cpu again holding, self]
    change _ = SpinItem.replay start (spin.items ++ [.critical cpu (spin.pending cpu ++ [job])])
    rw [SpinItem.replay_concat, SpinItem.apply_critical_concat, ← before]
    rfl
  · intro other outside
    have apart : other ≠ cpu := fun same => outside (same ▸ holding)
    rw [others other apart]
    exact atomic.ended other outside
  · intro other
    rw [List.flatMap_append, List.flatMap_singleton, ← atomic.order other]
    by_cases mine : other = cpu
    · rw [mine, self, List.map_append, ← List.append_assoc]
      change _ = _ ++ (if cpu = cpu then [SpinEvent.work job] else [])
      rw [if_pos rfl]
      rfl
    · rw [others other mine]
      change _ = _ ++ (if cpu = other then [SpinEvent.work job] else [])
      rw [if_neg (Ne.symm mine), List.append_nil]
      rfl

theorem think (atomic : spin.Atomic start actions) (outside : spin.pc cpu = .outside)
    (thought : Local → Local) :
    (spin.think cpu thought).Atomic start (actions ++ [.think cpu thought]) := by
  constructor
  · exact atomic.exclusive
  · exact atomic.flag
  · intro clear
    change _ = SpinItem.replay start (spin.items ++ [.alone cpu thought])
    rw [SpinItem.replay_concat, ← atomic.free clear]
    rfl
  · intro other holding
    change spin.pc other = .holding at holding
    have apart : other ≠ cpu := by
      intro same
      rw [same, outside] at holding
      cases holding
    have before := atomic.held other holding
    rw [SpinItem.replay_concat] at before
    change _ = SpinItem.replay start
      (spin.items ++ [.alone cpu thought] ++ [.critical other (spin.pending other)])
    rw [SpinItem.replay_concat, SpinItem.replay_concat, SpinItem.apply_alone_comm _ apart, ← before]
    rfl
  · exact atomic.ended
  · intro other
    change (spin.items ++ [SpinItem.alone cpu thought]).flatMap _ ++ (spin.pending other).map _ = _
    rw [List.flatMap_append, List.flatMap_append, List.flatMap_singleton, List.flatMap_singleton,
      ← atomic.order other]
    by_cases mine : other = cpu
    · have none : spin.pending other = [] := by
        apply atomic.ended
        rw [mine, outside]
        decide
      rw [none, List.map_nil, List.append_nil, List.append_nil]
      rfl
    · change _ ++ (if cpu = other then _ else []) ++ _ = _ ++ (if cpu = other then _ else [])
      rw [if_neg (Ne.symm mine), List.append_nil, List.append_nil]

theorem release (atomic : spin.Atomic start actions) (holding : spin.pc cpu = .holding) :
    (spin.release cpu).Atomic start (actions ++ [.release cpu]) := by
  have self : (spin.release cpu).pending cpu = [] := Function.update_self _ _ _
  have others : ∀ other, other ≠ cpu → (spin.release cpu).pending other = spin.pending other :=
    fun other apart => Function.update_of_ne apart _ _
  have nobody : ∀ other, (spin.release cpu).pc other ≠ .holding := by
    intro other still
    change Function.update spin.pc cpu .outside other = .holding at still
    by_cases mine : other = cpu
    · rw [mine, Function.update_self] at still
      cases still
    · rw [Function.update_of_ne mine] at still
      exact mine (atomic.exclusive other cpu still holding)
  constructor
  · intro one other again
    exact absurd again (nobody one)
  · constructor
    · intro locked
      cases locked
    · rintro ⟨other, again⟩
      exact absurd again (nobody other)
  · exact fun _ => atomic.held cpu holding
  · intro other again
    exact absurd again (nobody other)
  · intro other _
    by_cases mine : other = cpu
    · rw [mine, self]
    · rw [others other mine]
      exact atomic.ended other (fun again => mine (atomic.exclusive other cpu again holding))
  · intro other
    change (spin.items ++ [SpinItem.critical cpu (spin.pending cpu)]).flatMap _ ++ _ = _
    rw [List.flatMap_append, List.flatMap_append, List.flatMap_singleton, List.flatMap_singleton,
      ← atomic.order other]
    change _ = _ ++ []
    rw [List.append_nil]
    by_cases mine : other = cpu
    · rw [mine, self, List.map_nil, List.append_nil]
      change _ ++ (if cpu = cpu then _ else []) = _
      rw [if_pos rfl]
    · rw [others other mine]
      change _ ++ (if cpu = other then _ else []) ++ _ = _
      rw [if_neg (Ne.symm mine), List.append_nil]

theorem step (atomic : spin.Atomic start actions) {action : SpinAction Cpu Local Data}
    (stepped : spinStep spin action = .ok after) : after.Atomic start (actions ++ [action]) := by
  have onward : ∀ loops, (if loops = true then SpinPc.reading loops else .outside) ≠ .holding := by
    decide
  cases action with
  | call cpu loops =>
      simp only [spinStep] at stepped
      split at stepped
      · rename_i outside
        cases stepped
        apply atomic.goto
        · rw [outside]
          decide
        · exact nofun
        · exact fun _ => rfl
      · cases stepped
  | access cpu =>
      simp only [spinStep] at stepped
      split at stepped
      · cases stepped
      · rename_i next accessed
        cases stepped
        unfold Spin.access at accessed
        split at accessed
        · rename_i loops reading
          cases accessed
          split
          · exact atomic.goto (by rw [reading]; exact nofun) (onward loops) (fun _ => rfl)
          · exact atomic.goto (by rw [reading]; exact nofun) nofun (fun _ => rfl)
        · rename_i loops exchanging
          cases accessed
          split
          · exact atomic.goto (by rw [exchanging]; exact nofun) (onward loops) (fun _ => rfl)
          · rename_i clear
            exact atomic.take (Bool.eq_false_iff.mpr clear) (fun _ => rfl)
        · cases accessed
  | work cpu job =>
      simp only [spinStep] at stepped
      split at stepped
      · rename_i holding
        cases stepped
        exact atomic.work holding job
      · cases stepped
  | think cpu thought =>
      simp only [spinStep] at stepped
      split at stepped
      · rename_i outside
        cases stepped
        exact atomic.think outside thought
      · cases stepped
  | release cpu =>
      simp only [spinStep] at stepped
      split at stepped
      · rename_i holding
        cases stepped
        exact atomic.release holding
      · cases stepped

end Spin.Atomic

theorem Spin.Atomic.of_run {own : Cpu → Local} {data : Data}
    {actions : List (SpinAction Cpu Local Data)} {spin : Spin Cpu Local Data}
    (run : Run spinStep (fun _ _ => True) (Spin.initial own data) actions spin) :
    spin.Atomic (own, data) actions := by
  induction run with
  | start => exact Spin.Atomic.initial own data
  | next _ _ taken ih => exact ih.step taken

/-- In every run of any CPUs the sections under a spinlock are atomic, in the order in which the
lock is released. -/
theorem spinlock_sections_atomic {own : Cpu → Local} {data : Data}
    {actions : List (SpinAction Cpu Local Data)} {spin : Spin Cpu Local Data}
    (run : Run spinStep (fun _ _ => True) (Spin.initial own data) actions spin) :
    spin.Atomic (own, data) actions :=
  Spin.Atomic.of_run run

/-- Two CPUs count, each with a load and a store. The second waits for the first. -/
def twoCounts : List (SpinAction Bool Nat Nat) :=
  [.call false true, .access false, .access false, .call true true,
    .work false (fun _ count => (count, count)), .access true,
    .work false (fun seen _ => (seen, seen + 1)), .release false, .access true, .access true,
    .work true (fun _ count => (count, count)), .work true (fun seen _ => (seen, seen + 1)),
    .release true]

theorem spinlock_sections_atomic_counts : ∃ spin : Spin Bool Nat Nat,
    Run spinStep (fun _ _ => True) (Spin.initial (fun _ => 0) 0) twoCounts spin ∧
      spin.items.length = 2 ∧ spin.data = 2 := by
  have executed : exec spinStep (Spin.initial (fun _ : Bool => 0) 0) twoCounts = .ok _ := rfl
  have run := Run.of_exec executed (Guarded.trivial _ _)
  have atomic := spinlock_sections_atomic run
  exact ⟨_, run, rfl, congrArg Prod.snd (atomic.free rfl)⟩

end LabKernel.Common
