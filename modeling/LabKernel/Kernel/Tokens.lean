/-
The tokens of the child exit semaphores.

Only a process itself waits on its `childexit`, so the semaphore is free or has this one
sleeper, and a token is either in the semaphore or in the hands of a call of `wait`.
-/

import LabKernel.Kernel.Proc

set_option autoImplicit false

namespace LabKernel.Kernel

open Common

/-! ### Tokens -/

/-- Whether a call of `wait` has a token that it has not used yet. -/
def WaitCall.taken : WaitCall → Bool
  | .token | .asleep true => true
  | _ => false

/-- A process that sleeps in its own `childexit` is the only one there. -/
structure ShapeAt (index : Nat) (sem : Semaphore) (call : WaitCall) : Prop where
  asleep : call = .asleep false → sem = { val := -1, sleeplist := [index] }
  awake : call ≠ .asleep false → sem.sleeplist = [] ∧ 0 ≤ sem.val

namespace Waiters

variable {waiters after : Waiters} {index other : Nat} {sem : Semaphore} {call : WaitCall}
  {procs : Procs}

/-- The tokens in `childexit`, and the one that was taken from it. -/
def tokens (waiters : Waiters) (index : Nat) : Int :=
  max (waiters.childexit index).val 0 + (waiters.calls index).taken.toNat

def Shaped (waiters : Waiters) : Prop :=
  ∀ index, ShapeAt index (waiters.childexit index) (waiters.calls index)

/-- A process gets another semaphore value and comes to another place in its call. -/
def put (waiters : Waiters) (index : Nat) (sem : Semaphore) (call : WaitCall) (procs : Procs) :
    Waiters :=
  { procs := procs
    childexit := Function.update waiters.childexit index sem
    calls := Function.update waiters.calls index call }

@[simp]
theorem put_calls_self : (waiters.put index sem call procs).calls index = call :=
  Function.update_self _ _ _

@[simp]
theorem put_calls_other (different : other ≠ index) :
    (waiters.put index sem call procs).calls other = waiters.calls other :=
  Function.update_of_ne different _ _

@[simp]
theorem put_childexit_self : (waiters.put index sem call procs).childexit index = sem :=
  Function.update_self _ _ _

@[simp]
theorem put_childexit_other (different : other ≠ index) :
    (waiters.put index sem call procs).childexit other = waiters.childexit other :=
  Function.update_of_ne different _ _

theorem Shaped.put (shaped : waiters.Shaped) (here : ShapeAt index sem call) :
    (waiters.put index sem call procs).Shaped := by
  intro other
  by_cases same : other = index
  · rw [same, put_childexit_self, put_calls_self]
    exact here
  · rw [put_childexit_other same, put_calls_other same]
    exact shaped other

theorem tokens_put (waiters : Waiters) (index other : Nat) (sem : Semaphore) (call : WaitCall)
    (procs : Procs) :
    (waiters.put index sem call procs).tokens other =
      if other = index then max sem.val 0 + call.taken.toNat else waiters.tokens other := by
  unfold tokens
  by_cases same : other = index
  · rw [if_pos same, same, put_childexit_self, put_calls_self]
  · rw [if_neg same, put_childexit_other same, put_calls_other same]

theorem setSem_eq_put (waiters : Waiters) (index : Nat) (sem : Semaphore) :
    waiters.setSem index sem = waiters.put index sem (waiters.calls index) waiters.procs := by
  unfold setSem Waiters.put
  rw [Function.update_eq_self]

theorem setCall_eq_put (waiters : Waiters) (index : Nat) (call : WaitCall) :
    waiters.setCall index call =
      waiters.put index (waiters.childexit index) call waiters.procs := by
  unfold setCall Waiters.put
  rw [Function.update_eq_self]

/-- A post adds a token, in the semaphore or in the hands of the sleeper. -/
theorem postChildexit_cases (shaped : waiters.Shaped) (index : Nat) :
    (waiters.calls index = .asleep false ∧ waiters.postChildexit index =
      .ok (waiters.put index { val := 0, sleeplist := [] } (.asleep true)
        (waiters.procs.activate index false))) ∨
    (waiters.calls index ≠ .asleep false ∧ waiters.postChildexit index =
      .ok (waiters.put index { val := (waiters.childexit index).val + 1, sleeplist := [] }
        (waiters.calls index) waiters.procs)) := by
  obtain ⟨asleep, awake⟩ := shaped index
  by_cases sleeps : waiters.calls index = .asleep false
  · have posted : postSem (waiters.childexit index) =
        some (some index, { val := 0, sleeplist := [] }) := by
      rw [asleep sleeps]
      rfl
    left
    simp only [postChildexit, posted]
    exact ⟨sleeps, rfl⟩
  · obtain ⟨empty, free⟩ := awake sleeps
    have posted : postSem (waiters.childexit index) =
        some (none, { val := (waiters.childexit index).val + 1, sleeplist := [] }) := by
      unfold postSem
      rw [if_neg (by omega), empty]
    right
    simp only [postChildexit, posted, setSem_eq_put]
    exact ⟨sleeps, trivial⟩

end Waiters

/-! ### Lives -/

/-- Nobody dies or comes to life. -/
def Procs.SameLives (procs after : Procs) : Prop :=
  ∀ index, (after.state index = .zombie ↔ procs.state index = .zombie) ∧
    (after.state index = .unused ↔ procs.state index = .unused)

namespace Procs

variable {procs after : Procs} {index : Nat} {onalert : Bool}

theorem SameLives.refl (procs : Procs) : procs.SameLives procs := fun _ => ⟨Iff.rfl, Iff.rfl⟩

theorem SameLives.trans {last : Procs} (first : procs.SameLives after)
    (second : after.SameLives last) : procs.SameLives last :=
  fun index => ⟨(second index).1.trans (first index).1, (second index).2.trans (first index).2⟩

theorem SameLives.setState {state : ProcState} (alive : procs.state index ≠ .zombie)
    (born : procs.state index ≠ .unused) (still : state ≠ .zombie) (used : state ≠ .unused) :
    procs.SameLives (procs.setState index state) := by
  intro other
  by_cases same : other = index
  · rw [same, setState_self]
    simp [alive, born, still, used]
  · rw [setState_other same]
    simp

theorem SameLives.activate (born : procs.state index ≠ .unused) :
    procs.SameLives (procs.activate index onalert) := by
  unfold Procs.activate
  split
  · rename_i wakes
    apply SameLives.setState _ born (by simp) (by simp)
    intro zombie
    simp [zombie, ProcState.wakes] at wakes
  · exact SameLives.refl procs

theorem SameLives.leave {state : ProcState} (alive : procs.state index ≠ .zombie)
    (born : procs.state index ≠ .unused) (still : state ≠ .zombie) (used : state ≠ .unused) :
    procs.SameLives (procs.leave index state) := by
  unfold Procs.leave
  split
  · exact SameLives.refl procs
  · exact SameLives.setState alive born still used

end Procs

namespace Waiters

variable {waiters after : Waiters} {index other : Nat}

/-- What posts do: tokens are added as `gain` says, and everything else about the processes
stays. -/
structure Posted (waiters after : Waiters) (gain : Nat → Int) : Prop where
  shaped : after.Shaped
  tokens : ∀ index, after.tokens index = waiters.tokens index + gain index
  lives : waiters.procs.SameLives after.procs
  outside : ∀ index, after.calls index = .outside ↔ waiters.calls index = .outside
  asleep : ∀ index, after.calls index = .asleep false → waiters.calls index = .asleep false

/-- A process in `wait_sem` has been started. -/
def Born (waiters : Waiters) : Prop :=
  ∀ index, waiters.calls index = .asleep false → waiters.procs.state index ≠ .unused

theorem Posted.born {gain : Nat → Int} (posted : waiters.Posted after gain)
    (born : waiters.Born) : after.Born := by
  intro index sleeps unused
  exact born index (posted.asleep index sleeps) ((posted.lives index).2.mp unused)

theorem Posted.refl (shaped : waiters.Shaped) : waiters.Posted waiters (fun _ => 0) := by
  constructor
  · exact shaped
  · intro index
    simp
  · exact Procs.SameLives.refl _
  · exact fun _ => Iff.rfl
  · exact fun _ sleeps => sleeps

theorem Posted.trans {last : Waiters} {gain more : Nat → Int} (first : waiters.Posted after gain)
    (second : after.Posted last more) :
    waiters.Posted last (fun index => gain index + more index) := by
  constructor
  · exact second.shaped
  · intro index
    rw [second.tokens, first.tokens, Int.add_assoc]
  · exact first.lives.trans second.lives
  · exact fun index => (second.outside index).trans (first.outside index)
  · exact fun index sleeps => first.asleep index (second.asleep index sleeps)

theorem postChildexit_spec (shaped : waiters.Shaped) (born : waiters.Born) (index : Nat) :
    ∃ after, waiters.postChildexit index = .ok after ∧
      waiters.Posted after (fun other => if other = index then 1 else 0) ∧
      (waiters.calls index ≠ .asleep false →
        (after.childexit index).val = (waiters.childexit index).val + 1) ∧
      ∀ other, other ≠ index → after.childexit other = waiters.childexit other := by
  rcases waiters.postChildexit_cases shaped index with ⟨sleeps, posted⟩ | ⟨awake, posted⟩
  · refine ⟨_, posted, ⟨?_, ?_, ?_, ?_, ?_⟩, fun awake => absurd sleeps awake, fun _ different =>
      put_childexit_other different⟩
    · exact shaped.put ⟨by simp, by simp⟩
    · intro other
      rw [tokens_put]
      by_cases same : other = index
      · rw [if_pos same, if_pos same, same]
        unfold tokens
        rw [sleeps, (shaped index).asleep sleeps]
        simp [WaitCall.taken]
      · rw [if_neg same, if_neg same, Int.add_zero]
    · exact Procs.SameLives.activate (born index sleeps)
    · intro other
      by_cases same : other = index
      · rw [same, put_calls_self, sleeps]
        simp
      · rw [put_calls_other same]
    · intro other still
      by_cases same : other = index
      · rw [same]
        exact sleeps
      · rw [put_calls_other same] at still
        exact still
  · obtain ⟨empty, free⟩ := (shaped index).awake awake
    refine ⟨_, posted, ⟨?_, ?_, ?_, ?_, ?_⟩, ?_, fun _ different => put_childexit_other different⟩
    · apply shaped.put
      constructor
      · exact fun sleeps => absurd sleeps awake
      · intro _
        exact ⟨rfl, by simp only; omega⟩
    · intro other
      rw [tokens_put]
      by_cases same : other = index
      · rw [if_pos same, if_pos same, same]
        unfold tokens
        simp only
        omega
      · rw [if_neg same, if_neg same, Int.add_zero]
    · exact Procs.SameLives.refl _
    · intro other
      by_cases same : other = index
      · rw [same, put_calls_self]
      · rw [put_calls_other same]
    · intro other still
      by_cases same : other = index
      · rw [same, put_calls_self] at still
        exact absurd still awake
      · rw [put_calls_other same] at still
        exact still
    · intro _
      rw [put_childexit_self]

/-- The count of `childexit` is changed by its owner. -/
theorem Posted.setVal (shaped : waiters.Shaped) (awake : waiters.calls index ≠ .asleep false)
    {val : Int} (free : 0 ≤ val) :
    waiters.Posted (waiters.setSem index { val := val, sleeplist := [] })
      (fun other => if other = index then val - (waiters.childexit index).val else 0) := by
  rw [setSem_eq_put]
  obtain ⟨-, before⟩ := (shaped index).awake awake
  constructor
  · apply shaped.put
    constructor
    · exact fun sleeps => absurd sleeps awake
    · exact fun _ => ⟨rfl, free⟩
  · intro other
    rw [tokens_put]
    by_cases same : other = index
    · rw [if_pos same, if_pos same, same]
      unfold Waiters.tokens
      simp only
      omega
    · rw [if_neg same, if_neg same, Int.add_zero]
  · exact Procs.SameLives.refl _
  · intro other
    by_cases same : other = index
    · rw [same, put_calls_self]
    · rw [put_calls_other same]
  · intro other still
    by_cases same : other = index
    · rw [same, put_calls_self] at still
      exact absurd still awake
    · rw [put_calls_other same] at still
      exact still

theorem passTokens_spec {this : Nat} (other : this ≠ rootProc) (rounds : Nat) :
    ∀ waiters : Waiters, waiters.Shaped → waiters.Born → waiters.calls this = .outside →
      (waiters.childexit this).val.toNat < rounds →
        ∃ after, passTokens this rounds waiters = .ok after ∧
          waiters.Posted after (fun index =>
            (if index = rootProc then (waiters.childexit this).val else 0) -
              if index = this then (waiters.childexit this).val else 0) := by
  induction rounds with
  | zero =>
      intro waiters _ _ _ enough
      exact absurd enough (Nat.not_lt_zero _)
  | succ rounds ih =>
      intro waiters shaped born outside enough
      have awake : waiters.calls this ≠ .asleep false := by simp [outside]
      obtain ⟨empty, free⟩ := (shaped this).awake awake
      by_cases left : 0 < (waiters.childexit this).val
      · have got : getSem (waiters.childexit this) =
            (true, { val := (waiters.childexit this).val - 1, sleeplist := [] }) := by
          simp only [getSem, left, if_true, empty]
        have less : 0 ≤ (waiters.childexit this).val - 1 := by omega
        have lowered := Posted.setVal shaped awake less
        obtain ⟨posted, went, added, -, same⟩ :=
          postChildexit_spec lowered.shaped (lowered.born born) rootProc
        have first := lowered.trans added
        have count : (posted.childexit this).val = (waiters.childexit this).val - 1 := by
          rw [same this other, setSem_eq_put, put_childexit_self]
        obtain ⟨after, passed, rest⟩ := ih posted first.shaped (first.born born)
          ((first.outside this).mpr outside) (by rw [count]; omega)
        refine ⟨after, ?_, ?_⟩
        · unfold passTokens
          simp only [got, went, passed]
        · have all := first.trans rest
          rw [count] at all
          convert all using 2 with index
          split <;> split <;> omega
      · have none : (waiters.childexit this).val = 0 := by omega
        refine ⟨waiters, ?_, ?_⟩
        · unfold passTokens
          simp [getSem, none]
        · rw [none]
          simp only [ite_self, Int.sub_zero]
          exact Posted.refl shaped

end Waiters

end LabKernel.Kernel
