/-
Every call keeps the timers of a CPU in time, and what follows for whole runs.
-/

import LabKernel.Kernel.TimerRuns
import Mathlib.Data.List.Induction

set_option autoImplicit false

namespace LabKernel.Kernel.Timers

open Common.Rbtree RedBlack History Transition

variable {clock : Clock} {sys after : TimerSystem} {shape : RedBlack.Tree Ptr} {node : Ptr}

theorem Timely.mem_iff (timely : Timely clock sys shape) :
    node ∈ shape.inorder ↔ (pending sys.log node).isSome := by
  rw [Option.isSome_iff_exists]
  constructor
  · intro member
    exact ⟨_, (timely.same node _).mpr ⟨member, rfl⟩⟩
  · rintro ⟨key, found⟩
    exact ((timely.same node key).mp found).1

theorem Timely.set {later : UInt64} (timely : Timely clock sys shape) (calls : sys.calls = true)
    (nonnull : node ≠ null) (mine : (sys.tree.heap node).isSome)
    (free : pending sys.log node = none) (nonneg : 0 ≤ (sys.timer node).elapse.toInt)
    (small : (sys.nextKey clock node).toNat < 2 ^ 63) (ticks : sys.ticks ≤ later) :
    sys.setCpuTimer clock node later = .error .clock ∨
      ∃ after larger, sys.setCpuTimer clock node later = .ok after ∧ Timely clock after larger := by
  have absent : node ∉ shape.inorder := by
    rw [timely.mem_iff, free]
    simp
  obtain ⟨tree, larger, done, members, kept⟩ :=
    timely.queued.insert absent mine nonnull
      (show (sys.rearmed clock node).key.toNat < 2 ^ 63 from small) rfl
  have written : (sys.setTimer node (sys.rearmed clock node)).timer node =
      sys.rearmed clock node := Function.update_self _ _ _
  have queued := kept later (.set node (sys.nextKey clock node))
  have stepped : sys.setCpuTimer clock node later =
      (TimerSystem.record { sys.setTimer node (sys.rearmed clock node) with
        tree := tree
        ticks := later } (.set node (sys.nextKey clock node))).timerSetClock clock := by
    have inserted : (sys.setTimer node (sys.rearmed clock node)).tree.insert
        (sys.setTimer node (sys.rearmed clock node)).rounds
        (timerCmp (sys.setTimer node (sys.rearmed clock node)).timer) node = .ok (0, tree) := done
    unfold TimerSystem.setCpuTimer
    simp only [inserted, written]
    rfl
  generalize stateEq : TimerSystem.record { sys.setTimer node (sys.rearmed clock node) with
    tree := tree
    ticks := later } (.set node (sys.nextKey clock node)) = middle at queued stepped
  have own : (middle.timer node).key = sys.nextKey clock node := by
    rw [← stateEq]
    exact congrArg Timer.key written
  have others : ∀ other ∈ shape.inorder, middle.timer other = sys.timer other := by
    intro other member
    rw [← stateEq]
    apply Function.update_of_ne
    rintro rfl
    exact absent member
  have counter : middle.ticks = later := by
    rw [← stateEq]
    rfl
  have near : Near clock middle larger := by
    have time : (sys.timestampMs clock).toNat ≤ (middle.timestampMs clock).toNat := by
      apply timestampMs_le
      rw [counter]
      exact ticks
    intro other member
    rcases (members other).mp member with same | old
    · rw [same, own]
      exact (nextKey_near clock sys node nonneg).trans_le (Nat.add_le_add_right time _)
    · rw [others other old]
      exact (timely.near other old).trans_le (Nat.add_le_add_right time _)
  rw [stepped]
  rcases queued.timerSetClock near with stopped | ⟨deadline, counted, programmed⟩
  · exact Or.inl stopped
  right
  refine ⟨_, larger, counted, ?_, ?_, near, ?_, ?_⟩
  · exact queued.frame rfl rfl (Nat.le_refl _) (fun _ _ => rfl) (fun _ _ => rfl)
  · intro other value
    have log : middle.log = sys.log ++ [.set node (sys.nextKey clock node)] := by
      rw [← stateEq]
      rfl
    change pending middle.log other = some value ↔
      other ∈ larger.inorder ∧ (middle.timer other).key = value
    rw [log, pending_append, members]
    change (if node = other then some (sys.nextKey clock node) else _) = _ ↔ _
    by_cases same : node = other
    · rw [← same, own]
      simp
    · rw [if_neg same, timely.same]
      constructor
      · rintro ⟨old, equal⟩
        rw [others other old]
        exact ⟨Or.inr old, equal⟩
      · rintro ⟨inside, equal⟩
        rcases inside with equal' | old
        · exact absurd equal'.symm same
        · rw [others other old] at equal
          exact ⟨old, equal⟩
  · change Each Justified middle.log
    rw [← stateEq]
    exact timely.justified.concat trivial
  · apply Controlled.of_programmed _ programmed
    rw [← stateEq]
    exact calls

theorem Queued.cancelCpuTimer (queued : Queued sys shape) (near : Near clock sys shape)
    (member : node ∈ shape.inorder) :
    sys.cancelCpuTimer clock node = .error .clock ∨
      ∃ tree deadline smaller,
        sys.cancelCpuTimer clock node = .ok { sys with
          tree := tree
          deadline := deadline } ∧
        (∀ other, other ∈ smaller.inorder ↔ other ≠ node ∧ other ∈ shape.inorder) ∧
        Queued { sys with
          tree := tree
          deadline := deadline } smaller ∧
        Programmed clock { sys with
          tree := tree
          deadline := deadline } smaller := by
  obtain ⟨tree, smaller, done, members, kept⟩ := queued.erase member
  have closer : Near clock { sys with tree := tree } smaller :=
    fun other inside => near other ((members other).mp inside).2
  unfold TimerSystem.cancelCpuTimer
  rw [queued.untriggered node member, done]
  simp only [Bool.false_eq_true, if_false]
  rcases kept.timerSetClock closer with stopped | ⟨deadline, counted, programmed⟩
  · exact Or.inl stopped
  · right
    refine ⟨tree, deadline, smaller, counted, members, ?_, programmed⟩
    exact kept.frame rfl rfl (Nat.le_refl _) (fun _ _ => rfl) (fun _ _ => rfl)

/-- A timer has been cancelled or fired, and the clock is set for the others. -/
theorem Timely.ended {smaller : RedBlack.Tree Ptr} (timely : Timely clock sys shape)
    (event : TimerEvent)
    (own : event.node = node) (disarmed : event.armed = none) (justified : Justified sys.log event)
    (members : ∀ other, other ∈ smaller.inorder ↔ other ≠ node ∧ other ∈ shape.inorder)
    (queued : Queued after smaller) (log : after.log = sys.log ++ [event])
    (ticks : after.ticks = sys.ticks)
    (key : ∀ other, other ≠ node → (after.timer other).key = (sys.timer other).key)
    (calls : after.calls = true) (programmed : Programmed clock after smaller) :
    Timely clock after smaller := by
  refine ⟨queued, ?_, ?_, ?_, .of_programmed calls programmed⟩
  · intro other value
    rw [log, pending_append, members, own]
    by_cases same : node = other
    · rw [if_pos same, disarmed, same]
      simp
    · have different : other ≠ node := fun equal => same equal.symm
      rw [if_neg same, timely.same, key other different]
      simp [different]
  · intro other inside
    obtain ⟨different, member⟩ := (members other).mp inside
    have time : after.timestampMs clock = sys.timestampMs clock := by
      unfold TimerSystem.timestampMs
      rw [ticks]
    rw [key other different, time]
    exact timely.near other member
  · rw [log]
    exact timely.justified.concat justified

theorem Timely.cancel (timely : Timely clock sys shape) (calls : sys.calls = true)
    (waiting : (pending sys.log node).isSome) :
    sys.cancelCpuTimer clock node = .error .clock ∨
      ∃ after smaller, sys.cancelCpuTimer clock node = .ok after ∧
        Timely clock (after.record (.cancelled node)) smaller := by
  rcases timely.queued.cancelCpuTimer timely.near (timely.mem_iff.mpr waiting) with
    stopped | ⟨tree, deadline, smaller, stepped, members, queued, programmed⟩
  · exact Or.inl stopped
  right
  refine ⟨_, smaller, stepped, ?_⟩
  refine timely.ended (.cancelled node) rfl rfl trivial members ?_ rfl rfl (fun _ _ => rfl) calls ?_
  · refine queued.frame rfl rfl ?_ (fun _ _ => rfl) (fun _ _ => rfl)
    change _ ≤ (sys.log ++ [_]).length
    rw [List.length_append]
    exact Nat.le_add_right _ _
  · exact programmed.frame rfl (UInt64.le_refl _) (fun _ _ => rfl)

/-- The loop of the handler takes the first timer and calls its handler. -/
theorem Timely.expire (timely : Timely clock sys shape) (here : sys.control = .due node) :
    sys.expire clock node = .error .clock ∨
      ∃ after smaller, sys.expire clock node = .ok after ∧ Timely clock after smaller := by
  have controlled := timely.controlled
  unfold Controlled at controlled
  rw [here] at controlled
  obtain ⟨member, due, least⟩ := controlled
  rcases timely.queued.cancelCpuTimer timely.near member with
    stopped | ⟨tree, deadline, smaller, stepped, members, queued, programmed⟩
  · left
    unfold TimerSystem.expire
    rw [stopped]
  right
  have fired : sys.expire clock node =
      .ok (TimerSystem.record { TimerSystem.setTimer { sys with
          tree := tree
          deadline := deadline } node { sys.timer node with triggered := true } with
        control := .handler node } (.fired node (sys.timer node).key (sys.timestampMs clock))) := by
    unfold TimerSystem.expire
    rw [stepped]
    rfl
  generalize stateEq : TimerSystem.record { TimerSystem.setTimer { sys with
      tree := tree
      deadline := deadline } node { sys.timer node with triggered := true } with
    control := .handler node } (.fired node (sys.timer node).key (sys.timestampMs clock)) = after
    at fired
  refine ⟨after, smaller, fired, ?_⟩
  have others : ∀ other, other ≠ node → after.timer other = sys.timer other := by
    intro other different
    rw [← stateEq]
    exact Function.update_of_ne different _ _
  refine timely.ended (.fired node (sys.timer node).key (sys.timestampMs clock)) rfl rfl ?_ members
    ?_ ?_ ?_ ?_ ?_ ?_
  · refine ⟨(timely.same node _).mpr ⟨member, rfl⟩, due, ?_⟩
    intro other key' waiting
    obtain ⟨inside, equal⟩ := (timely.same other key').mp waiting
    rw [← equal]
    exact least other inside
  · refine queued.frame ?_ rfl ?_ ?_ ?_
    · rw [← stateEq]
      rfl
    · rw [← stateEq]
      change _ ≤ (sys.log ++ [_]).length
      rw [List.length_append]
      exact Nat.le_add_right _ _
    · intro other inside
      rw [others other ((members other).mp inside).1]
    · intro other inside
      rw [others other ((members other).mp inside).1]
  · rw [← stateEq]
    rfl
  · rw [← stateEq]
    rfl
  · intro other different
    rw [others other different]
  · rw [← stateEq]
    rfl
  · refine programmed.frame ?_ ?_ ?_
    · rw [← stateEq]
      rfl
    · rw [← stateEq]
      exact UInt64.le_refl _
    · intro other inside
      rw [others other ((members other).mp inside).1]

/-- The interrupt finds a due timer, or none that waits. -/
theorem Timely.interrupt (timely : Timely clock sys shape) (outside : sys.control = .outside)
    (elapsed : sys.deadline ≤ sys.ticks.toNat) :
    TimerSystem.resetClock clock { sys with control := .looping } 1000 = .error .clock ∨
      ∃ after, TimerSystem.resetClock clock { sys with control := .looping } 1000 = .ok after ∧
        Timely clock after shape := by
  have programmed : Programmed clock sys shape := by
    apply timely.controlled.programmed
    unfold TimerSystem.calls
    rw [outside]
  rcases resetClock_eq clock { sys with control := .looping } 1000 with stopped | counted
  · exact Or.inl stopped
  right
  refine ⟨_, counted, ?_, timely.same, timely.near, timely.justified, ?_⟩
  · exact timely.queued.frame rfl rfl (Nat.le_refl _) (fun _ _ => rfl) (fun _ _ => rfl)
  · by_cases empty : shape.inorder = []
    · exact Or.inl (.of_empty empty)
    · right
      obtain ⟨node, member, bound⟩ := programmed.late empty
      refine ⟨node, member, ?_⟩
      change (sys.timer node).key ≤ sys.timestampMs clock
      rw [UInt64.le_iff_toNat_le, timestampMs_toNat, Nat.le_div_iff_mul_le clock.oneMs_pos]
      exact bound.trans elapsed

theorem Timely.check (timely : Timely clock sys shape) (looping : sys.control = .looping) :
    ∃ after, sys.check clock = .ok after ∧ Timely clock after shape ∧ after.log = sys.log ∧
      after.ticks = sys.ticks ∧
      (after.control = .outside →
        ∀ node ∈ shape.inorder, after.timestampMs clock < (sys.timer node).key) := by
  have controlled := timely.controlled
  unfold Controlled at controlled
  rw [looping] at controlled
  have moved : ∀ control, Controlled clock { sys with control := control } shape →
      Timely clock { sys with control := control } shape := by
    intro control known
    refine ⟨?_, timely.same, timely.near, timely.justified, known⟩
    exact timely.queued.frame rfl rfl (Nat.le_refl _) (fun _ _ => rfl) (fun _ _ => rfl)
  unfold TimerSystem.check
  rw [timely.queued.first]
  simp only
  cases listed : shape.inorder with
  | nil =>
      rw [List.headD_nil, if_pos rfl]
      refine ⟨_, rfl, moved .outside (Programmed.of_empty listed), rfl, rfl, ?_⟩
      intro _ node member
      cases member
  | cons first rest =>
      have here : first ∈ shape.inorder := by
        rw [listed]
        exact List.mem_cons_self
      have least : ∀ other ∈ shape.inorder, (sys.timer first).key ≤ (sys.timer other).key :=
        fun other member => timely.queued.least listed member
      rw [List.headD_cons, if_neg (timely.queued.nonnull here)]
      by_cases early : sys.timestampMs clock < (sys.timer first).key
      · rw [if_pos early]
        refine ⟨_, rfl, moved .outside ?_, rfl, rfl, ?_⟩
        · rcases controlled with programmed | ⟨node, member, due⟩
          · exact programmed.frame rfl (UInt64.le_refl _) (fun _ _ => rfl)
          · have impossible := UInt64.lt_of_lt_of_le early (UInt64.le_trans (least node member) due)
            exact absurd impossible (UInt64.lt_irrefl _)
        · intro _ node member
          rw [← listed] at member
          exact UInt64.lt_of_lt_of_le early (least node member)
      · rw [if_neg early]
        refine ⟨_, rfl, moved (.due first) ⟨here, UInt64.not_lt.mp early, least⟩, rfl, rfl, ?_⟩
        intro impossible
        cases impossible

/-! ### Runs -/

theorem timerStep_timely (timely : Timely clock sys shape) (action : TimerAction)
    (allowed : timerGuard clock sys action) :
    (∃ after shape', timerStep clock sys action = .ok after ∧ Timely clock after shape') ∨
      timerStep clock sys action = .error .disabled ∨
      timerStep clock sys action = .error .clock := by
  cases action with
  | tick later =>
      refine Or.inl ⟨_, shape, rfl, ?_⟩
      exact timely.later rfl rfl rfl rfl allowed (fun _ => rfl) (fun _ => rfl)
  | configure node elapse =>
      refine Or.inl ⟨_, shape, rfl, ?_⟩
      have kept : ∀ other, ((sys.setTimer node { sys.timer node with elapse := elapse }).timer
          other).key = (sys.timer other).key ∧
          ((sys.setTimer node { sys.timer node with elapse := elapse }).timer other).triggered =
            (sys.timer other).triggered := by
        intro other
        unfold TimerSystem.setTimer
        simp only [Function.update_apply]
        split
        · rename_i same
          rw [same]
          exact ⟨rfl, rfl⟩
        · exact ⟨rfl, rfl⟩
      exact timely.later rfl rfl rfl rfl (UInt64.le_refl _) (fun other => (kept other).1)
        (fun other => (kept other).2)
  | set node later =>
      obtain ⟨nonnull, mine, free, nonneg, small, ticks⟩ := allowed
      simp only [timerStep]
      by_cases calls : sys.calls = true
      · rw [if_pos calls]
        rcases timely.set calls nonnull mine free nonneg small ticks with
          stopped | ⟨after, larger, stepped, kept⟩
        · exact Or.inr (Or.inr stopped)
        · exact Or.inl ⟨after, larger, stepped, kept⟩
      · rw [if_neg calls]
        exact Or.inr (Or.inl rfl)
  | cancel node =>
      simp only [timerStep]
      by_cases calls : sys.calls = true
      · rw [if_pos calls]
        rcases timely.cancel calls allowed with stopped | ⟨after, smaller, stepped, kept⟩
        · rw [stopped]
          exact Or.inr (Or.inr rfl)
        · rw [stepped]
          exact Or.inl ⟨_, smaller, rfl, kept⟩
      · rw [if_neg calls]
        exact Or.inr (Or.inl rfl)
  | interrupt =>
      simp only [timerStep]
      cases here : sys.control with
      | outside =>
          rcases timely.interrupt here allowed with stopped | ⟨after, stepped, kept⟩
          · exact Or.inr (Or.inr stopped)
          · exact Or.inl ⟨after, shape, stepped, kept⟩
      | looping | due node | handler node => exact Or.inr (Or.inl rfl)
  | check =>
      simp only [timerStep]
      cases here : sys.control with
      | looping =>
          obtain ⟨after, stepped, kept, _⟩ := timely.check here
          exact Or.inl ⟨after, shape, stepped, kept⟩
      | outside | due node | handler node => exact Or.inr (Or.inl rfl)
  | expire =>
      simp only [timerStep]
      cases here : sys.control with
      | due node =>
          rcases timely.expire here with stopped | ⟨after, smaller, stepped, kept⟩
          · exact Or.inr (Or.inr stopped)
          · exact Or.inl ⟨after, smaller, stepped, kept⟩
      | outside | looping | handler node => exact Or.inr (Or.inl rfl)
  | finish =>
      simp only [timerStep]
      cases here : sys.control with
      | handler node =>
          have programmed : Programmed clock sys shape := by
            apply timely.controlled.programmed
            unfold TimerSystem.calls
            rw [here]
          refine Or.inl ⟨_, shape, rfl, ?_, timely.same, timely.near, timely.justified, ?_⟩
          · exact timely.queued.frame rfl rfl (Nat.le_refl _) (fun _ _ => rfl) (fun _ _ => rfl)
          · exact Or.inl (programmed.frame rfl (UInt64.le_refl _) (fun _ _ => rfl))
      | outside | looping | due node => exact Or.inr (Or.inl rfl)

theorem timely_of_run {heap : Ptr → Option RbNode} {timer : Ptr → Timer} {ticks : UInt64}
    {deadline : Nat} {actions : List TimerAction}
    (run : Run (timerStep clock) (timerGuard clock)
      (TimerSystem.initial heap timer ticks deadline) actions sys) :
    ∃ shape, Timely clock sys shape := by
  apply run.invariant ⟨.leaf, initial_timely clock heap timer ticks deadline⟩
  rintro state action after ⟨shape, timely⟩ allowed taken
  rcases timerStep_timely timely action allowed with
    ⟨_, shape', stepped, kept⟩ | disabled | stopped
  · rw [taken] at stepped
    cases stepped
    exact ⟨shape', kept⟩
  · rw [taken] at disabled
    cases disabled
  · rw [taken] at stopped
    cases stopped

theorem set_since {before between : List TimerEvent} {event : TimerEvent} {key : UInt64}
    (own : event.node = node) (disarmed : event.armed = none)
    (waiting : pending (before ++ event :: between) node = some key) :
    ∃ key', .set node key' ∈ between := by
  induction between using List.reverseRecOn with
  | nil =>
      rw [pending_append, if_pos own, disarmed] at waiting
      cases waiting
  | append_singleton rest last ih =>
      rw [← List.cons_append, ← List.append_assoc, pending_append] at waiting
      split at waiting
      · rename_i same
        cases last with
        | set other key' =>
            cases same
            exact ⟨key', List.mem_append_right _ List.mem_cons_self⟩
        | cancelled other => cases waiting
        | fired other key' time => cases waiting
      · obtain ⟨key', member⟩ := ih waiting
        exact ⟨key', List.mem_append_left _ member⟩

/-- What holds of the timers of a CPU in every run. The timers in the tree are those that have
been set and have neither fired nor been cancelled since. -/
structure TimerContract (clock : Clock) (sys : TimerSystem) : Prop where
  tree : ∃ shape, Shaped sys.tree shape ∧
    ∀ node key, pending sys.log node = some key ↔
      node ∈ shape.inorder ∧ (sys.timer node).key = key
  noFailure : ∀ action, timerGuard clock sys action →
    (∃ after, timerStep clock sys action = .ok after) ∨
      timerStep clock sys action = .error .disabled ∨
      timerStep clock sys action = .error .clock
  fires : ∀ before later node key time, sys.log = before ++ .fired node key time :: later →
    pending before node = some key ∧ key ≤ time ∧
      ∀ other key', pending before other = some key' → key ≤ key'
  setAgain : ∀ before event between later node key time, event.node = node →
    event.armed = none → sys.log = before ++ event :: (between ++ .fired node key time :: later) →
      ∃ key', .set node key' ∈ between
  returns : ∀ after, timerStep clock sys .check = .ok after → after.control = .outside →
    ∀ node key, pending after.log node = some key → after.timestampMs clock < key
  countdown : sys.calls = true → ∀ node key, pending sys.log node = some key →
    sys.deadline ≤ (max key.toNat (sys.timestampMs clock).toNat + 1) * clock.oneMs.toNat

theorem Timely.contract (timely : Timely clock sys shape) : TimerContract clock sys := by
  have fires : ∀ before later node key time, sys.log = before ++ .fired node key time :: later →
      pending before node = some key ∧ key ≤ time ∧
        ∀ other key', pending before other = some key' → key ≤ key' :=
    fun before later node key time split =>
      timely.justified before (.fired node key time) later split
  constructor
  · exact ⟨shape, timely.queued.shaped, timely.same⟩
  · intro action allowed
    rcases timerStep_timely timely action allowed with ⟨after, _, stepped, _⟩ | stopped
    · exact Or.inl ⟨after, stepped⟩
    · exact Or.inr stopped
  · exact fires
  · intro before event between later node key time own disarmed split
    rw [← List.cons_append, ← List.append_assoc] at split
    exact set_since own disarmed (fires _ later node key time split).1
  · intro after stepped outside node key waiting
    have looping : sys.control = .looping := by
      simp only [timerStep] at stepped
      cases here : sys.control with
      | looping => rfl
      | outside | due node | handler node =>
          rw [here] at stepped
          cases stepped
    obtain ⟨final, checked, kept, log, _, late⟩ := timely.check looping
    simp only [timerStep, looping] at stepped
    change sys.check clock = .ok after at stepped
    rw [checked] at stepped
    cases stepped
    rw [log] at waiting
    obtain ⟨member, equal⟩ := (timely.same node key).mp waiting
    rw [← equal]
    exact late outside node member
  · intro calls node key waiting
    obtain ⟨member, equal⟩ := (timely.same node key).mp waiting
    rw [← equal]
    exact (timely.controlled.programmed calls).soon node member

/-- Insertions meet no duplicate, timers fire once, in order and not early, none that is due is
left, and the countdown is for the earliest timer. -/
theorem timers_of_run {heap : Ptr → Option RbNode} {timer : Ptr → Timer} {ticks : UInt64}
    {deadline : Nat} {actions : List TimerAction}
    (run : Run (timerStep clock) (timerGuard clock)
      (TimerSystem.initial heap timer ticks deadline) actions sys) :
    TimerContract clock sys := by
  obtain ⟨shape, timely⟩ := timely_of_run run
  exact timely.contract

def virtClock : Clock :=
  { frequency := 62500000
    fast := by decide
    narrow := by decide }

/-- The node of one of some timers in memory. -/
def timerNode (index : Fin 4) : Ptr := ⟨64 + 64 * UInt64.ofNat index, by revert index; decide⟩

def threeTimers : TimerSystem :=
  TimerSystem.initial (fun _ => some { parentColor := 9, right := null, left := null })
    (fun node =>
      { triggered := true
        elapse := if node = timerNode 0 then 20 else 5
        key := 0xffffffffffffffff }) 62500000 0

/-- Two timers with the same key are set, and one that is cancelled. The second handler sets its
own timer again. -/
def timerCalls : List TimerAction :=
  [.set (timerNode 0) 62500100, .set (timerNode 2) 62500200, .set (timerNode 1) 62501000,
    .cancel (timerNode 0), .tick 62813500, .interrupt, .check, .expire, .finish, .check,
    .tick 62900000, .expire, .set (timerNode 2) 62900000, .finish, .check]

/-- `timerGuard` as a check. -/
def timerAllowed (sys : TimerSystem) : TimerAction → Bool
  | .tick later => sys.ticks ≤ later
  | .set node later =>
      node ≠ null ∧ (sys.tree.heap node).isSome ∧ pending sys.log node = none ∧
        0 ≤ (sys.timer node).elapse.toInt ∧
          (sys.nextKey virtClock node).toNat < 2 ^ 63 ∧ sys.ticks ≤ later
  | .cancel node => (pending sys.log node).isSome
  | .interrupt => sys.deadline ≤ sys.ticks.toNat
  | _ => true

theorem timers_of_run_twice :
    ∃ sys, Run (timerStep virtClock) (timerGuard virtClock) threeTimers timerCalls sys ∧
      TimerContract virtClock sys ∧ sys.control = .outside ∧
      sys.log = [.set (timerNode 0) 1020, .set (timerNode 2) 1005, .set (timerNode 1) 1005,
        .cancelled (timerNode 0), .fired (timerNode 1) 1005 1005, .fired (timerNode 2) 1005 1006,
        .set (timerNode 2) 1011] := by
  have passed : checkRun (timerStep virtClock) timerAllowed
      (fun sys => sys.control = .outside ∧
        sys.log = [.set (timerNode 0) 1020, .set (timerNode 2) 1005, .set (timerNode 1) 1005,
          .cancelled (timerNode 0), .fired (timerNode 1) 1005 1005,
          .fired (timerNode 2) 1005 1006, .set (timerNode 2) 1011]) threeTimers timerCalls =
      true := by
    decide +kernel
  obtain ⟨sys, run, checked⟩ := Run.of_checkRun (fun state action allowed =>
    show timerGuard virtClock state action by
    cases action with
    | tick later | set node later | cancel node | interrupt =>
        simp only [timerAllowed, decide_eq_true_eq] at allowed
        exact allowed
    | configure node elapse | check | expire | finish => trivial) passed
  exact ⟨sys, run, timers_of_run run, of_decide_eq_true checked⟩

end LabKernel.Kernel.Timers
