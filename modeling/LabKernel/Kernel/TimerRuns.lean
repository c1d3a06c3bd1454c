/-
The countdown of a CPU and its timers in time.

Whenever timers may be set or cancelled the countdown ends no earlier than the earliest pending
timer is due and less than a millisecond later. So the interrupt finds a due timer, and the loop
of the handler sets the clock again before it is left.
-/

import LabKernel.Kernel.TimerQueue

set_option autoImplicit false

namespace LabKernel.Kernel.Timers

open Common.Rbtree RedBlack History Transition

/-! ### Time -/

section Time

variable (clock : Clock)

theorem Clock.oneMs_toNat : clock.oneMs.toNat = clock.frequency.toNat / 1000 := by
  unfold Clock.oneMs
  rw [UInt64.toNat_div]
  rfl

theorem Clock.oneMs_pos : 0 < clock.oneMs.toNat := by
  rw [clock.oneMs_toNat]
  have fast := clock.fast
  omega

theorem Clock.oneMs_lt : clock.oneMs.toNat < 2 ^ 23 := by
  rw [clock.oneMs_toNat]
  have narrow := clock.narrow
  omega

theorem timestampMs_toNat (sys : TimerSystem) :
    (sys.timestampMs clock).toNat = sys.ticks.toNat / clock.oneMs.toNat := by
  unfold TimerSystem.timestampMs
  exact UInt64.toNat_div _ _

theorem timestampMs_le {sys after : TimerSystem} (later : sys.ticks ≤ after.ticks) :
    (sys.timestampMs clock).toNat ≤ (after.timestampMs clock).toNat := by
  rw [timestampMs_toNat, timestampMs_toNat]
  exact Nat.div_le_div_right (UInt64.le_iff_toNat_le.mp later)

/-- The counter is in the millisecond that is read from it. -/
theorem ticks_bounds (sys : TimerSystem) :
    (sys.timestampMs clock).toNat * clock.oneMs.toNat ≤ sys.ticks.toNat ∧
      sys.ticks.toNat < ((sys.timestampMs clock).toNat + 1) * clock.oneMs.toNat := by
  rw [timestampMs_toNat]
  constructor
  · exact Nat.div_mul_le_self _ _
  · exact (Nat.div_lt_iff_lt_mul clock.oneMs_pos).mp (Nat.lt_succ_self _)

/-- An elapse that is not negative is added as it is. -/
theorem nextKey_near (sys : TimerSystem) (node : Ptr)
    (nonneg : 0 ≤ (sys.timer node).elapse.toInt) :
    (sys.nextKey clock node).toNat < (sys.timestampMs clock).toNat + 2 ^ 31 := by
  have value : (sys.timer node).elapse.toInt64.toInt = (sys.timer node).elapse.toInt :=
    Int32.toInt_toInt64 _
  have bound := Int32.toInt_lt (sys.timer node).elapse
  rw [← Int64.toInt64_toUInt64 (sys.timer node).elapse.toInt64, toInt_toInt64, Int.bmod] at value
  have width := (sys.timer node).elapse.toInt64.toUInt64.toNat_lt
  unfold TimerSystem.nextKey
  rw [UInt64.toNat_add]
  omega

end Time

/-! ### The countdown -/

variable {clock : Clock} {sys after : TimerSystem} {shape : RedBlack.Tree Ptr} {node : Ptr}

theorem resetClock_eq (clock : Clock) (sys : TimerSystem) (countdown : UInt64) :
    sys.resetClock clock countdown = .error .clock ∨
      sys.resetClock clock countdown =
        .ok { sys with deadline := sys.ticks.toNat + (countdown * clock.oneMs).toNat } := by
  unfold TimerSystem.resetClock
  simp only
  split
  · exact Or.inr rfl
  · exact Or.inl rfl

/-- No timer waits for longer than its elapse. -/
def Near (clock : Clock) (sys : TimerSystem) (shape : RedBlack.Tree Ptr) : Prop :=
  ∀ node ∈ shape.inorder,
    (sys.timer node).key.toNat < (sys.timestampMs clock).toNat + 2 ^ 31

/-- The countdown ends less than a millisecond after the earliest timer is due, or after the
present, and not before that timer is due. -/
structure Programmed (clock : Clock) (sys : TimerSystem) (shape : RedBlack.Tree Ptr) : Prop where
  soon : ∀ node ∈ shape.inorder, sys.deadline ≤
    (max (sys.timer node).key.toNat (sys.timestampMs clock).toNat + 1) * clock.oneMs.toNat
  late : shape.inorder ≠ [] →
    ∃ node ∈ shape.inorder, (sys.timer node).key.toNat * clock.oneMs.toNat ≤ sys.deadline

theorem Programmed.of_empty (empty : shape.inorder = []) : Programmed clock sys shape := by
  constructor
  · intro node member
    rw [empty] at member
    cases member
  · intro impossible
    exact absurd empty impossible

theorem Programmed.frame (programmed : Programmed clock sys shape)
    (deadline : after.deadline = sys.deadline) (ticks : sys.ticks ≤ after.ticks)
    (key : ∀ node ∈ shape.inorder, (after.timer node).key = (sys.timer node).key) :
    Programmed clock after shape := by
  have later := timestampMs_le clock ticks
  constructor
  · intro node member
    rw [deadline, key node member]
    apply (programmed.soon node member).trans
    apply Nat.mul_le_mul_right
    omega
  · intro nonempty
    obtain ⟨node, member, bound⟩ := programmed.late nonempty
    refine ⟨node, member, ?_⟩
    rw [deadline, key node member]
    exact bound

theorem countdown_toNat {key now : UInt64} (clock : Clock) (future : now ≤ key)
    (near : key.toNat < now.toNat + 2 ^ 31) :
    ((key - now) * clock.oneMs).toNat = (key.toNat - now.toNat) * clock.oneMs.toNat := by
  have bound : (key.toNat - now.toNat) * clock.oneMs.toNat < 2 ^ 31 * 2 ^ 23 := by
    apply Nat.mul_lt_mul''
    · omega
    · exact clock.oneMs_lt
  rw [UInt64.toNat_mul, UInt64.toNat_sub_of_le _ _ future, Nat.mod_eq_of_lt]
  omega

theorem Queued.timerSetClock (queued : Queued sys shape) (near : Near clock sys shape) :
    sys.timerSetClock clock = .error .clock ∨
      ∃ deadline, sys.timerSetClock clock = .ok { sys with deadline := deadline } ∧
        Programmed clock { sys with deadline := deadline } shape := by
  unfold TimerSystem.timerSetClock
  rw [queued.first]
  simp only
  obtain ⟨low, high⟩ := ticks_bounds clock sys
  cases listed : shape.inorder with
  | nil =>
      rw [List.headD_nil, if_pos rfl]
      rcases resetClock_eq clock sys 1000 with stopped | counted
      · exact Or.inl stopped
      · exact Or.inr ⟨_, counted, .of_empty listed⟩
  | cons first rest =>
      have here : first ∈ shape.inorder := by
        rw [listed]
        exact List.mem_cons_self
      rw [List.headD_cons, if_neg (queued.nonnull here)]
      have least : ∀ other ∈ shape.inorder,
          (sys.timer first).key.toNat ≤ (sys.timer other).key.toNat :=
        fun other member => UInt64.le_iff_toNat_le.mp (queued.least listed member)
      by_cases past : (sys.timer first).key ≤ sys.timestampMs clock
      · rw [if_pos past]
        rcases resetClock_eq clock sys 0 with stopped | counted
        · exact Or.inl stopped
        · right
          rw [UInt64.zero_mul, UInt64.toNat_zero, Nat.add_zero] at counted
          refine ⟨_, counted, ?_, fun _ => ⟨first, here, ?_⟩⟩
          · intro other member
            apply (Nat.le_of_lt high).trans
            apply Nat.mul_le_mul_right
            exact Nat.succ_le_succ (Nat.le_max_right _ _)
          · apply Nat.le_trans _ low
            exact Nat.mul_le_mul_right _ (UInt64.le_iff_toNat_le.mp past)
      · rw [if_neg past]
        have future : sys.timestampMs clock ≤ (sys.timer first).key :=
          UInt64.le_of_lt (UInt64.not_le.mp past)
        have order := UInt64.le_iff_toNat_le.mp future
        rcases resetClock_eq clock sys ((sys.timer first).key - sys.timestampMs clock)
          with stopped | counted
        · exact Or.inl stopped
        · right
          rw [countdown_toNat clock future (near first here)] at counted
          have split : (sys.timer first).key.toNat * clock.oneMs.toNat =
              (sys.timestampMs clock).toNat * clock.oneMs.toNat +
                ((sys.timer first).key.toNat - (sys.timestampMs clock).toNat) *
                  clock.oneMs.toNat := by
            rw [← Nat.add_mul, Nat.add_sub_cancel' order]
          rw [Nat.add_mul] at high
          refine ⟨_, counted, ?_, fun _ => ⟨first, here, ?_⟩⟩
          · intro other member
            have bound : ((sys.timer first).key.toNat + 1) * clock.oneMs.toNat ≤
                (max (sys.timer other).key.toNat (sys.timestampMs clock).toNat + 1) *
                  clock.oneMs.toNat := by
              apply Nat.mul_le_mul_right
              have smallest := least other member
              omega
            apply Nat.le_trans _ bound
            rw [Nat.add_mul]
            change sys.ticks.toNat + _ ≤ _
            omega
          · change (sys.timer first).key.toNat * _ ≤ sys.ticks.toNat + _
            omega

/-! ### What holds in every run -/

/-- A handler call is for a timer that is pending with this key, not before the key, and no
pending timer has a smaller one. -/
def Justified (before : List TimerEvent) : TimerEvent → Prop
  | .fired node key time =>
      pending before node = some key ∧ key ≤ time ∧
        ∀ other key', pending before other = some key' → key ≤ key'
  | _ => True

/-- What is known of the countdown where the CPU is. After the interrupt there is a due timer, or
the clock has been set since. -/
def Controlled (clock : Clock) (sys : TimerSystem) (shape : RedBlack.Tree Ptr) : Prop :=
  match sys.control with
  | .outside | .handler _ => Programmed clock sys shape
  | .looping =>
      Programmed clock sys shape ∨
        ∃ node ∈ shape.inorder, (sys.timer node).key ≤ sys.timestampMs clock
  | .due node =>
      node ∈ shape.inorder ∧ (sys.timer node).key ≤ sys.timestampMs clock ∧
        ∀ other ∈ shape.inorder, (sys.timer node).key ≤ (sys.timer other).key

structure Timely (clock : Clock) (sys : TimerSystem) (shape : RedBlack.Tree Ptr) : Prop where
  queued : Queued sys shape
  same : ∀ node key, pending sys.log node = some key ↔
    node ∈ shape.inorder ∧ (sys.timer node).key = key
  near : Near clock sys shape
  justified : Each Justified sys.log
  controlled : Controlled clock sys shape

theorem Controlled.of_programmed (calls : sys.calls = true)
    (programmed : Programmed clock sys shape) : Controlled clock sys shape := by
  unfold TimerSystem.calls at calls
  unfold Controlled
  cases here : sys.control with
  | outside | handler node => exact programmed
  | looping | due node =>
      rw [here] at calls
      cases calls

theorem Controlled.programmed (controlled : Controlled clock sys shape)
    (calls : sys.calls = true) : Programmed clock sys shape := by
  unfold TimerSystem.calls at calls
  unfold Controlled at controlled
  cases here : sys.control with
  | outside | handler node =>
      rw [here] at controlled
      exact controlled
  | looping | due node =>
      rw [here] at calls
      cases calls

theorem Near.later (near : Near clock sys shape) (ticks : sys.ticks ≤ after.ticks)
    (key : ∀ node ∈ shape.inorder, (after.timer node).key = (sys.timer node).key) :
    Near clock after shape := by
  intro node member
  rw [key node member]
  exact (near node member).trans_le (Nat.add_le_add_right (timestampMs_le clock ticks) _)

theorem Controlled.later (controlled : Controlled clock sys shape)
    (deadline : after.deadline = sys.deadline) (control : after.control = sys.control)
    (ticks : sys.ticks ≤ after.ticks)
    (key : ∀ node ∈ shape.inorder, (after.timer node).key = (sys.timer node).key) :
    Controlled clock after shape := by
  have reached : ∀ node ∈ shape.inorder, (sys.timer node).key ≤ sys.timestampMs clock →
      (after.timer node).key ≤ after.timestampMs clock := by
    intro node member due
    rw [key node member, UInt64.le_iff_toNat_le]
    exact (UInt64.le_iff_toNat_le.mp due).trans (timestampMs_le clock ticks)
  unfold Controlled at controlled ⊢
  rw [control]
  cases here : sys.control with
  | outside | handler node =>
      rw [here] at controlled
      exact controlled.frame deadline ticks key
  | looping =>
      rw [here] at controlled
      rcases controlled with programmed | ⟨node, member, due⟩
      · exact Or.inl (programmed.frame deadline ticks key)
      · exact Or.inr ⟨node, member, reached node member due⟩
  | due node =>
      rw [here] at controlled
      obtain ⟨member, due, least⟩ := controlled
      refine ⟨member, reached node member due, ?_⟩
      intro other inside
      rw [key node member, key other inside]
      exact least other inside

theorem Timely.later (timely : Timely clock sys shape) (tree : after.tree = sys.tree)
    (log : after.log = sys.log) (deadline : after.deadline = sys.deadline)
    (control : after.control = sys.control) (ticks : sys.ticks ≤ after.ticks)
    (key : ∀ node, (after.timer node).key = (sys.timer node).key)
    (triggered : ∀ node, (after.timer node).triggered = (sys.timer node).triggered) :
    Timely clock after shape := by
  constructor
  · refine timely.queued.frame tree rfl ?_ (fun node _ => key node) (fun node _ => triggered node)
    rw [log]
  · intro node value
    rw [log, key node]
    exact timely.same node value
  · exact timely.near.later ticks (fun node _ => key node)
  · rw [log]
    exact timely.justified
  · exact timely.controlled.later deadline control ticks (fun node _ => key node)

theorem initial_timely (clock : Clock) (heap : Ptr → Option RbNode) (timer : Ptr → Timer)
    (ticks : UInt64) (deadline : Nat) :
    Timely clock (TimerSystem.initial heap timer ticks deadline) .leaf := by
  constructor
  · refine ⟨empty_shaped heap, List.Pairwise.nil, ?_, ?_, Nat.le_refl 0⟩
    · intro node member
      cases member
    · intro node member
      cases member
  · intro node key
    constructor
    · intro impossible
      cases impossible
    · rintro ⟨member, _⟩
      cases member
  · intro node member
    cases member
  · exact .nil
  · exact Programmed.of_empty rfl

end LabKernel.Kernel.Timers
