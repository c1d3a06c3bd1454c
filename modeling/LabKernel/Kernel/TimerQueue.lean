/-
The tree of the timers of a CPU, in the order of their keys.

Keys are compared by the sign of their difference, which is right for keys below `2 ^ 63`. The
address decides between equal keys, so an insertion never meets an equivalent timer.
-/

import LabKernel.Kernel.Timer
import LabKernel.Lib.History
import LabKernel.Common.RbSearch
import LabKernel.Common.RbRemove

set_option autoImplicit false

namespace LabKernel.Kernel.Timers

open Common.Rbtree RedBlack History

/-! ### Comparisons -/

theorem toInt_toInt64 (word : UInt64) :
    word.toInt64.toInt = (word.toNat : Int).bmod (2 ^ 64) := by
  rw [← Int64.toInt_toBitVec, UInt64.toBitVec_toInt64]
  exact BitVec.toInt_eq_toNat_bmod word.toBitVec

theorem toInt64_sub_neg {left right : UInt64} (small : left.toNat < 2 ^ 63)
    (other : right.toNat < 2 ^ 63) : (left - right).toInt64 < 0 ↔ left < right := by
  have zero : (0 : Int64).toInt = 0 := rfl
  rw [Int64.lt_iff_toInt_lt, UInt64.lt_iff_toNat_lt, toInt_toInt64, UInt64.toNat_sub, zero,
    Int.bmod]
  omega

theorem toInt64_sub_zero {left right : UInt64} : (left - right).toInt64 = 0 ↔ left = right := by
  constructor
  · intro zero
    have word : left - right = 0 := by
      rw [← UInt64.toUInt64_toInt64 (left - right), zero]
      rfl
    rw [← UInt64.sub_add_cancel left right, word, UInt64.zero_add]
  · rintro rfl
    rw [UInt64.sub_self]
    rfl

/-- The order of two timers: by key, and by address for equal keys. -/
theorem timerCmp_iff {timer : Ptr → Timer} {left right : Ptr}
    (small : (timer left).key.toNat < 2 ^ 63) (other : (timer right).key.toNat < 2 ^ 63) :
    Less (timerCmp timer) left right ↔
      (timer left).key < (timer right).key ∨
        ((timer left).key = (timer right).key ∧ left.val < right.val) := by
  unfold Less timerCmp
  simp only [toInt64_sub_neg small other, toInt64_sub_zero]
  by_cases before : (timer left).key < (timer right).key
  · simp [before]
  · by_cases equal : (timer left).key = (timer right).key
    · simp [equal]
    · simp [before, equal]

/-! ### Pending timers -/

@[simp]
theorem pending_append (log : List TimerEvent) (event : TimerEvent) (node : Ptr) :
    pending (log ++ [event]) node =
      if event.node = node then event.armed else pending log node := by
  unfold pending
  rw [List.reverse_append, List.reverse_singleton, List.singleton_append, List.find?_cons]
  by_cases own : event.node = node
  · simp [own]
  · simp [own]

/-- The tree is balanced and in order, and its timers wait. -/
structure Queued (sys : TimerSystem) (shape : RedBlack.Tree Ptr) : Prop where
  shaped : Shaped sys.tree shape
  sorted : shape.inorder.Pairwise (Less (timerCmp sys.timer))
  small : ∀ node ∈ shape.inorder, (sys.timer node).key.toNat < 2 ^ 63
  untriggered : ∀ node ∈ shape.inorder, (sys.timer node).triggered = false
  room : shape.inorder.length ≤ sys.log.length

variable {sys after : TimerSystem} {shape : RedBlack.Tree Ptr} {node : Ptr}

theorem Queued.frame {shape' : RedBlack.Tree Ptr} (queued : Queued sys shape)
    (tree : after.tree = sys.tree)
    (same : shape' = shape) (room : sys.log.length ≤ after.log.length)
    (key : ∀ node ∈ shape.inorder, (after.timer node).key = (sys.timer node).key)
    (triggered : ∀ node ∈ shape.inorder, (after.timer node).triggered = (sys.timer node).triggered) :
    Queued after shape' := by
  rw [same]
  constructor
  · rw [tree]
    exact queued.shaped
  · apply queued.sorted.imp_of_mem
    intro left right member other less
    unfold Less timerCmp at less ⊢
    rw [key left member, key right other]
    exact less
  · intro node member
    rw [key node member]
    exact queued.small node member
  · intro node member
    rw [triggered node member]
    exact queued.untriggered node member
  · exact queued.room.trans room

theorem Queued.nonnull (queued : Queued sys shape) (member : node ∈ shape.inorder) :
    node ≠ null := by
  intro same
  apply queued.shaped.holds.nonnull
  rw [same] at member
  exact List.mem_append_right _ member

theorem Queued.first (queued : Queued sys shape) :
    sys.tree.first sys.rounds = .ok (shape.inorder.headD null) :=
  first_spec queued.shaped (Nat.le_succ_of_le queued.room)

theorem Queued.least {first : Ptr} {rest : List Ptr} (queued : Queued sys shape)
    (listed : shape.inorder = first :: rest) (member : node ∈ shape.inorder) :
    (sys.timer first).key ≤ (sys.timer node).key := by
  have here : first ∈ shape.inorder := by
    rw [listed]
    exact List.mem_cons_self
  have sorted := queued.sorted
  rw [listed, List.pairwise_cons] at sorted
  have split := member
  rw [listed, List.mem_cons] at split
  rcases split with same | later
  · rw [same]
    exact UInt64.le_refl _
  · have less := sorted.1 node later
    rw [timerCmp_iff (queued.small first here) (queued.small node member)] at less
    rcases less with smaller | ⟨equal, _⟩
    · exact UInt64.le_of_lt smaller
    · rw [equal]
      exact UInt64.le_refl _

/-! ### Setting and cancelling -/

theorem timerCmp_trans {timer : Ptr → Timer} {first second third : Ptr}
    (one : (timer first).key.toNat < 2 ^ 63) (two : (timer second).key.toNat < 2 ^ 63)
    (three : (timer third).key.toNat < 2 ^ 63) (below : Less (timerCmp timer) first second)
    (above : Less (timerCmp timer) second third) : Less (timerCmp timer) first third := by
  rw [timerCmp_iff one two] at below
  rw [timerCmp_iff two three] at above
  rw [timerCmp_iff one three]
  simp only [UInt64.lt_iff_toNat_lt, ← UInt64.toNat_inj] at below above ⊢
  omega

/-- Timers with small keys are never equivalent. -/
theorem timerCmp_total {timer : Ptr → Timer} {left right : Ptr}
    (small : (timer left).key.toNat < 2 ^ 63) (other : (timer right).key.toNat < 2 ^ 63)
    (below : ¬Less (timerCmp timer) left right) (above : ¬Less (timerCmp timer) right left) :
    left = right := by
  rw [timerCmp_iff small other] at below
  rw [timerCmp_iff other small] at above
  simp only [UInt64.lt_iff_toNat_lt, ← UInt64.toNat_inj] at below above
  apply Subtype.ext
  rw [← UInt64.toNat_inj]
  omega

theorem Queued.keyed (queued : Queued sys shape) (absent : node ∉ shape.inorder) (timer : Timer) :
    Queued (sys.setTimer node timer) shape := by
  have same : ∀ other ∈ shape.inorder,
      (sys.setTimer node timer).timer other = sys.timer other := by
    intro other member
    apply Function.update_of_ne
    rintro rfl
    exact absent member
  refine queued.frame rfl rfl (Nat.le_refl _) ?_ ?_
  · intro other member
    rw [same other member]
  · intro other member
    rw [same other member]

/-- The insertion of `set_cpu_timer` finds no equivalent timer. -/
theorem Queued.insert (queued : Queued sys shape) (absent : node ∉ shape.inorder)
    (mine : (sys.tree.heap node).isSome) (nonnull : node ≠ null) {timer : Timer}
    (small : timer.key.toNat < 2 ^ 63) (untriggered : timer.triggered = false) :
    ∃ tree larger,
      (sys.setTimer node timer).tree.insert sys.rounds
        (timerCmp (sys.setTimer node timer).timer) node = .ok (0, tree) ∧
      (∀ other, other ∈ larger.inorder ↔ other = node ∨ other ∈ shape.inorder) ∧
      ∀ ticks event, Queued
        ({ sys.setTimer node timer with
          tree := tree
          ticks := ticks }.record event) larger := by
  have keyed := queued.keyed absent timer
  have own : (sys.setTimer node timer).timer node = timer := Function.update_self _ _ _
  have ownSmall : ((sys.setTimer node timer).timer node).key.toNat < 2 ^ 63 := by
    rw [own]
    exact small
  obtain ⟨record, here⟩ := Option.isSome_iff_exists.mp mine
  have coherent : Coherent (Less (timerCmp (sys.setTimer node timer).timer)) node
      shape.inorder := by
    constructor
    · intro first one second two
      exact timerCmp_trans ownSmall (keyed.small first one) (keyed.small second two)
    · intro first one second two below above
      exact timerCmp_trans (keyed.small first one) (keyed.small second two) ownSmall above below
  rcases insert_spec keyed.shaped keyed.sorted coherent here nonnull absent
    (Nat.lt_succ_of_le keyed.room) with
    ⟨_, _, ⟨member, inside, below, above⟩, _⟩ |
    ⟨tree, earlier, later, done, split, below, above, larger, shaped, listed, _⟩
  · have same := timerCmp_total ownSmall (keyed.small member inside) below above
    exact absurd (same ▸ inside) absent
  have members : ∀ other, other ∈ larger.inorder ↔ other = node ∨ other ∈ shape.inorder := by
    intro other
    rw [listed, split, List.mem_append, List.mem_cons, List.mem_append]
    tauto
  refine ⟨tree, larger, done, members, ?_⟩
  intro ticks event
  constructor
  · exact shaped
  · change larger.inorder.Pairwise (Less (timerCmp (sys.setTimer node timer).timer))
    have ordered := keyed.sorted
    rw [split, List.pairwise_append] at ordered
    rw [listed, List.pairwise_append, List.pairwise_cons]
    refine ⟨ordered.1, ⟨above, ordered.2.1⟩, ?_⟩
    intro first low second member
    rcases List.mem_cons.mp member with same | high
    · rw [same]
      exact below first low
    · exact ordered.2.2 first low second high
  · intro other member
    rcases (members other).mp member with same | old
    · rw [same]
      exact ownSmall
    · exact keyed.small other old
  · intro other member
    rcases (members other).mp member with same | old
    · rw [same]
      change ((sys.setTimer node timer).timer node).triggered = false
      rw [own]
      exact untriggered
    · exact keyed.untriggered other old
  · have length : larger.inorder.length = shape.inorder.length + 1 := by
      rw [listed, split]
      simp only [List.length_append, List.length_cons]
      omega
    change larger.inorder.length ≤ (sys.log ++ [event]).length
    rw [length, List.length_append]
    exact Nat.succ_le_succ queued.room

/-- `cancel_cpu_timer` takes exactly this timer out of the tree. -/
theorem Queued.erase (queued : Queued sys shape) (member : node ∈ shape.inorder) :
    ∃ tree smaller, sys.tree.erase sys.rounds node = .ok tree ∧
      (∀ other, other ∈ smaller.inorder ↔ other ≠ node ∧ other ∈ shape.inorder) ∧
      Queued { sys with tree := tree } smaller := by
  obtain ⟨tree, earlier, later, done, split, smaller, shaped, listed, _⟩ :=
    erase_spec queued.shaped member (Nat.le_succ_of_le queued.room)
  have distinct : shape.inorder.Nodup := queued.shaped.holds.distinct
  rw [split, List.nodup_middle, List.nodup_cons] at distinct
  have members : ∀ other, other ∈ smaller.inorder ↔ other ≠ node ∧ other ∈ shape.inorder := by
    intro other
    rw [listed, split]
    constructor
    · intro inside
      refine ⟨?_, ?_⟩
      · rintro rfl
        exact distinct.1 inside
      · rw [List.mem_append] at inside
        rw [List.mem_append, List.mem_cons]
        tauto
    · rintro ⟨different, inside⟩
      rw [List.mem_append, List.mem_cons] at inside
      rw [List.mem_append]
      tauto
  refine ⟨tree, smaller, done, members, ?_⟩
  constructor
  · exact shaped
  · have ordered := queued.sorted
    rw [split, List.pairwise_append, List.pairwise_cons] at ordered
    rw [listed, List.pairwise_append]
    refine ⟨ordered.1, ordered.2.1.2, ?_⟩
    intro first low second high
    exact ordered.2.2 first low second (List.mem_cons_of_mem _ high)
  · intro other inside
    exact queued.small other ((members other).mp inside).2
  · intro other inside
    exact queued.untriggered other ((members other).mp inside).2
  · have length : smaller.inorder.length ≤ shape.inorder.length := by
      rw [listed, split]
      simp only [List.length_append, List.length_cons]
      omega
    exact length.trans queued.room

end LabKernel.Kernel.Timers
