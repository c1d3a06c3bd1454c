/-
The queues of `list.c`: a ring of list nodes without a sentinel, its two ends and its size.

The spinlock of a queue is held by the callers around these functions.
-/

import LabKernel.Lib.Ring

set_option autoImplicit false

namespace LabKernel.Common

open Rings

structure Queue (Node : Type) where
  begin : Option Node
  endNode : Option Node
  sz : Nat
  deriving DecidableEq, Repr

inductive QueueStop where
  | panic
  | nullLink
  deriving DecidableEq, Repr

section Model

variable {Node : Type} [DecidableEq Node]

def queueInit : Queue Node := { begin := none, endNode := none, sz := 0 }

def queueEmpty (queue : Queue Node) : Bool := queue.sz = 0

/-- `_merge_list`: with a null list there is nothing to link. -/
def mergeList (links : Links Node) (first second : Option Node) : Option (Links Node) :=
  match first, second with
  | some first, some second => links.merge first second
  | _, _ => some links

def queuePush (links : Links Node) (queue : Queue Node) (item : Node) :
    Except QueueStop (Links Node × Queue Node) :=
  if queue.sz = 0 then
    .ok (links.single item,
      { begin := some item
        endNode := some item
        sz := queue.sz + 1 })
  else
    match mergeList (links.single item) queue.endNode (some item) with
    | none => .error .nullLink
    | some links =>
        .ok (links,
          { queue with
            endNode := some item
            sz := queue.sz + 1 })

def queuePop (links : Links Node) (queue : Queue Node) :
    Except QueueStop (Links Node × Queue Node) :=
  if queue.sz = 0 then .error .panic
  else if queue.sz = 1 then
    .ok (links,
      { begin := none
        endNode := none
        sz := queue.sz - 1 })
  else
    match queue.begin with
    | none => .error .nullLink
    | some node =>
        match links.detach node with
        | none => .error .nullLink
        | some after =>
            .ok (after,
              { queue with
                begin := links.next node
                sz := queue.sz - 1 })

def queueFront (queue : Queue Node) : Except QueueStop Node :=
  match queue.begin with
  | none => .error .panic
  | some node => .ok node

end Model

/-! ### First in, first out -/

section Fifo

variable {Node : Type} {links : Links Node} {queue : Queue Node} {nodes : List Node} {node : Node}

/-- The queue holds these nodes, the oldest first: they are a ring with the oldest at its head. -/
structure Queue.Holds (queue : Queue Node) (links : Links Node) (nodes : List Node) : Prop where
  size : queue.sz = nodes.length
  oldest : queue.begin = nodes.head?
  youngest : queue.endNode = nodes.getLast?
  ring : ∀ first rest, nodes = first :: rest → IsRing links first rest

theorem queueInit_holds (links : Links Node) : (queueInit : Queue Node).Holds links [] := by
  constructor
  · rfl
  · rfl
  · rfl
  · intro first rest same
    cases same

namespace Queue.Holds

theorem nodup (holds : queue.Holds links nodes) : nodes.Nodup := by
  cases nodes with
  | nil => exact List.nodup_nil
  | cons first rest => exact (holds.ring first rest rfl).distinct

theorem frame {after : Links Node} (holds : queue.Holds links nodes)
    (same : ∀ other ∈ nodes, Untouched links after other) : queue.Holds after nodes := by
  refine ⟨holds.size, holds.oldest, holds.youngest, ?_⟩
  intro first rest split
  apply (holds.ring first rest split).frame
  rw [← split]
  exact same

theorem empty_iff (holds : queue.Holds links nodes) : queueEmpty queue = true ↔ nodes = [] := by
  unfold queueEmpty
  rw [decide_eq_true_iff, holds.size, List.length_eq_zero_iff]

theorem front (holds : queue.Holds links (node :: nodes)) : queueFront queue = .ok node := by
  unfold queueFront
  rw [holds.oldest]
  rfl

theorem front_nil (holds : queue.Holds links []) : queueFront queue = .error .panic := by
  unfold queueFront
  rw [holds.oldest]
  rfl

variable [DecidableEq Node]

theorem push (holds : queue.Holds links nodes) (fresh : node ∉ nodes) :
    ∃ after pushed, queuePush links queue node = .ok (after, pushed) ∧
      pushed.Holds after (nodes ++ [node]) ∧
      ∀ other, other ∉ nodes → other ≠ node → Untouched links after other := by
  unfold queuePush
  rw [holds.size]
  cases nodes with
  | nil =>
      rw [if_pos List.length_nil]
      refine ⟨_, _, rfl, ⟨rfl, rfl, rfl, ?_⟩, ?_⟩
      · intro first rest same
        cases same
        exact IsRing.single links node
      · intro other _ apart
        constructor
        · exact Function.update_of_ne apart _ _
        · exact Function.update_of_ne apart _ _
  | cons first rest =>
      have ring : IsRing links first (rest ++ []) := by
        rw [List.append_nil]
        exact holds.ring first rest rfl
      have outside : node ∉ first :: (rest ++ []) := by
        rw [List.append_nil]
        exact fresh
      obtain ⟨after, inserted, joined, others⟩ := ring.insert outside
      have linked : mergeList (links.single node) queue.endNode (some node) = some after := by
        rw [holds.youngest, List.getLast?_cons]
        exact inserted
      rw [List.length_cons, if_neg (Nat.succ_ne_zero _), linked]
      refine ⟨_, _, rfl, ⟨?_, ?_, ?_, ?_⟩, ?_⟩
      · simp
      · exact holds.oldest
      · exact List.getLast?_concat.symm
      · intro head tail same
        cases same
        exact joined
      · rw [List.append_nil] at others
        exact others

theorem pop (holds : queue.Holds links (node :: nodes)) :
    ∃ after popped, queuePop links queue = .ok (after, popped) ∧ popped.Holds after nodes ∧
      ∀ other, other ∉ node :: nodes → Untouched links after other := by
  unfold queuePop
  rw [holds.size, List.length_cons, if_neg (Nat.succ_ne_zero _), Nat.add_sub_cancel]
  cases nodes with
  | nil =>
      rw [List.length_nil, if_pos rfl]
      refine ⟨_, _, rfl, queueInit_holds links, ?_⟩
      intro other _
      exact ⟨rfl, rfl⟩
  | cons second rest =>
      have ring := holds.ring node (second :: rest) rfl
      obtain ⟨after, detached, left, _, others⟩ := ring.rotate.detach
      rw [List.append_nil] at left others
      have more : ¬(second :: rest).length + 1 = 1 := by simp
      rw [if_neg more, holds.oldest, List.head?_cons]
      simp only [detached]
      refine ⟨_, _, rfl, ⟨rfl, ring.path.1.1, ?_, ?_⟩, ?_⟩
      · rw [← List.getLast?_cons_cons (a := node)]
        exact holds.youngest
      · intro head tail same
        cases same
        exact left
      · intro other outside
        rw [List.mem_cons, not_or] at outside
        exact others other outside.2 outside.1

end Queue.Holds

end Fifo

end LabKernel.Common
