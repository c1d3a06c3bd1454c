/-
Sequences of calls on one queue.

Nodes that are not on the queue are pushed, whatever has become of their links, and the oldest
one is looked at or popped. What has happened is recorded: the nodes on the queue are the pushed
ones that are left when a pop takes the oldest. The `int` that counts them does not overflow: they
are objects of sixteen bytes in a memory of less than a gigabyte.
-/

import LabKernel.Common.Queue
import LabKernel.Lib.History
import LabKernel.Lib.Transition

set_option autoImplicit false

namespace LabKernel.Common

open Rings Transition

inductive QueueCall (Node : Type) where
  | push (item : Node)
  | pop
  | front
  deriving DecidableEq, Repr

/-- What is recorded of a call; of `queue_front`, what it returned. -/
inductive QueueEvent (Node : Type) where
  | pushed (item : Node)
  | popped
  | front (node : Node)
  deriving DecidableEq, Repr

structure QueueSystem (Node : Type) where
  links : Links Node
  queue : Queue Node
  history : List (QueueEvent Node)

section Model

variable {Node : Type}

def QueueEvent.item : QueueEvent Node → Option Node
  | .pushed item => some item
  | _ => none

def QueueEvent.pops : QueueEvent Node → Bool
  | .popped => true
  | _ => false

/-- The nodes that were pushed, in that order; one may be there more than once. -/
def pushedIn (history : List (QueueEvent Node)) : List Node := history.filterMap QueueEvent.item

def popsIn (history : List (QueueEvent Node)) : Nat := history.countP QueueEvent.pops

/-- The pushed nodes that have not been popped, the oldest first. -/
def queuedIn (history : List (QueueEvent Node)) : List Node :=
  (pushedIn history).drop (popsIn history)

def queueGuard (sys : QueueSystem Node) : QueueCall Node → Prop
  | .push item => item ∉ queuedIn sys.history
  | .pop | .front => True

variable [DecidableEq Node]

namespace QueueSystem

def push (sys : QueueSystem Node) (item : Node) : Except QueueStop (QueueSystem Node) := do
  let (links, queue) ← queuePush sys.links sys.queue item
  return { links := links, queue := queue, history := sys.history ++ [.pushed item] }

def pop (sys : QueueSystem Node) : Except QueueStop (QueueSystem Node) := do
  let (links, queue) ← queuePop sys.links sys.queue
  return { links := links, queue := queue, history := sys.history ++ [.popped] }

def front (sys : QueueSystem Node) : Except QueueStop (QueueSystem Node) := do
  let node ← queueFront sys.queue
  return { sys with history := sys.history ++ [.front node] }

end QueueSystem

/-- The nodes from `begin` on along the `next` links, until `begin` comes again. -/
def Queue.nodes (queue : Queue Node) (links : Links Node) : List Node :=
  match queue.begin with
  | none => []
  | some first => first :: links.walk first queue.sz (links.next first)

def queueStep (sys : QueueSystem Node) : QueueCall Node → Except QueueStop (QueueSystem Node)
  | .push item => sys.push item
  | .pop => sys.pop
  | .front => sys.front

/-- After `queue_init`, with the links of the nodes as they happen to be. -/
def QueueSystem.initial (links : Links Node) : QueueSystem Node :=
  { links := links, queue := queueInit, history := [] }

end Model

section Invariant

variable {Node : Type} {history : List (QueueEvent Node)} {node : Node} {nodes : List Node}

theorem pushedIn_concat (history : List (QueueEvent Node)) (event : QueueEvent Node) :
    pushedIn (history ++ [event]) = pushedIn history ++ event.item.toList := by
  unfold pushedIn
  rw [List.filterMap_append]
  cases event with
  | pushed item => rfl
  | popped | front node => rfl

theorem popsIn_concat (history : List (QueueEvent Node)) (event : QueueEvent Node) :
    popsIn (history ++ [event]) = popsIn history + event.pops.toNat := by
  unfold popsIn
  rw [List.countP_append]
  cases event with
  | popped => rfl
  | pushed item | front node => rfl

theorem queuedIn_pushed (behind : popsIn history ≤ (pushedIn history).length) (node : Node) :
    queuedIn (history ++ [.pushed node]) = queuedIn history ++ [node] := by
  unfold queuedIn
  rw [pushedIn_concat, popsIn_concat]
  exact List.drop_append_of_le_length behind

theorem queuedIn_popped (queued : queuedIn history = node :: nodes) :
    queuedIn (history ++ [.popped]) = nodes := by
  have taken : (queuedIn history).drop 1 = nodes := by
    rw [queued]
    rfl
  unfold queuedIn at taken ⊢
  rw [List.drop_drop] at taken
  rw [pushedIn_concat, popsIn_concat]
  change (pushedIn history ++ []).drop (popsIn history + 1) = nodes
  rw [List.append_nil]
  exact taken

theorem queuedIn_front (history : List (QueueEvent Node)) (node : Node) :
    queuedIn (history ++ [.front node]) = queuedIn history := by
  unfold queuedIn
  rw [pushedIn_concat, popsIn_concat]
  change (pushedIn history ++ []).drop (popsIn history + 0) = _
  rw [List.append_nil, Nat.add_zero]

theorem pops_lt_of_queued (queued : queuedIn history = node :: nodes) :
    popsIn history < (pushedIn history).length := by
  by_contra none
  unfold queuedIn at queued
  rw [List.drop_eq_nil_of_le (Nat.not_lt.mp none)] at queued
  cases queued

/-- What is recorded, by the nodes that were on the queue before it. -/
def QueueEvent.Fits (before : List (QueueEvent Node)) : QueueEvent Node → Prop
  | .pushed item => item ∉ queuedIn before
  | .popped => queuedIn before ≠ []
  | .front node => (queuedIn before).head? = some node

namespace QueueSystem

/-- The queue holds the nodes that are pushed and not popped. -/
structure Sound (sys : QueueSystem Node) : Prop where
  behind : popsIn sys.history ≤ (pushedIn sys.history).length
  holds : sys.queue.Holds sys.links (queuedIn sys.history)
  fits : History.Each QueueEvent.Fits sys.history

variable {sys : QueueSystem Node}

theorem initial_sound (links : Links Node) : (initial links).Sound := by
  constructor
  · exact Nat.le_refl 0
  · exact queueInit_holds links
  · exact History.Each.nil

namespace Sound

theorem front (sound : sys.Sound) (queued : queuedIn sys.history = node :: nodes) :
    ∃ after, sys.front = .ok after ∧ after.Sound ∧
      after.history = sys.history ++ [.front node] := by
  have full := sound.holds
  rw [queued] at full
  refine ⟨{ sys with history := sys.history ++ [.front node] }, ?_, ⟨?_, ?_, ?_⟩, rfl⟩
  · unfold QueueSystem.front
    rw [full.front]
    rfl
  · rw [pushedIn_concat, popsIn_concat, List.length_append]
    exact sound.behind
  · rw [queuedIn_front]
    exact sound.holds
  · apply sound.fits.concat
    change (queuedIn sys.history).head? = some node
    rw [queued]
    rfl

variable [DecidableEq Node]

theorem push (sound : sys.Sound) (fresh : node ∉ queuedIn sys.history) :
    ∃ after, sys.push node = .ok after ∧ after.Sound ∧
      after.history = sys.history ++ [.pushed node] := by
  obtain ⟨links, queue, pushed, holds, _⟩ := sound.holds.push fresh
  refine ⟨⟨links, queue, sys.history ++ [.pushed node]⟩, ?_, ⟨?_, ?_, ?_⟩, rfl⟩
  · unfold QueueSystem.push
    rw [pushed]
    rfl
  · rw [pushedIn_concat, popsIn_concat, List.length_append]
    exact Nat.le_add_right_of_le sound.behind
  · rw [queuedIn_pushed sound.behind]
    exact holds
  · exact sound.fits.concat fresh

theorem pop (sound : sys.Sound) (queued : queuedIn sys.history = node :: nodes) :
    ∃ after, sys.pop = .ok after ∧ after.Sound ∧
      after.history = sys.history ++ [.popped] := by
  have full := sound.holds
  rw [queued] at full
  obtain ⟨links, queue, popped, holds, _⟩ := full.pop
  refine ⟨⟨links, queue, sys.history ++ [.popped]⟩, ?_, ⟨?_, ?_, ?_⟩, rfl⟩
  · unfold QueueSystem.pop
    rw [popped]
    rfl
  · rw [pushedIn_concat, popsIn_concat, List.length_append]
    exact pops_lt_of_queued queued
  · rw [queuedIn_popped queued]
    exact holds
  · apply sound.fits.concat
    change queuedIn sys.history ≠ []
    rw [queued]
    exact List.cons_ne_nil node nodes

/-- With nothing on the queue there is nothing to take or to look at. -/
theorem panics (sound : sys.Sound) (queued : queuedIn sys.history = []) :
    sys.pop = .error .panic ∧ sys.front = .error .panic := by
  have empty := sound.holds
  rw [queued] at empty
  constructor
  · unfold QueueSystem.pop queuePop
    rw [empty.size, if_pos List.length_nil]
    rfl
  · unfold QueueSystem.front
    rw [empty.front_nil]
    rfl

theorem step (sound : sys.Sound) {call : QueueCall Node} (allowed : queueGuard sys call) :
    (∃ after, queueStep sys call = .ok after ∧ after.Sound) ∨
      queueStep sys call = .error .panic ∧ queuedIn sys.history = [] ∧
        (call = .pop ∨ call = .front) := by
  cases call with
  | push node =>
      obtain ⟨after, stepped, kept, _⟩ := sound.push allowed
      exact Or.inl ⟨after, stepped, kept⟩
  | pop =>
      cases queued : queuedIn sys.history with
      | nil => exact Or.inr ⟨(sound.panics queued).1, rfl, Or.inl rfl⟩
      | cons node nodes =>
          obtain ⟨after, stepped, kept, _⟩ := sound.pop queued
          exact Or.inl ⟨after, stepped, kept⟩
  | front =>
      cases queued : queuedIn sys.history with
      | nil => exact Or.inr ⟨(sound.panics queued).2, rfl, Or.inr rfl⟩
      | cons node nodes =>
          obtain ⟨after, stepped, kept, _⟩ := sound.front queued
          exact Or.inl ⟨after, stepped, kept⟩

theorem of_run {links : Links Node} {calls : List (QueueCall Node)}
    (run : Run queueStep queueGuard (initial links) calls sys) : sys.Sound := by
  apply run.invariant (initial_sound links)
  intro state call after sound allowed taken
  rcases sound.step allowed with ⟨next, stepped, kept⟩ | ⟨panicked, _⟩
  · rw [stepped] at taken
    cases taken
    exact kept
  · rw [panicked] at taken
    cases taken

end Sound

end QueueSystem

theorem Queue.Holds.nodes_eq [DecidableEq Node] {links : Links Node} {queue : Queue Node}
    (holds : queue.Holds links nodes) : queue.nodes links = nodes := by
  unfold Queue.nodes
  rw [holds.oldest]
  cases nodes with
  | nil => rfl
  | cons first rest =>
      have enough : rest.length < queue.sz := by
        rw [holds.size, List.length_cons]
        exact Nat.lt_succ_self _
      rw [List.head?_cons]
      exact congrArg (first :: ·) ((holds.ring first rest rfl).walk_eq enough)

namespace QueueSystem

variable [DecidableEq Node] {sys : QueueSystem Node}

/-- What holds between the calls: of the size, of `queue_front`, of the links from `begin` to `end`
and back, of what the next call does, of a node that is popped, and of all calls so far. -/
structure Contract (sys : QueueSystem Node) : Prop where
  counted : sys.queue.sz + popsIn sys.history = (pushedIn sys.history).length
  size : sys.queue.sz = (queuedIn sys.history).length
  front : ∀ node, queueFront sys.queue = .ok node ↔ (queuedIn sys.history).head? = some node
  once : (queuedIn sys.history).Nodup
  visited : sys.queue.nodes sys.links = queuedIn sys.history
  closed : ∀ first last, sys.queue.begin = some first → sys.queue.endNode = some last →
    (queuedIn sys.history).head? = some first ∧ (queuedIn sys.history).getLast? = some last ∧
      sys.links.next last = some first ∧ sys.links.prev first = some last
  succeeds : ∀ call, queueGuard sys call →
    (∃ after, queueStep sys call = .ok after) ∨ queueStep sys call = .error .panic
  panics : ∀ call, queueGuard sys call → (queueStep sys call = .error .panic ↔
    queuedIn sys.history = [] ∧ (call = .pop ∨ call = .front))
  again : ∀ node rest, queuedIn sys.history = node :: rest →
    ∃ popped pushed, queueStep sys .pop = .ok popped ∧ queueGuard popped (.push node) ∧
      queueStep popped (.push node) = .ok pushed ∧ queuedIn pushed.history = rest ++ [node]
  fits : History.Each QueueEvent.Fits sys.history

theorem Sound.contract (sound : sys.Sound) : sys.Contract := by
  have size := sound.holds.size
  constructor
  case counted =>
      rw [size]
      unfold queuedIn
      rw [List.length_drop, Nat.sub_add_cancel sound.behind]
  case size => exact size
  case front =>
      intro node
      unfold queueFront
      rw [sound.holds.oldest]
      cases (queuedIn sys.history).head? with
      | none =>
          constructor
          · intro same
            cases same
          · intro same
            cases same
      | some oldest =>
          constructor
          · intro same
            exact congrArg some (Except.ok.inj same)
          · intro same
            exact congrArg Except.ok (Option.some.inj same)
  case once => exact sound.holds.nodup
  case visited => exact sound.holds.nodes_eq
  case closed =>
      intro first last begins ends
      rw [sound.holds.oldest] at begins
      rw [sound.holds.youngest] at ends
      refine ⟨begins, ends, ?_⟩
      cases queued : queuedIn sys.history with
      | nil =>
          rw [queued] at begins
          cases begins
      | cons oldest rest =>
          rw [queued] at begins ends
          cases begins
          have path := (sound.holds.ring first rest queued).path
          rw [← List.append_nil rest] at path
          rw [List.getLast?_cons, Option.some_inj] at ends
          rw [← ends]
          exact path.suffix
  case succeeds =>
      intro call allowed
      rcases sound.step allowed with ⟨after, stepped, _⟩ | ⟨panicked, _⟩
      · exact Or.inl ⟨after, stepped⟩
      · exact Or.inr panicked
  case panics =>
      intro call allowed
      constructor
      · intro panicked
        rcases sound.step allowed with ⟨after, stepped, _⟩ | ⟨_, empty, which⟩
        · rw [stepped] at panicked
          cases panicked
        · exact ⟨empty, which⟩
      · rintro ⟨empty, rfl | rfl⟩
        · exact (sound.panics empty).1
        · exact (sound.panics empty).2
  case again =>
      intro node rest queued
      obtain ⟨popped, stepped, kept, recorded⟩ := sound.pop queued
      have left : queuedIn popped.history = rest := by
        rw [recorded, queuedIn_popped queued]
      have fresh : node ∉ queuedIn popped.history := by
        have distinct := sound.holds.nodup
        rw [queued, List.nodup_cons] at distinct
        rw [left]
        exact distinct.1
      obtain ⟨pushed, taken, _, noted⟩ := kept.push fresh
      refine ⟨popped, pushed, stepped, fresh, taken, ?_⟩
      rw [noted, queuedIn_pushed kept.behind, left]
  case fits => exact sound.fits

end QueueSystem

/-- Over every sequence of calls the queue is first in, first out. -/
theorem queue_fifo_of_run [DecidableEq Node] {links : Links Node} {calls : List (QueueCall Node)}
    {sys : QueueSystem Node}
    (run : Run queueStep queueGuard (QueueSystem.initial links) calls sys) : sys.Contract :=
  (QueueSystem.Sound.of_run run).contract

/-- `queueGuard` as a check. -/
def queueAllowed [DecidableEq Node] (sys : QueueSystem Node) : QueueCall Node → Bool
  | .push item => item ∉ queuedIn sys.history
  | .pop | .front => true

/-- The first of two nodes is popped and pushed again behind the second. -/
theorem queue_fifo_of_run_again :
    ∃ sys : QueueSystem Nat, Run queueStep queueGuard
      (QueueSystem.initial { prev := fun _ => none, next := fun _ => none })
        [.push 1, .push 2, .front, .pop, .push 1, .pop, .pop, .push 2, .front] sys ∧
      sys.Contract ∧ queuedIn sys.history = [2] ∧
      sys.history = [.pushed 1, .pushed 2, .front 1, .popped, .pushed 1, .popped, .popped,
        .pushed 2, .front 2] := by
  have passed : checkRun queueStep queueAllowed
      (fun sys => queuedIn sys.history = [2] ∧ sys.history = [.pushed 1, .pushed 2, .front 1,
        .popped, .pushed 1, .popped, .popped, .pushed 2, .front 2])
      (QueueSystem.initial { prev := fun _ => none, next := fun _ => none })
      [.push 1, .push 2, .front, .pop, .push 1, .pop, .pop, .push 2, .front] = true := by
    decide
  obtain ⟨sys, run, checked⟩ := Run.of_checkRun (fun state call allowed =>
    show queueGuard state call by
    cases call with
    | push item =>
        simp only [queueAllowed, decide_eq_true_eq] at allowed
        exact allowed
    | pop | front => trivial) passed
  exact ⟨sys, run, queue_fifo_of_run run, of_decide_eq_true checked⟩

end Invariant

end LabKernel.Common
