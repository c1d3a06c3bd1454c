/-
The lock-free list of `list.c`.

Any number of CPUs push nodes they own and fetch nodes. A call is split at its accesses to
memory: the loads of the head, the loads and stores of the link of a node, and the
compare-exchange, which may also fail for no reason.
-/

import LabKernel.Lib.Chain
import LabKernel.Lib.Transition

set_option autoImplicit false

namespace LabKernel.Common

open Transition

/-- Where a CPU is. A push stores the head it has loaded into its node, loads that link again
as the expected value, and a failed exchange stores the head it saw into the node. A fetch
keeps the head it has loaded and the link of that node. -/
inductive ListPc (Node : Type) where
  | idle
  | pushLoad (node : Node)
  | pushStore (node : Node) (head : Option Node)
  | pushExpect (node : Node)
  | pushExchange (node : Node) (expected : Option Node)
  | pushFailed (node : Node) (head : Option Node)
  | fetchLoad
  | fetchNext (node : Node)
  | fetchExchange (node : Node) (next : Option Node)
  deriving DecidableEq, Repr

structure ListState (Cpu Node : Type) where
  head : Option Node
  next : Node → Option Node
  owns : Cpu → Node → Bool
  pc : Cpu → ListPc Node

/-- A CPU begins a call or makes its next access. -/
inductive ListAction (Cpu Node : Type) where
  | push (cpu : Cpu) (node : Node)
  | fetch (cpu : Cpu)
  | access (cpu : Cpu) (spurious : Bool)
  deriving DecidableEq

variable {Cpu Node : Type} [DecidableEq Cpu] [DecidableEq Node]

namespace ListState

variable (list : ListState Cpu Node)

def goto (cpu : Cpu) (pc : ListPc Node) : ListState Cpu Node :=
  { list with pc := Function.update list.pc cpu pc }

def setNext (node : Node) (target : Option Node) : ListState Cpu Node :=
  { list with next := Function.update list.next node target }

def setHead (head : Option Node) : ListState Cpu Node := { list with head := head }

def setOwns (cpu : Cpu) (node : Node) (mine : Bool) : ListState Cpu Node :=
  { list with owns := Function.update list.owns cpu (Function.update (list.owns cpu) node mine) }

def access (cpu : Cpu) (spurious : Bool) : Option (ListState Cpu Node) :=
  match list.pc cpu with
  | .idle => none
  | .pushLoad node => some (list.goto cpu (.pushStore node list.head))
  | .pushStore node head => some ((list.setNext node head).goto cpu (.pushExpect node))
  | .pushExpect node => some (list.goto cpu (.pushExchange node (list.next node)))
  | .pushExchange node expected =>
      if list.head = expected ∧ spurious = false then
        some (((list.setHead (some node)).setOwns cpu node false).goto cpu .idle)
      else some (list.goto cpu (.pushFailed node list.head))
  | .pushFailed node head => some ((list.setNext node head).goto cpu (.pushLoad node))
  | .fetchLoad =>
      match list.head with
      | none => some (list.goto cpu .idle)
      | some node => some (list.goto cpu (.fetchNext node))
  | .fetchNext node => some (list.goto cpu (.fetchExchange node (list.next node)))
  | .fetchExchange node next =>
      if list.head = some node ∧ spurious = false then
        some (((list.setHead next).setOwns cpu node true).goto cpu .idle)
      else some (list.goto cpu .fetchLoad)

end ListState

def listStep (list : ListState Cpu Node) :
    ListAction Cpu Node → Except Unit (ListState Cpu Node)
  | .push cpu node =>
      if list.pc cpu = .idle ∧ list.owns cpu node = true then .ok (list.goto cpu (.pushLoad node))
      else .error ()
  | .fetch cpu => if list.pc cpu = .idle then .ok (list.goto cpu .fetchLoad) else .error ()
  | .access cpu spurious =>
      match list.access cpu spurious with
      | none => .error ()
      | some after => .ok after

/-! ### The partition of the nodes -/

def ListState.Partitioned (list : ListState Cpu Node) : Prop :=
  ∃ nodes, Chain list.next list.head nodes ∧ nodes.Nodup ∧
    ∀ node, (node ∈ nodes ∧ ∀ cpu, list.owns cpu node = false) ∨
      (node ∉ nodes ∧ ∃! cpu, list.owns cpu node = true)

/-- The node that a fetch is about to take off the list is still linked to what the fetch has
read: it has not left the list and come back with another successor. -/
def ListState.LinkUnchanged (list : ListState Cpu Node) : ListAction Cpu Node → Prop
  | .access cpu false =>
      ∀ node next, list.pc cpu = .fetchExchange node next → list.head = some node →
        list.next node = next
  | _ => True

def ListPc.pushed : ListPc Node → Option Node
  | .pushLoad node | .pushStore node _ | .pushExpect node | .pushExchange node _
  | .pushFailed node _ => some node
  | _ => none

namespace ListState

variable {list after : ListState Cpu Node} {cpu : Cpu} {node : Node} {pc : ListPc Node}

/-- The partition, and what the CPUs in a push rely on: the node is theirs, and an expected
value is what the node is linked to. -/
structure Sound (list : ListState Cpu Node) : Prop where
  partitioned : list.Partitioned
  pushing : ∀ cpu node, (list.pc cpu).pushed = some node → list.owns cpu node = true
  expected : ∀ cpu node head, list.pc cpu = .pushExchange node head → list.next node = head

omit [DecidableEq Cpu] [DecidableEq Node] in
theorem Partitioned.owner_unique (partitioned : list.Partitioned) {other : Cpu}
    (mine : list.owns cpu node = true) (its : list.owns other node = true) : other = cpu := by
  obtain ⟨nodes, -, -, parts⟩ := partitioned
  rcases parts node with ⟨-, nobody⟩ | ⟨-, unique⟩
  · rw [nobody cpu] at mine
    cases mine
  · exact unique.unique its mine

omit [DecidableEq Node] in
theorem Sound.goto (sound : list.Sound)
    (pushing : ∀ node, pc.pushed = some node → list.owns cpu node = true)
    (expected : ∀ node head, pc = .pushExchange node head → list.next node = head) :
    (list.goto cpu pc).Sound := by
  constructor
  · exact sound.partitioned
  · intro other node pushed
    change (Function.update list.pc cpu pc other).pushed = _ at pushed
    by_cases same : other = cpu
    · rw [same, Function.update_self] at pushed
      rw [same]
      exact pushing node pushed
    · rw [Function.update_of_ne same] at pushed
      exact sound.pushing other node pushed
  · intro other node head exchange
    change Function.update list.pc cpu pc other = _ at exchange
    by_cases same : other = cpu
    · rw [same, Function.update_self] at exchange
      exact expected node head exchange
    · rw [Function.update_of_ne same] at exchange
      exact sound.expected other node head exchange

theorem Sound.store (sound : list.Sound) (mine : list.owns cpu node = true)
    (head : Option Node) (pushed : pc.pushed = some node)
    (elsewhere : ∀ node head, pc ≠ .pushExchange node head) :
    ((list.setNext node head).goto cpu pc).Sound := by
  constructor
  · obtain ⟨nodes, chain, distinct, parts⟩ := sound.partitioned
    refine ⟨nodes, ?_, distinct, parts⟩
    apply chain.frame
    intro other member
    apply Function.update_of_ne
    intro same
    rw [same] at member
    rcases parts node with ⟨-, nobody⟩ | ⟨outside, -⟩
    · rw [nobody cpu] at mine
      cases mine
    · exact outside member
  · intro other target about
    change (Function.update list.pc cpu pc other).pushed = _ at about
    by_cases same : other = cpu
    · rw [same, Function.update_self, pushed] at about
      rw [same, ← Option.some.inj about]
      exact mine
    · rw [Function.update_of_ne same] at about
      exact sound.pushing other target about
  · intro other target value exchange
    change Function.update list.pc cpu pc other = _ at exchange
    change Function.update list.next node head target = _
    by_cases same : other = cpu
    · rw [same, Function.update_self] at exchange
      exact absurd exchange (elsewhere target value)
    · rw [Function.update_of_ne same] at exchange
      have its := sound.pushing other target (by rw [exchange]; rfl)
      have different : target ≠ node := by
        intro equal
        rw [equal] at its
        exact same (sound.partitioned.owner_unique mine its)
      rw [Function.update_of_ne different]
      exact sound.expected other target value exchange

theorem setOwns_eq (list : ListState Cpu Node) (cpu other : Cpu) (node target : Node)
    (mine : Bool) :
    (list.setOwns cpu node mine).owns other target =
      if other = cpu ∧ target = node then mine else list.owns other target := by
  change Function.update list.owns cpu (Function.update (list.owns cpu) node mine) other target = _
  by_cases here : other = cpu
  · rw [here, Function.update_self]
    by_cases same : target = node
    · simp [same]
    · simp [same]
  · simp [here]

theorem Sound.pushed (sound : list.Sound) (mine : list.owns cpu node = true)
    (linked : list.next node = list.head) :
    (((list.setHead (some node)).setOwns cpu node false).goto cpu .idle).Sound := by
  have owns : ∀ other target,
      (((list.setHead (some node)).setOwns cpu node false).goto cpu .idle).owns other target =
        if other = cpu ∧ target = node then false else list.owns other target :=
    fun other target => setOwns_eq (list.setHead (some node)) cpu other node target false
  constructor
  · obtain ⟨nodes, chain, distinct, parts⟩ := sound.partitioned
    have outside : node ∉ nodes := by
      rcases parts node with ⟨-, nobody⟩ | ⟨outside, -⟩
      · rw [nobody cpu] at mine
        cases mine
      · exact outside
    refine ⟨node :: nodes, ⟨rfl, ?_⟩, List.nodup_cons.mpr ⟨outside, distinct⟩, ?_⟩
    · change Chain list.next (list.next node) nodes
      rw [linked]
      exact chain
    · intro target
      simp only [owns]
      by_cases same : target = node
      · left
        rw [same]
        constructor
        · exact List.mem_cons_self
        · intro other
          by_cases here : other = cpu
          · simp [here]
          · rw [if_neg (by simp [here])]
            by_contra its
            exact here (sound.partitioned.owner_unique mine (Bool.of_not_eq_false its))
      · simp only [List.mem_cons, same, and_false, if_false, false_or]
        exact parts target
  · intro other target about
    change (Function.update list.pc cpu .idle other).pushed = _ at about
    by_cases same : other = cpu
    · rw [same, Function.update_self] at about
      cases about
    · rw [Function.update_of_ne same] at about
      rw [owns, if_neg (by simp [same])]
      exact sound.pushing other target about
  · intro other target value exchange
    change Function.update list.pc cpu .idle other = _ at exchange
    by_cases same : other = cpu
    · rw [same, Function.update_self] at exchange
      cases exchange
    · rw [Function.update_of_ne same] at exchange
      exact sound.expected other target value exchange

theorem Sound.fetched (sound : list.Sound) (first : list.head = some node) :
    (((list.setHead (list.next node)).setOwns cpu node true).goto cpu .idle).Sound := by
  have owns : ∀ other target,
      (((list.setHead (list.next node)).setOwns cpu node true).goto cpu .idle).owns other target =
        if other = cpu ∧ target = node then true else list.owns other target :=
    fun other target => setOwns_eq (list.setHead (list.next node)) cpu other node target true
  constructor
  · obtain ⟨nodes, chain, distinct, parts⟩ := sound.partitioned
    rw [first] at chain
    obtain ⟨rest, whole, chain⟩ := chain.tail
    rw [whole, List.nodup_cons] at distinct
    refine ⟨rest, chain, distinct.2, ?_⟩
    intro target
    simp only [owns]
    by_cases same : target = node
    · right
      rw [same]
      refine ⟨distinct.1, cpu, by simp, ?_⟩
      intro other its
      by_contra elsewhere
      rw [if_neg (by simp [elsewhere])] at its
      rcases parts node with ⟨-, nobody⟩ | ⟨outside, -⟩
      · rw [nobody other] at its
        cases its
      · rw [whole] at outside
        exact outside List.mem_cons_self
    · have before := parts target
      rw [whole, List.mem_cons] at before
      simp only [same, false_or] at before
      simp only [same, and_false, if_false]
      exact before
  · intro other target about
    change (Function.update list.pc cpu .idle other).pushed = _ at about
    by_cases same : other = cpu
    · rw [same, Function.update_self] at about
      cases about
    · rw [Function.update_of_ne same] at about
      rw [owns, if_neg (by simp [same])]
      exact sound.pushing other target about
  · intro other target value exchange
    change Function.update list.pc cpu .idle other = _ at exchange
    by_cases same : other = cpu
    · rw [same, Function.update_self] at exchange
      cases exchange
    · rw [Function.update_of_ne same] at exchange
      exact sound.expected other target value exchange

theorem Sound.access (sound : list.Sound) {spurious : Bool}
    (unchanged : list.LinkUnchanged (.access cpu spurious))
    (taken : list.access cpu spurious = some after) : after.Sound := by
  have same : ∀ {node}, (list.pc cpu).pushed = some node → list.owns cpu node = true :=
    fun {node} => sound.pushing cpu node
  unfold ListState.access at taken
  split at taken
  · cases taken
  · rename_i node at_
    cases taken
    apply sound.goto
    · intro target about
      cases about
      exact same (by rw [at_]; rfl)
    · intro target head exchange
      cases exchange
  · rename_i node head at_
    cases taken
    apply sound.store
    · exact same (by rw [at_]; rfl)
    · rfl
    · intro target value exchange
      cases exchange
  · rename_i node at_
    cases taken
    apply sound.goto
    · intro target about
      cases about
      exact same (by rw [at_]; rfl)
    · intro target head exchange
      cases exchange
      rfl
  · rename_i node expected at_
    have mine : list.owns cpu node = true := same (by rw [at_]; rfl)
    split at taken
    · rename_i equal
      cases taken
      apply sound.pushed mine
      rw [sound.expected cpu node expected at_, equal.1]
    · cases taken
      apply sound.goto
      · intro target about
        cases about
        exact mine
      · intro target head exchange
        cases exchange
  · rename_i node head at_
    cases taken
    apply sound.store
    · exact same (by rw [at_]; rfl)
    · rfl
    · intro target value exchange
      cases exchange
  · split at taken
    · cases taken
      apply sound.goto
      · intro target about
        cases about
      · intro target head exchange
        cases exchange
    · cases taken
      apply sound.goto
      · intro target about
        cases about
      · intro target head exchange
        cases exchange
  · cases taken
    apply sound.goto
    · intro target about
      cases about
    · intro target head exchange
      cases exchange
  · rename_i node next at_
    split at taken
    · rename_i equal
      cases taken
      rw [equal.2] at unchanged
      rw [← unchanged node next at_ equal.1]
      exact sound.fetched equal.1
    · cases taken
      apply sound.goto
      · intro target about
        cases about
      · intro target head exchange
        cases exchange

theorem Sound.step (sound : list.Sound) {action : ListAction Cpu Node}
    (unchanged : list.LinkUnchanged action) (taken : listStep list action = .ok after) :
    after.Sound := by
  cases action with
  | push cpu node =>
      simp only [listStep] at taken
      split at taken
      · rename_i free
        cases taken
        apply sound.goto
        · intro target about
          cases about
          exact free.2
        · intro target head exchange
          cases exchange
      · cases taken
  | fetch cpu =>
      simp only [listStep] at taken
      split at taken
      · cases taken
        apply sound.goto
        · intro target about
          cases about
        · intro target head exchange
          cases exchange
      · cases taken
  | access cpu spurious =>
      simp only [listStep] at taken
      split at taken
      · cases taken
      · rename_i went
        cases taken
        exact sound.access unchanged went

end ListState

theorem nodes_stay_partitioned {list origin : ListState Cpu Node}
    {actions : List (ListAction Cpu Node)} (idle : ∀ cpu, origin.pc cpu = .idle)
    (partitioned : origin.Partitioned)
    (run : Run listStep ListState.LinkUnchanged origin actions list) : list.Partitioned := by
  have initially : origin.Sound := by
    constructor
    · exact partitioned
    · intro cpu node about
      rw [idle cpu] at about
      cases about
    · intro cpu node head exchange
      rw [idle cpu] at exchange
      cases exchange
  have sound : list.Sound := by
    apply run.invariant initially
    intro before action after sound unchanged taken
    exact sound.step unchanged taken
  exact sound.partitioned

/-- The list 0, 1, 2, with two CPUs that own nothing. -/
def ListState.three : ListState Bool (Fin 3) :=
  { head := some 0
    next := fun node => if node = 0 then some 1 else if node = 1 then some 2 else none
    owns := fun _ _ => false
    pc := fun _ => .idle }

theorem ListState.three_partitioned : ListState.three.Partitioned := by
  refine ⟨[0, 1, 2], ⟨rfl, rfl, rfl, rfl⟩, by decide, ?_⟩
  intro node
  left
  exact ⟨by revert node; decide, fun _ => rfl⟩

/-- One CPU takes the first node while the other is in a fetch, which then starts over. -/
theorem nodes_stay_partitioned_raced :
    ∃ actions list, Run listStep ListState.LinkUnchanged ListState.three actions list ∧
      list.owns true 0 = true ∧ list.owns false 1 = true ∧ list.head = some 2 ∧
      list.Partitioned := by
  have run : Run listStep ListState.LinkUnchanged ListState.three
      [.fetch false, .access false true, .access false true, .fetch true, .access true true,
        .access true true, .access true false, .access false true, .access false true,
        .access false true, .access false false] _ :=
    Run.of_exec rfl
      ⟨trivial, trivial, trivial, trivial, trivial, trivial, fun _ _ at_ _ => by cases at_; rfl,
        trivial, trivial, trivial, fun _ _ at_ _ => by cases at_; rfl, trivial⟩
  exact ⟨_, _, run, rfl, rfl, rfl, nodes_stay_partitioned (fun _ => rfl)
    ListState.three_partitioned run⟩

/-- The first node leaves the list and comes back without its successor, which a fetch then
puts back onto the list although a CPU owns it. -/
theorem owned_node_on_list :
    ∃ list, Reachable listStep ListState.three list ∧ list.head = some 1 ∧
      list.owns true 1 = true ∧ ¬list.Partitioned := by
  have reached : Reachable listStep ListState.three _ :=
    ⟨[.fetch false, .access false true, .access false true,
      .fetch true, .access true true, .access true true, .access true false,
      .fetch true, .access true true, .access true true, .access true false,
      .push true 0, .access true true, .access true true, .access true true, .access true false,
      .access false false], Run.of_exec rfl (Guarded.trivial _ _)⟩
  refine ⟨_, reached, rfl, rfl, ?_⟩
  rintro ⟨nodes, chain, -, parts⟩
  obtain ⟨rest, whole, -⟩ := Chain.tail chain
  rcases parts 1 with ⟨-, nobody⟩ | ⟨outside, -⟩
  · exact absurd (nobody true) (by decide)
  · rw [whole] at outside
    exact outside List.mem_cons_self

end LabKernel.Common
