/-
Singly linked lists.

A chain is a list of nodes, each linked to the next one and the last one to nothing. Nothing
here names a program.
-/

import Mathlib.Data.List.Basic
import Mathlib.Logic.Function.Basic

set_option autoImplicit false

namespace LabKernel

variable {Node : Type}

/-- The links lead from the head through the nodes to the end. -/
def Chain (next : Node → Option Node) : Option Node → List Node → Prop
  | head, [] => head = none
  | head, node :: rest => head = some node ∧ Chain next (next node) rest

variable {next after : Node → Option Node} {head : Option Node} {nodes : List Node}

theorem Chain.frame (chain : Chain next head nodes)
    (same : ∀ node ∈ nodes, after node = next node) : Chain after head nodes := by
  induction nodes generalizing head with
  | nil => exact chain
  | cons node rest ih =>
      constructor
      · exact chain.1
      · rw [same node List.mem_cons_self]
        exact ih chain.2 (fun other member => same other (List.mem_cons_of_mem node member))

theorem Chain.of_none (chain : Chain next none nodes) : nodes = [] := by
  cases nodes with
  | nil => rfl
  | cons node rest => cases chain.1

theorem Chain.tail {node : Node} (chain : Chain next (some node) nodes) :
    ∃ rest, nodes = node :: rest ∧ Chain next (next node) rest := by
  cases nodes with
  | nil => cases chain
  | cons first rest =>
      have same := Option.some.inj chain.1
      rw [same]
      exact ⟨rest, rfl, chain.2⟩

end LabKernel
