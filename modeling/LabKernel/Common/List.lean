/-
The circular lists of `list.c`.

A list is entered at any of its nodes. Merging joins two lists behind the one node and in front
of the other, detaching takes a node out of its list, and a loop over a list goes round until it
comes to the node it was given.
-/

import LabKernel.Common.Queue

set_option autoImplicit false

namespace LabKernel.Common

open Rings

section Code

variable {Node : Type} [DecidableEq Node] (links : Links Node)

/-- `_merge_list`, with what it returns. -/
def mergeListReturning (node1 node2 : Option Node) : Option (Option Node × Links Node) :=
  (mergeList links node1 node2).map (fun after => (node1.or node2, after))

/-- `_detach_from_list`, with what it returns. -/
def detachFromList (node : Node) : Option (Option Node × Links Node) := do
  let prev ← links.prev node
  let after ← links.detach node
  return (if prev = node then none else some prev, after)

/-- The nodes that `_for_in_list` visits from one on. There is no result when the loop takes more
than the given number of rounds. -/
def forInList (flag : Node) : Nat → Option Node → Option (List Node)
  | _, none => some []
  | 0, some _ => none
  | rounds + 1, some valptr =>
      (forInList flag rounds (if valptr = flag then none else links.next valptr)).map (valptr :: ·)

/-- What `exit` does to the lists: the head of the children is detached, and what is left of the
list is visited and merged behind another head. The visited nodes are returned. -/
def transfer (children other : Node) (rounds : Nat) : Option (List Node × Links Node) := do
  let (cl, detached) ← detachFromList links children
  match cl with
  | none => return ([], detached)
  | some cl =>
      let visited ← forInList detached cl rounds (detached.next cl)
      let (_, merged) ← mergeListReturning detached (some other) (some cl)
      return (visited, merged)

end Code

/-! ### Lists as wholes -/

section

variable {Node : Type}

def Circular (links : Links Node) : Prop := ∀ node, ∃ nodes, IsRing links node nodes

/-- The links of the other nodes, and their lists, are as they were. -/
structure OthersKept (links after : Links Node) (touched : List Node) : Prop where
  untouched : ∀ node, node ∉ touched → Untouched links after node
  rings : ∀ node nodes, node ∉ touched → IsRing links node nodes → IsRing after node nodes

variable {links middle after : Links Node} {node other head last : Node}
  {nodes others touched more : List Node}

theorem ring_closed (ring : IsRing links head nodes) :
    ∀ node ∈ head :: nodes, ∃ others, IsRing links node others ∧
      ∀ other ∈ node :: others, other ∈ head :: nodes := by
  intro node member
  obtain ⟨others, here, perm⟩ := ring.of_mem member
  exact ⟨others, here, fun other inside => perm.mem_iff.mp inside⟩

theorem OthersKept.trans (first : OthersKept links middle touched)
    (later : OthersKept middle after touched) : OthersKept links after touched := by
  constructor
  · intro node outside
    have before := first.untouched node outside
    have behind := later.untouched node outside
    exact ⟨behind.1.trans before.1, behind.2.trans before.2⟩
  · intro node nodes outside ring
    exact later.rings node nodes outside (first.rings node nodes outside ring)

theorem OthersKept.mono (kept : OthersKept links after more)
    (within : ∀ node ∈ more, node ∈ touched) : OthersKept links after touched := by
  constructor
  · intro node outside
    exact kept.untouched node (fun inside => outside (within node inside))
  · intro node nodes outside
    exact kept.rings node nodes (fun inside => outside (within node inside))

theorem Circular.of_kept (circular : Circular links) (kept : OthersKept links after touched)
    (again : ∀ node ∈ touched, ∃ nodes, IsRing after node nodes) : Circular after := by
  intro node
  by_cases inside : node ∈ touched
  · exact again node inside
  · obtain ⟨nodes, ring⟩ := circular node
    exact ⟨nodes, kept.rings node nodes inside ring⟩

variable [DecidableEq Node]

/-- If only nodes of whole lists are touched, the other lists are whole. -/
theorem OthersKept.of_untouched
    (closed : ∀ node ∈ touched, ∃ nodes, IsRing links node nodes ∧
      ∀ other ∈ node :: nodes, other ∈ touched)
    (untouched : ∀ node, node ∉ touched → Untouched links after node) :
    OthersKept links after touched := by
  constructor
  · exact untouched
  · intro node nodes outside ring
    apply ring.frame
    intro other member
    apply untouched
    intro inside
    obtain ⟨others, again, within⟩ := closed other inside
    obtain ⟨same, here, perm⟩ := ring.of_mem member
    rw [← here.unique again] at within
    exact outside (within node (perm.mem_iff.mpr List.mem_cons_self))

/-! ### Merging -/

theorem mergeListReturning_rings (ring : IsRing links node nodes)
    (again : IsRing links other others) (apart : other ∉ node :: nodes) :
    ∃ after, mergeListReturning links (some node) (some other) = some (some node, after) ∧
      IsRing after node (other :: others ++ nodes) ∧
      OthersKept links after (node :: nodes ++ other :: others) := by
  obtain ⟨after, merged, whole, untouched⟩ := ring.merge again apart
  refine ⟨after, ?_, whole, ?_⟩
  · simp only [mergeListReturning, mergeList, merged, Option.map_some, Option.or_some,
      Option.getD_some]
  · apply OthersKept.of_untouched
    · intro place member
      rcases List.mem_append.mp member with mine | yours
      · obtain ⟨rest, here, within⟩ := ring_closed ring place mine
        exact ⟨rest, here, fun other inside => List.mem_append_left _ (within other inside)⟩
      · obtain ⟨rest, here, within⟩ := ring_closed again place yours
        exact ⟨rest, here, fun other inside => List.mem_append_right _ (within other inside)⟩
    · intro place outside
      rw [List.mem_append, not_or] at outside
      exact untouched place outside.1 outside.2

/-! ### Detaching -/

theorem detachFromList_alone (ring : IsRing links node []) :
    ∃ after, detachFromList links node = some (none, after) ∧ IsRing after node [] ∧
      OthersKept links after [node] := by
  obtain ⟨after, detached, alone, untouched⟩ := ring.detach_alone
  refine ⟨after, ?_, alone, ?_⟩
  · unfold detachFromList
    rw [ring.path.2, detached]
    simp
  · apply OthersKept.of_untouched (ring_closed ring)
    intro place outside
    exact untouched place (fun same => outside (List.mem_singleton.mpr same))

theorem detachFromList_among (ring : IsRing links node (nodes ++ [last])) :
    ∃ after, detachFromList links node = some (some last, after) ∧ IsRing after node [] ∧
      IsRing after last nodes ∧ OthersKept links after (node :: (nodes ++ [last])) := by
  have turned : IsRing links last ([] ++ node :: nodes) := ring.turn
  obtain ⟨after, detached, whole, alone, untouched⟩ := turned.detach
  have prev := ring.path.prev_eq
  rw [List.getLast?_concat, Option.getD_some] at prev
  have different : last ≠ node := by
    intro same
    apply (List.nodup_cons.mp ring.distinct).1
    rw [same]
    exact List.mem_append_right nodes (List.mem_singleton_self node)
  refine ⟨after, ?_, alone, whole, ?_⟩
  · unfold detachFromList
    rw [prev, detached]
    simp only [Option.bind_eq_bind, Option.bind_some, if_neg different, Option.pure_def]
  · apply OthersKept.of_untouched (ring_closed ring)
    intro place outside
    rw [List.mem_cons, List.mem_append, List.mem_singleton, not_or, not_or] at outside
    apply untouched place _ outside.1
    rw [List.nil_append, List.mem_cons, not_or]
    exact ⟨outside.2.2, outside.2.1⟩

theorem detachFromList_between {before behind : List Node}
    (ring : IsRing links head (before ++ node :: behind)) :
    ∃ after, detachFromList links node = some (some (before.getLast?.getD head), after) ∧
      IsRing after head (before ++ behind) ∧ IsRing after node [] := by
  obtain ⟨after, detached, whole, alone, -⟩ := ring.detach
  have prev := ring.path.suffix.1.2
  have different : before.getLast?.getD head ≠ node := by
    intro same
    have inside : node ∈ head :: before := same ▸ mem_ring_last head before
    have distinct : (head :: before ++ node :: behind).Nodup := ring.distinct
    exact (List.nodup_append.mp distinct).2.2 node inside node List.mem_cons_self rfl
  refine ⟨after, ?_, whole, alone⟩
  unfold detachFromList
  rw [prev, detached]
  simp only [Option.bind_eq_bind, Option.bind_some, if_neg different, Option.pure_def]

/-! ### Loops -/

/-- A loop over a list visits every node of it once, the one it was given as the last one. -/
theorem forInList_ring (ring : IsRing links head nodes) {rounds : Nat}
    (enough : nodes.length < rounds) :
    forInList links head rounds (links.next head) = some (nodes ++ [head]) := by
  have outside : head ∉ nodes := (List.nodup_cons.mp ring.distinct).1
  -- The path is followed from its start, which is the head only at the beginning.
  have walked : ∀ (rest : List Node) (start : Node) (rounds : Nat), head ∉ rest →
      Path links start rest head → rest.length < rounds →
        forInList links head rounds (links.next start) = some (rest ++ [head]) := by
    intro rest
    induction rest with
    | nil =>
        intro start rounds _ path enough
        obtain ⟨rounds, rfl⟩ := Nat.exists_eq_add_one_of_ne_zero (Nat.ne_of_gt enough)
        rw [path.1]
        simp [forInList]
    | cons node rest ih =>
        intro start rounds outside path enough
        obtain ⟨rounds, rfl⟩ := Nat.exists_eq_add_one_of_ne_zero (Nat.ne_zero_of_lt enough)
        rw [List.mem_cons, not_or] at outside
        rw [List.length_cons] at enough
        rw [path.1.1]
        simp only [forInList, if_neg (Ne.symm outside.1),
          ih node rounds outside.2 path.2 (by omega), Option.map_some, List.cons_append]
  exact walked nodes head rounds outside ring.path enough

/-! ### Moving the nodes of a list to another one -/

theorem transfer_empty (ring : IsRing links head []) (again : IsRing links other others)
    (apart : other ≠ head) (rounds : Nat) :
    ∃ after, transfer links head other rounds = some ([], after) ∧ IsRing after head [] ∧
      IsRing after other others ∧ OthersKept links after (head :: other :: others) := by
  obtain ⟨after, detached, alone, kept⟩ := detachFromList_alone ring
  refine ⟨after, ?_, alone, ?_, kept.mono ?_⟩
  · unfold transfer
    rw [detached]
    rfl
  · apply kept.rings other others _ again
    rw [List.mem_singleton]
    exact apart
  · intro node member
    rw [List.mem_singleton.mp member]
    exact List.mem_cons_self

theorem transfer_among (ring : IsRing links head (nodes ++ [last]))
    (again : IsRing links other others) (apart : other ∉ head :: (nodes ++ [last])) {rounds : Nat}
    (enough : nodes.length < rounds) :
    ∃ after, transfer links head other rounds = some (nodes ++ [last], after) ∧
      IsRing after head [] ∧ IsRing after other (last :: nodes ++ others) ∧
      OthersKept links after (head :: (nodes ++ [last]) ++ other :: others) := by
  have disjoint := ring.disjoint again apart
  obtain ⟨middle, detached, alone, remainder, first⟩ := detachFromList_among ring
  have visited := forInList_ring remainder enough
  have separate : last ∉ other :: others := by
    apply disjoint
    exact List.mem_cons_of_mem head (List.mem_append_right nodes (List.mem_singleton_self last))
  obtain ⟨after, merged, whole, later⟩ :=
    mergeListReturning_rings (first.rings other others apart again) remainder separate
  refine ⟨after, ?_, ?_, whole, ?_⟩
  · unfold transfer
    rw [detached]
    simp only [Option.bind_eq_bind, Option.bind_some, visited, merged, Option.pure_def]
  · apply later.rings head [] _ alone
    rw [List.mem_append, not_or]
    refine ⟨disjoint head List.mem_cons_self, ?_⟩
    intro member
    apply (List.nodup_cons.mp ring.distinct).1
    rw [List.mem_append, List.mem_singleton]
    exact (List.mem_cons.mp member).symm
  · apply (first.mono _).trans (later.mono _)
    · intro node member
      exact List.mem_append_left (other :: others) member
    · intro node member
      simp only [List.mem_append, List.mem_cons, List.not_mem_nil, or_false] at member ⊢
      tauto

theorem transfer_rings (ring : IsRing links head nodes) (again : IsRing links other others)
    (apart : other ∉ head :: nodes) {rounds : Nat} (enough : nodes.length < rounds) :
    ∃ after, transfer links head other rounds = some (nodes, after) ∧
      IsRing after head [] ∧
      IsRing after other (nodes.getLast?.toList ++ nodes.dropLast ++ others) ∧
      OthersKept links after (head :: nodes ++ other :: others) := by
  rcases List.eq_nil_or_concat nodes with empty | ⟨init, last, parts⟩
  · rw [empty] at ring apart ⊢
    exact transfer_empty ring again (fun same => apart (List.mem_singleton.mpr same)) _
  · rw [List.concat_eq_append] at parts
    rw [parts] at ring apart enough ⊢
    rw [List.length_append] at enough
    rw [List.getLast?_concat, List.dropLast_concat]
    exact transfer_among ring again apart (Nat.lt_of_le_of_lt (Nat.le_add_right _ _) enough)

/-! ### Every node stays on a list -/

theorem mergeListReturning_circular (circular : Circular links) (ring : IsRing links node nodes)
    (again : IsRing links other others) (apart : other ∉ node :: nodes) :
    ∃ after, mergeListReturning links (some node) (some other) = some (some node, after) ∧
      IsRing after node (other :: others ++ nodes) ∧
      OthersKept links after (node :: nodes ++ other :: others) ∧ Circular after := by
  obtain ⟨after, merged, whole, kept⟩ := mergeListReturning_rings ring again apart
  refine ⟨after, merged, whole, kept, circular.of_kept kept ?_⟩
  intro place member
  have inside : place ∈ node :: (other :: others ++ nodes) := by
    simp only [List.mem_append, List.mem_cons] at member ⊢
    tauto
  obtain ⟨rest, here, -⟩ := whole.of_mem inside
  exact ⟨rest, here⟩

theorem detachFromList_circular (circular : Circular links) (ring : IsRing links node nodes) :
    ∃ after, detachFromList links node = some (nodes.getLast?, after) ∧ IsRing after node [] ∧
      (∀ head before behind, IsRing links head (before ++ node :: behind) →
        IsRing after head (before ++ behind)) ∧
      OthersKept links after (node :: nodes) ∧ Circular after := by
  have elsewhere : ∀ after, detachFromList links node = some (nodes.getLast?, after) →
      ∀ head before behind, IsRing links head (before ++ node :: behind) →
        IsRing after head (before ++ behind) := by
    intro after detached head before behind around
    obtain ⟨final, same, whole, -⟩ := around.detach
    unfold detachFromList at detached
    rw [same] at detached
    obtain ⟨prev, -, returned⟩ := Option.bind_eq_some_iff.mp detached
    have pair := congrArg Prod.snd (Option.some.inj returned)
    change final = after at pair
    rw [← pair]
    exact whole
  rcases List.eq_nil_or_concat nodes with empty | ⟨init, last, parts⟩
  · rw [empty] at ring elsewhere ⊢
    obtain ⟨after, detached, alone, kept⟩ := detachFromList_alone ring
    refine ⟨after, detached, alone, elsewhere after detached, kept, circular.of_kept kept ?_⟩
    intro place member
    rw [List.mem_singleton.mp member]
    exact ⟨[], alone⟩
  · rw [List.concat_eq_append] at parts
    rw [parts] at ring elsewhere ⊢
    rw [List.getLast?_concat] at elsewhere ⊢
    obtain ⟨after, detached, alone, remainder, kept⟩ := detachFromList_among ring
    refine ⟨after, detached, alone, elsewhere after detached, kept, circular.of_kept kept ?_⟩
    intro place member
    rcases List.mem_cons.mp member with same | inside
    · rw [same]
      exact ⟨[], alone⟩
    · have within : place ∈ last :: init := by
        rw [List.mem_append, List.mem_singleton] at inside
        exact List.mem_cons.mpr inside.symm
      obtain ⟨rest, here, -⟩ := remainder.of_mem within
      exact ⟨rest, here⟩

theorem transfer_circular (circular : Circular links) (ring : IsRing links head nodes)
    (again : IsRing links other others) (apart : other ∉ head :: nodes) :
    ∃ after, transfer links head other (nodes.length + 1) = some (nodes, after) ∧
      IsRing after head [] ∧
      IsRing after other (nodes.getLast?.toList ++ nodes.dropLast ++ others) ∧
      OthersKept links after (head :: nodes ++ other :: others) ∧ Circular after := by
  have listed : ∀ after, IsRing after head [] →
      IsRing after other (nodes.getLast?.toList ++ nodes.dropLast ++ others) →
      ∀ place ∈ head :: nodes ++ other :: others, ∃ rest, IsRing after place rest := by
    intro after alone whole place member
    rw [List.cons_append, List.mem_cons] at member
    rcases member with same | inside
    · rw [same]
      exact ⟨[], alone⟩
    · have within : place ∈ other :: (nodes.getLast?.toList ++ nodes.dropLast ++ others) := by
        rcases List.eq_nil_or_concat nodes with empty | ⟨init, last, parts⟩
        · rw [empty] at inside ⊢
          exact inside
        · rw [parts] at inside ⊢
          simp at inside ⊢
          tauto
      obtain ⟨rest, here, -⟩ := whole.of_mem within
      exact ⟨rest, here⟩
  obtain ⟨after, transferred, alone, whole, kept⟩ :=
    transfer_rings ring again apart (Nat.lt_succ_self _)
  exact ⟨after, transferred, alone, whole, kept, circular.of_kept kept (listed after alone whole)⟩

/-- Merging, detaching and moving lists, in links where every node is on a circular list. -/
theorem ring_lists (circular : Circular links) :
    (∀ node nodes other others, IsRing links node nodes → IsRing links other others →
      other ∉ node :: nodes →
        ∃ after, mergeListReturning links (some node) (some other) = some (some node, after) ∧
          IsRing after node (other :: others ++ nodes) ∧
          OthersKept links after (node :: nodes ++ other :: others) ∧ Circular after) ∧
    (∀ node nodes, IsRing links node nodes →
      ∃ result after, detachFromList links node = some (result, after) ∧ IsRing after node [] ∧
        (∀ head before behind, IsRing links head (before ++ node :: behind) →
          IsRing after head (before ++ behind)) ∧
        (result = none ↔ nodes = []) ∧ (nodes ≠ [] → result = links.prev node) ∧
        OthersKept links after (node :: nodes) ∧ Circular after) ∧
    (∀ head nodes other others, IsRing links head nodes → IsRing links other others →
      other ∉ head :: nodes →
        ∃ after, transfer links head other (nodes.length + 1) = some (nodes, after) ∧
          IsRing after head [] ∧
          (∃ moved, moved.Perm nodes ∧ IsRing after other (moved ++ others)) ∧
          OthersKept links after (head :: nodes ++ other :: others) ∧ Circular after) := by
  refine ⟨?_, ?_, ?_⟩
  · intro node nodes other others ring again apart
    exact mergeListReturning_circular circular ring again apart
  · intro node nodes ring
    obtain ⟨after, detached, alone, elsewhere, kept, still⟩ := detachFromList_circular circular ring
    refine ⟨_, after, detached, alone, elsewhere, List.getLast?_eq_none_iff, ?_, kept, still⟩
    intro more
    rw [ring.path.prev_eq]
    obtain ⟨last, found⟩ := Option.ne_none_iff_exists'.mp (mt List.getLast?_eq_none_iff.mp more)
    rw [found, Option.getD_some]
  · intro head nodes other others ring again apart
    obtain ⟨after, transferred, alone, whole, kept, still⟩ :=
      transfer_circular circular ring again apart
    refine ⟨after, transferred, alone, ⟨_, ?_, whole⟩, kept, still⟩
    rcases List.eq_nil_or_concat nodes with empty | ⟨init, last, parts⟩
    · rw [empty]
      exact List.Perm.refl _
    · rw [List.concat_eq_append] at parts
      rw [parts, List.getLast?_concat, List.dropLast_concat]
      exact List.perm_append_comm

end

def twoRings : Links Nat :=
  { prev := fun node =>
      if node < 4 then some ((node + 3) % 4)
      else if 10 ≤ node ∧ node < 13 then some (10 + (node - 8) % 3) else some node
    next := fun node =>
      if node < 4 then some ((node + 1) % 4)
      else if 10 ≤ node ∧ node < 13 then some (10 + (node - 9) % 3) else some node }

theorem twoRings_four : IsRing twoRings 0 [1, 2, 3] := by
  constructor
  · decide
  · exact ⟨⟨rfl, rfl⟩, ⟨rfl, rfl⟩, ⟨rfl, rfl⟩, rfl, rfl⟩

theorem twoRings_three : IsRing twoRings 10 [11, 12] := by
  constructor
  · decide
  · exact ⟨⟨rfl, rfl⟩, ⟨rfl, rfl⟩, rfl, rfl⟩

theorem twoRings_circular : Circular twoRings := by
  intro node
  by_cases four : node < 4
  · obtain ⟨others, ring, -⟩ := twoRings_four.of_mem (show node ∈ [0, 1, 2, 3] by simp; omega)
    exact ⟨others, ring⟩
  · by_cases three : 10 ≤ node ∧ node < 13
    · obtain ⟨others, ring, -⟩ := twoRings_three.of_mem (show node ∈ [10, 11, 12] by simp; omega)
      exact ⟨others, ring⟩
    · refine ⟨[], by simp, ?_, ?_⟩
      · simp only [twoRings, if_neg four, if_neg three]
      · simp only [twoRings, if_neg four, if_neg three]

theorem ring_lists_two : Circular twoRings ∧
    (∃ after, mergeListReturning twoRings (some 0) (some 10) = some (some 0, after) ∧
      IsRing after 0 [10, 11, 12, 1, 2, 3]) ∧
    (∃ after, detachFromList twoRings 2 = some (some 1, after) ∧ IsRing after 0 [1, 3] ∧
      IsRing after 2 []) ∧
    ∃ after moved, transfer twoRings 0 10 4 = some ([1, 2, 3], after) ∧ IsRing after 0 [] ∧
      moved.Perm [1, 2, 3] ∧ IsRing after 10 (moved ++ [11, 12]) := by
  obtain ⟨merges, detaches, transfers⟩ := ring_lists twoRings_circular
  have apart : 10 ∉ [0, 1, 2, 3] := by decide
  obtain ⟨others, around, -⟩ := twoRings_four.of_mem (show 2 ∈ [0, 1, 2, 3] by decide)
  obtain ⟨merged, together, longer, -⟩ :=
    merges 0 [1, 2, 3] 10 [11, 12] twoRings_four twoRings_three apart
  obtain ⟨before, detached, taken, alone, elsewhere, -, left_of, -⟩ := detaches 2 others around
  obtain ⟨after, moving, left, ⟨moved, same, whole⟩, -⟩ :=
    transfers 0 [1, 2, 3] 10 [11, 12] twoRings_four twoRings_three apart
  refine ⟨twoRings_circular, ⟨merged, together, longer⟩, ⟨detached, ?_, ?_, alone⟩, after, moved,
    moving, left, same, whole⟩
  · have some_left : others ≠ [] := by
      rintro rfl
      cases around.path.1
    rw [taken, left_of some_left]
    rfl
  · exact elsewhere 0 [1] [3] twoRings_four

end LabKernel.Common
