/-
The red-black tree as an ordered set.

A run is a sequence of insertions and deletions on an empty root, of any nodes of the memory. The
set of the nodes in the tree is kept beside it. After every run the memory shows a balanced tree
whose nodes are in order, and the set says what each further call does.
-/

import LabKernel.Common.RbSearch
import LabKernel.Common.RbRemove
import Mathlib.Data.Finset.Card

set_option autoImplicit false

namespace LabKernel.Common.Rbtree

open RedBlack Context

/-! ### Calls -/

inductive Call where
  | insert (node : Ptr)
  | erase (node : Ptr)

/-- One call. An insertion returns a number. -/
def callStep (rounds : Nat) (cmp : Ptr → Ptr → Bool) (tree : RbTree) :
    Call → Except Stop (Option Int × RbTree)
  | .insert node => do
      let (value, tree) ← tree.insert rounds cmp node
      pure (some value, tree)
  | .erase node => do
      let tree ← tree.erase rounds node
      pure (none, tree)

def exec (rounds : Nat) (cmp : Ptr → Ptr → Bool) :
    List Call → RbTree → Except Stop (List (Option Int) × RbTree)
  | [], tree => pure ([], tree)
  | call :: calls, tree => do
      let (result, tree) ← callStep rounds cmp tree call
      let (results, tree) ← exec rounds cmp calls tree
      pure (result :: results, tree)

/-! ### The set -/

abbrev Equivalent (cmp : Ptr → Ptr → Bool) (left right : Ptr) : Prop :=
  ¬Less cmp left right ∧ ¬Less cmp right left

def setStep (cmp : Ptr → Ptr → Bool) (members : Finset Ptr) : Call → Option Int × Finset Ptr
  | .insert node =>
      if ∃ member ∈ members, Equivalent cmp node member then (some (-1), members)
      else (some 0, insert node members)
  | .erase node => (none, members.erase node)

def setExec (cmp : Ptr → Ptr → Bool) : List Call → Finset Ptr → List (Option Int) × Finset Ptr
  | [], members => ([], members)
  | call :: calls, members =>
      let (result, members) := setStep cmp members call
      let (results, members) := setExec cmp calls members
      (result :: results, members)

/-- A node is inserted when it is not in the tree, and erased when it is. -/
def Allowed (known : Ptr → Prop) (members : Finset Ptr) : Call → Prop
  | .insert node => known node ∧ node ∉ members
  | .erase node => node ∈ members

def Legal (cmp : Ptr → Ptr → Bool) (known : Ptr → Prop) : List Call → Finset Ptr → Prop
  | [], _ => True
  | call :: calls, members =>
      Allowed known members call ∧ Legal cmp known calls (setStep cmp members call).2

/-- The memory holds these nodes, and shows a balanced tree of the members in order. -/
structure Represents (cmp : Ptr → Ptr → Bool) (known : Ptr → Prop) (tree : RbTree)
    (members : Finset Ptr) (shape : RedBlack.Tree Ptr) : Prop where
  shaped : Shaped tree shape
  sorted : shape.inorder.Pairwise (Less cmp)
  same : ∀ node, node ∈ shape.inorder ↔ node ∈ members
  nodes : ∀ node, known node → ∃ record, tree.heap node = some record

variable {cmp : Ptr → Ptr → Bool} {known : Ptr → Prop} {tree : RbTree} {members : Finset Ptr}
  {shape : RedBlack.Tree Ptr} {rounds : Nat}

theorem Represents.length (represents : Represents cmp known tree members shape) :
    shape.inorder.length = members.card := by
  have distinct : shape.inorder.Nodup := represents.shaped.holds.distinct
  rw [← List.toFinset_card_of_nodup distinct]
  congr 1
  ext node
  rw [List.mem_toFinset]
  exact represents.same node

theorem nodes_settled {after : RbTree} {order : List Ptr} (settled : Settled tree after order)
    (nodes : ∀ node, known node → ∃ record, tree.heap node = some record) :
    ∀ node, known node → ∃ record, after.heap node = some record := by
  obtain ⟨shape, shaped, rfl, kept⟩ := settled
  intro node mine
  by_cases member : node ∈ shape.inorder
  · obtain ⟨ctx, color, left, right, rfl⟩ := exists_fill member
    have holds : Holds after ctx (.node color left node right) := holds_fill.mpr shaped.holds
    exact ⟨_, holds.shows.1⟩
  · rw [kept node member]
    exact nodes node mine

theorem insert_step [IsTrans Ptr (Less cmp)] {node : Ptr}
    (represents : Represents cmp known tree members shape) (nonnull : ∀ node, known node → node ≠ null)
    (mine : known node) (fresh : node ∉ members) (enough : members.card < rounds) :
    ((∃ member ∈ members, Equivalent cmp node member) ∧
      ∃ after, tree.insert rounds cmp node = .ok (-1, after) ∧ after.root = tree.root ∧
        (∀ other, other ≠ node → after.heap other = tree.heap other) ∧
        Represents cmp known after members shape) ∨
    ((¬∃ member ∈ members, Equivalent cmp node member) ∧
      ∃ after larger, tree.insert rounds cmp node = .ok (0, after) ∧
        Represents cmp known after (insert node members) larger) := by
  obtain ⟨record, here⟩ := represents.nodes node mine
  have absent : node ∉ shape.inorder := fun member => fresh ((represents.same node).mp member)
  have room : shape.inorder.length < rounds := by
    rw [represents.length]
    exact enough
  rcases insert_spec represents.shaped represents.sorted (.of_trans _ _) here (nonnull node mine)
    absent room with
    ⟨after, done, ⟨member, inside, apart⟩, shaped, bare, kept⟩ |
    ⟨after, earlier, later, done, split, below, above, settled⟩
  · left
    refine ⟨⟨member, (represents.same member).mp inside, apart⟩, after, done, ?_, kept, ?_⟩
    · have was : tree.root = top shape := represents.shaped.holds.around
      have now : after.root = top shape := shaped.holds.around
      rw [was, now]
    · refine ⟨shaped, represents.sorted, represents.same, ?_⟩
      intro other known
      by_cases same : other = node
      · rw [same]
        exact ⟨bareNode, bare⟩
      · rw [kept other same]
        exact represents.nodes other known
  · right
    have nodes := nodes_settled settled represents.nodes
    obtain ⟨larger, shaped, listed, kept⟩ := settled
    refine ⟨?_, after, larger, done, shaped, ?_, ?_, nodes⟩
    · rintro ⟨member, inside, apart⟩
      rw [← represents.same, split] at inside
      rcases List.mem_append.mp inside with low | high
      · exact apart.2 (below member low)
      · exact apart.1 (above member high)
    · have ordered := represents.sorted
      rw [split, List.pairwise_append] at ordered
      rw [listed, List.pairwise_append, List.pairwise_cons]
      refine ⟨ordered.1, ⟨above, ordered.2.1⟩, ?_⟩
      intro first low second member
      rcases List.mem_cons.mp member with rfl | high
      · exact below first low
      · exact ordered.2.2 first low second high
    · intro other
      rw [listed, Finset.mem_insert, ← represents.same, split]
      simp only [List.mem_append, List.mem_cons]
      tauto

theorem erase_step {node : Ptr} (represents : Represents cmp known tree members shape)
    (member : node ∈ members) (enough : members.card ≤ rounds) :
    ∃ after smaller, tree.erase rounds node = .ok after ∧
      Represents cmp known after (members.erase node) smaller := by
  have room : shape.inorder.length ≤ rounds := by
    rw [represents.length]
    exact enough
  obtain ⟨after, earlier, later, done, split, settled⟩ :=
    erase_spec represents.shaped ((represents.same node).mpr member) room
  have nodes := nodes_settled settled represents.nodes
  obtain ⟨smaller, shaped, listed, kept⟩ := settled
  refine ⟨after, smaller, done, shaped, ?_, ?_, nodes⟩
  · have ordered := represents.sorted
    rw [split, List.pairwise_append, List.pairwise_cons] at ordered
    rw [listed, List.pairwise_append]
    refine ⟨ordered.1, ordered.2.1.2, ?_⟩
    intro first low second high
    exact ordered.2.2 first low second (List.mem_cons_of_mem _ high)
  · intro other
    have distinct : shape.inorder.Nodup := represents.shaped.holds.distinct
    rw [split, List.nodup_middle, List.nodup_cons] at distinct
    rw [listed, Finset.mem_erase, ← represents.same, split]
    simp only [List.mem_append, List.mem_cons] at distinct ⊢
    constructor
    · intro inside
      refine ⟨?_, by tauto⟩
      rintro rfl
      exact distinct.1 inside
    · rintro ⟨different, inside⟩
      tauto

theorem callStep_spec [IsTrans Ptr (Less cmp)] (represents : Represents cmp known tree members shape)
    (nonnull : ∀ node, known node → node ≠ null) {call : Call} (allowed : Allowed known members call)
    (enough : members.card < rounds) :
    ∃ after next, callStep rounds cmp tree call = .ok ((setStep cmp members call).1, after) ∧
      Represents cmp known after (setStep cmp members call).2 next := by
  cases call with
  | insert node =>
      rcases insert_step represents nonnull allowed.1 allowed.2 enough with
        ⟨equivalent, after, done, _, _, still⟩ | ⟨new, after, larger, done, grown⟩
      · have step : setStep cmp members (.insert node) = (some (-1), members) := if_pos equivalent
        rw [step]
        refine ⟨after, shape, ?_, still⟩
        change (tree.insert rounds cmp node >>= _) = _
        rw [done]
        rfl
      · have step : setStep cmp members (.insert node) = (some 0, insert node members) := if_neg new
        rw [step]
        refine ⟨after, larger, ?_, grown⟩
        change (tree.insert rounds cmp node >>= _) = _
        rw [done]
        rfl
  | erase node =>
      obtain ⟨after, smaller, done, shrunk⟩ := erase_step represents allowed (Nat.le_of_lt enough)
      refine ⟨after, smaller, ?_, shrunk⟩
      change (tree.erase rounds node >>= _) = _
      rw [done]
      rfl

theorem card_setStep (cmp : Ptr → Ptr → Bool) (members : Finset Ptr) (call : Call) :
    (setStep cmp members call).2.card ≤ members.card + 1 := by
  cases call with
  | insert node =>
      by_cases equivalent : ∃ member ∈ members, Equivalent cmp node member
      · rw [show setStep cmp members (.insert node) = (some (-1), members) from if_pos equivalent]
        exact Nat.le_succ _
      · rw [show setStep cmp members (.insert node) = (some 0, insert node members) from
          if_neg equivalent]
        exact Finset.card_insert_le _ _
  | erase node => exact Nat.le_succ_of_le (Finset.card_le_card (Finset.erase_subset _ _))

theorem card_setExec (cmp : Ptr → Ptr → Bool) (calls : List Call) (members : Finset Ptr) :
    (setExec cmp calls members).2.card ≤ members.card + calls.length := by
  induction calls generalizing members with
  | nil => exact Nat.le_refl _
  | cons call calls ih =>
      have first := card_setStep cmp members call
      have later := ih (setStep cmp members call).2
      rw [List.length_cons]
      change (setExec cmp calls (setStep cmp members call).2).2.card ≤ _
      omega

theorem exec_spec [IsTrans Ptr (Less cmp)] (calls : List Call)
    (represents : Represents cmp known tree members shape)
    (nonnull : ∀ node, known node → node ≠ null) (legal : Legal cmp known calls members)
    (enough : members.card + calls.length ≤ rounds) :
    ∃ final last, exec rounds cmp calls tree = .ok ((setExec cmp calls members).1, final) ∧
      Represents cmp known final (setExec cmp calls members).2 last := by
  induction calls generalizing tree members shape with
  | nil => exact ⟨tree, shape, rfl, represents⟩
  | cons call calls ih =>
      rw [List.length_cons] at enough
      obtain ⟨middle, next, done, stands⟩ :=
        callStep_spec represents nonnull legal.1 (show members.card < rounds by omega)
      have room : (setStep cmp members call).2.card + calls.length ≤ rounds := by
        have grown := card_setStep cmp members call
        omega
      obtain ⟨final, last, finished, stood⟩ := ih stands legal.2 room
      refine ⟨final, last, ?_, stood⟩
      unfold exec
      rw [done]
      change (exec rounds cmp calls middle >>= _) = _
      rw [finished]
      rfl

/-! ### Runs from the empty root -/

def Object (heap : Ptr → Option RbNode) (node : Ptr) : Prop :=
  node ≠ null ∧ ∃ record, heap node = some record

theorem run_represents [IsTrans Ptr (Less cmp)] {heap : Ptr → Option RbNode} {calls : List Call}
    (legal : Legal cmp (Object heap) calls ∅) (enough : calls.length ≤ rounds) :
    ∃ final shape, exec rounds cmp calls ⟨heap, null⟩ = .ok ((setExec cmp calls ∅).1, final) ∧
      Represents cmp (Object heap) final (setExec cmp calls ∅).2 shape := by
  have blank : Represents cmp (Object heap) ⟨heap, null⟩ ∅ .leaf := by
    refine ⟨empty_shaped heap, .nil, ?_, ?_⟩
    · intro node
      simp
    · exact fun node object => object.2
  exact exec_spec calls blank (fun node object => object.1) legal (by simpa using enough)

/-- The root is null or black and without a parent, no red node has a red child, every path down
has the same number of black nodes, and every node has the node above it as its parent. -/
def WellShaped (tree : RbTree) : Prop :=
  ∃ shape height, tree.root = top shape ∧ Shows tree.heap null shape ∧ shape.inorder.Nodup ∧
    null ∉ shape.inorder ∧ shape.color = .black ∧ shape.NoRedRed ∧
    ∀ count ∈ shape.blacks, count = height

theorem shape_of_run [IsStrictWeakOrder Ptr (Less cmp)] {heap : Ptr → Option RbNode}
    {calls : List Call} (legal : Legal cmp (Object heap) calls ∅) (enough : calls.length ≤ rounds) :
    ∃ results final, exec rounds cmp calls ⟨heap, null⟩ = .ok (results, final) ∧
      WellShaped final := by
  obtain ⟨final, shape, done, represents⟩ := run_represents legal enough
  obtain ⟨height, balanced⟩ := represents.shaped.balanced
  have holds := represents.shaped.holds
  exact ⟨_, final, done, shape, height, holds.around, holds.shows, holds.distinct, holds.nonnull,
    balanced.color_eq, balanced.noRedRed, balanced.blacks_eq⟩

/-- Nodes in the same sixteen bytes are equivalent. -/
def lineCmp (left right : Ptr) : Bool := left.val.toNat / 16 < right.val.toNat / 16

instance lineCmp_weak : IsStrictWeakOrder Ptr (Less lineCmp) where
  irrefl node less := Nat.lt_irrefl _ (of_decide_eq_true less)
  trans _ _ _ first second :=
    decide_eq_true (Nat.lt_trans (of_decide_eq_true first) (of_decide_eq_true second))
  incomp_trans first second third one two := by
    simp only [Less, lineCmp, decide_eq_true_eq] at one two ⊢
    omega

def slot (index : Fin 16) : Ptr := ⟨8 * UInt64.ofNat index, by revert index; decide⟩

/-- The second slot is equivalent to the first one, and refused. -/
def lineCalls : List Call :=
  [.insert (slot 2), .insert (slot 3), .insert (slot 6), .insert (slot 8), .erase (slot 2)]

theorem lineCalls_legal : Legal lineCmp (Object fun _ => some bareNode) lineCalls ∅ := by
  refine ⟨⟨⟨by decide, _, rfl⟩, by decide⟩, ⟨⟨by decide, _, rfl⟩, by decide⟩,
    ⟨⟨by decide, _, rfl⟩, by decide⟩, ⟨⟨by decide, _, rfl⟩, by decide⟩, ?_, True.intro⟩
  change slot 2 ∈ _
  decide

theorem shape_of_run_lines : ∃ results final,
    exec 5 lineCmp lineCalls ⟨fun _ => some bareNode, null⟩ = .ok (results, final) ∧
      WellShaped final :=
  shape_of_run lineCalls_legal (by decide)

theorem Represents.unique [IsStrictWeakOrder Ptr (Less cmp)] {node first second : Ptr}
    (represents : Represents cmp known tree members shape) (one : first ∈ members)
    (two : second ∈ members) (left : Equivalent cmp node first) (right : Equivalent cmp node second) :
    first = second := by
  by_contra different
  have apart : Equivalent cmp first second :=
    IsStrictWeakOrder.incomp_trans first node second ⟨left.2, left.1⟩ right
  have ordered : Less cmp first second ∨ Less cmp second first := by
    have sorted := represents.sorted
    rw [← represents.same] at one two
    have either : shape.inorder.Pairwise fun a b => Less cmp a b ∨ Less cmp b a :=
      sorted.imp fun less => .inl less
    have : Std.Symm fun a b => Less cmp a b ∨ Less cmp b a := ⟨fun _ _ less => less.symm⟩
    exact either.forall one two different
  exact ordered.elim apart.1 apart.2

/-- What each further call does is said by the members. -/
structure Serves (rounds : Nat) (cmp : Ptr → Ptr → Bool) (known : Ptr → Prop) (tree : RbTree)
    (members : Finset Ptr) (shape : RedBlack.Tree Ptr) : Prop where
  inserts : ∀ node, known node → node ∉ members →
    ((∃ member ∈ members, Equivalent cmp node member) ∧
      ∃ after, tree.insert rounds cmp node = .ok (-1, after) ∧ after.root = tree.root ∧
        (∀ member ∈ members, after.heap member = tree.heap member) ∧
        Represents cmp known after members shape) ∨
    ((¬∃ member ∈ members, Equivalent cmp node member) ∧
      ∃ after larger, tree.insert rounds cmp node = .ok (0, after) ∧
        Represents cmp known after (insert node members) larger)
  erases : ∀ node ∈ members, ∃ after smaller, tree.erase rounds node = .ok after ∧
    Represents cmp known after (members.erase node) smaller
  finds : ∀ node, (∃ member ∈ members, tree.lookup rounds cmp node = .ok member ∧ member ≠ null ∧
      Equivalent cmp node member ∧ ∀ other ∈ members, Equivalent cmp node other → other = member) ∨
    (tree.lookup rounds cmp node = .ok null ∧ ∀ member ∈ members, ¬Equivalent cmp node member)
  least : (members = ∅ ∧ tree.first rounds = .ok null) ∨
    ∃ least ∈ members, tree.first rounds = .ok least ∧ least ≠ null ∧
      ∀ other ∈ members, other ≠ least → Less cmp least other

theorem Represents.serves [IsStrictWeakOrder Ptr (Less cmp)]
    (represents : Represents cmp known tree members shape)
    (nonnull : ∀ node, known node → node ≠ null) (room : members.card < rounds) :
    Serves rounds cmp known tree members shape := by
  have long : shape.inorder.length < rounds := by
    rw [represents.length]
    exact room
  have present : ∀ member ∈ shape.inorder, member ≠ null := by
    rintro member inside rfl
    exact represents.shaped.holds.nonnull inside
  constructor
  · intro node object fresh
    rcases insert_step represents nonnull object fresh room with
      ⟨equivalent, after, refused, root, kept, still⟩ | new
    · left
      refine ⟨equivalent, after, refused, root, ?_, still⟩
      intro member inside
      apply kept member
      rintro rfl
      exact fresh inside
    · exact .inr new
  · intro node member
    exact erase_step represents member (Nat.le_of_lt room)
  · intro node
    rcases lookup_spec represents.shaped represents.sorted (.of_trans node _) long with
      ⟨member, inside, found, apart⟩ | ⟨missing, comparable⟩
    · left
      have mine := (represents.same member).mp inside
      refine ⟨member, mine, found, present member inside, apart, ?_⟩
      intro other another equivalent
      exact represents.unique another mine equivalent apart
    · right
      refine ⟨missing, ?_⟩
      intro member mine equivalent
      rcases comparable member ((represents.same member).mpr mine) with low | high
      · exact equivalent.2 low
      · exact equivalent.1 high
  · have found := first_spec represents.shaped (Nat.le_of_lt long)
    cases listed : shape.inorder with
    | nil =>
        left
        rw [listed] at found
        refine ⟨?_, found⟩
        rw [Finset.eq_empty_iff_forall_notMem]
        intro node member
        rw [← represents.same, listed] at member
        cases member
    | cons least others =>
        right
        rw [listed] at found
        have inside : least ∈ shape.inorder := by
          rw [listed]
          exact List.mem_cons_self
        refine ⟨least, (represents.same least).mp inside, found, present least inside, ?_⟩
        intro other member different
        have sorted := represents.sorted
        rw [listed, List.pairwise_cons] at sorted
        rw [← represents.same, listed] at member
        rcases List.mem_cons.mp member with same | later
        · exact absurd same different
        · exact sorted.1 other later

/-- After every run the tree is the set of the nodes inserted and not erased, in order. -/
theorem ordered_set_of_run [IsStrictWeakOrder Ptr (Less cmp)] {heap : Ptr → Option RbNode}
    {calls : List Call} (legal : Legal cmp (Object heap) calls ∅) (enough : calls.length < rounds) :
    ∃ final shape, exec rounds cmp calls ⟨heap, null⟩ = .ok ((setExec cmp calls ∅).1, final) ∧
      Represents cmp (Object heap) final (setExec cmp calls ∅).2 shape ∧
      Serves rounds cmp (Object heap) final (setExec cmp calls ∅).2 shape := by
  obtain ⟨final, shape, done, represents⟩ := run_represents legal (Nat.le_of_lt enough)
  have size : (setExec cmp calls ∅).2.card ≤ calls.length := by
    have grown := card_setExec cmp calls ∅
    rwa [Finset.card_empty, Nat.zero_add] at grown
  exact ⟨final, shape, done, represents,
    represents.serves (fun node object => object.1) (Nat.lt_of_le_of_lt size enough)⟩

theorem ordered_set_of_run_lines : ∃ final shape,
    exec 6 lineCmp lineCalls ⟨fun _ => some bareNode, null⟩ =
        .ok ((setExec lineCmp lineCalls ∅).1, final) ∧
      Represents lineCmp (Object fun _ => some bareNode) final (setExec lineCmp lineCalls ∅).2 shape ∧
      Serves 6 lineCmp (Object fun _ => some bareNode) final (setExec lineCmp lineCalls ∅).2 shape :=
  ordered_set_of_run lineCalls_legal (by decide)

end LabKernel.Common.Rbtree
