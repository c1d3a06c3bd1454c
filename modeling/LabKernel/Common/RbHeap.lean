/-
Trees in the memory.

A tree is shown by the nodes of its items, with colours, children and parents as the tree has
them, and a context by those above a hole. The writes of the program are looked at one at a
time: each changes the nodes of a small set of items and leaves all others alone.
-/

import LabKernel.Common.Rbtree
import LabKernel.Lib.Outcome

set_option autoImplicit false

namespace LabKernel.Common.Rbtree

open RedBlack RedBlack.Tree RedBlack.Context Outcomes

/-! ### Words -/

theorem Ptr.aligned (addr : Ptr) : addr.val.toNat % 2 ^ 2 = 0 := by
  have low := congrArg UInt64.toNat addr.property
  rw [UInt64.toNat_and] at low
  change addr.val.toNat &&& (2 ^ 2 - 1) = 0 at low
  rwa [Nat.and_two_pow_sub_one_eq_mod] at low

theorem pack_toNat (parent : Ptr) (color : Color) :
    (pack parent color).toNat = parent.val.toNat + (colorWord color).toNat := by
  unfold pack
  rw [UInt64.toNat_or]
  apply Bits.or_low parent.aligned
  cases color with
  | red => decide
  | black => decide

@[simp]
theorem rbParent_pack (parent : Ptr) (color : Color) : rbParent (pack parent color) = parent := by
  apply Subtype.ext
  apply UInt64.toNat.inj
  have aligned := parent.aligned
  have small := parent.val.toNat_lt
  have mask : (~~~(3 : UInt64)).toNat = (2 ^ 62 - 1) <<< 2 := by decide
  change ((pack parent color) &&& ~~~3).toNat = _
  rw [UInt64.toNat_and, mask, Bits.and_shifted_mask, pack_toNat]
  cases color with
  | red =>
      change (parent.val.toNat + 0) / 2 ^ 2 % 2 ^ 62 * 2 ^ 2 = _
      omega
  | black =>
      change (parent.val.toNat + 1) / 2 ^ 2 % 2 ^ 62 * 2 ^ 2 = _
      omega

theorem pack_color (parent : Ptr) (color : Color) : pack parent color &&& 1 = colorWord color := by
  apply UInt64.toNat.inj
  have aligned := parent.aligned
  rw [UInt64.toNat_and, pack_toNat]
  change _ &&& (2 ^ 1 - 1) = _
  rw [Nat.and_two_pow_sub_one_eq_mod]
  cases color with
  | red =>
      change (parent.val.toNat + 0) % 2 ^ 1 = 0
      omega
  | black =>
      change (parent.val.toNat + 1) % 2 ^ 1 = 1
      omega

@[simp]
theorem rbIsRed_pack (parent : Ptr) (color : Color) :
    rbIsRed (pack parent color) = decide (color = .red) := by
  unfold rbIsRed
  rw [pack_color]
  cases color with
  | red => rfl
  | black => rfl

theorem pack_red (parent : Ptr) : pack parent .red = parent.val := UInt64.or_zero

@[simp]
theorem rbRedParent_pack (parent : Ptr) : rbRedParent (pack parent .red) = .ok parent := by
  unfold rbRedParent
  rw [dif_pos (by rw [pack_red]; exact parent.property)]
  congr 1
  exact Subtype.ext (pack_red parent)

@[simp]
theorem pack_reparent (old new : Ptr) (color : Color) :
    (pack old color &&& 1) ||| new.val = pack new color := by
  rw [pack_color]
  exact UInt64.or_comm _ _

@[simp]
theorem pack_blacken (parent : Ptr) (color : Color) : pack parent color ||| 1 = pack parent .black := by
  cases color with
  | red => rw [pack_red]; rfl
  | black =>
      change (parent.val ||| 1) ||| 1 = _
      rw [UInt64.or_assoc]
      rfl

/-! ### Records -/

def cell (word : UInt64) (side : Side) (near far : Ptr) : RbNode :=
  match side with
  | .left => { parentColor := word, right := far, left := near }
  | .right => { parentColor := word, right := near, left := far }

section

variable (word word' : UInt64) (side : Side) (near far child : Ptr)

@[simp]
theorem cell_child : (cell word side near far).child side = near := by
  cases side with
  | left => rfl
  | right => rfl

@[simp]
theorem cell_child_other : (cell word side near far).child side.other = far := by
  cases side with
  | left => rfl
  | right => rfl

@[simp]
theorem cell_setChild : (cell word side near far).setChild side child = cell word side child far := by
  cases side with
  | left => rfl
  | right => rfl

@[simp]
theorem cell_setChild_other :
    (cell word side near far).setChild side.other child = cell word side near child := by
  cases side with
  | left => rfl
  | right => rfl

@[simp]
theorem cell_word : (cell word side near far).parentColor = word := by
  cases side with
  | left => rfl
  | right => rfl

@[simp]
theorem cell_setWord :
    { cell word side near far with parentColor := word' } = cell word' side near far := by
  cases side with
  | left => rfl
  | right => rfl

end

/-! ### Trees in the memory -/

def top : RedBlack.Tree Ptr → Ptr
  | .leaf => null
  | .node _ _ item _ => item

/-- The node above a hole. -/
def above : Context Ptr → Ptr
  | [] => null
  | frame :: _ => frame.item

def Shows (heap : Ptr → Option RbNode) (parent : Ptr) : RedBlack.Tree Ptr → Prop
  | .leaf => True
  | .node color left item right =>
      heap item = some
          { parentColor := pack parent color, right := top right, left := top left } ∧
        Shows heap item left ∧ Shows heap item right

/-- The nodes around a hole with this pointer in it. -/
def Around (heap : Ptr → Option RbNode) (root : Ptr) : Context Ptr → Ptr → Prop
  | [], below => root = below
  | frame :: rest, below =>
      heap frame.item = some
          (cell (pack (above rest) frame.color) frame.side below (top frame.sibling)) ∧
        Shows heap frame.item frame.sibling ∧ Around heap root rest frame.item

structure Holds (tree : RbTree) (ctx : Context Ptr) (sub : RedBlack.Tree Ptr) : Prop where
  around : Around tree.heap tree.root ctx (top sub)
  shows : Shows tree.heap (above ctx) sub
  distinct : (items ctx ++ sub.inorder).Nodup
  nonnull : null ∉ items ctx ++ sub.inorder

variable {tree after : RbTree} {heap heap' : Ptr → Option RbNode} {root parent addr item : Ptr}
  {ctx : Context Ptr} {sub near far : RedBlack.Tree Ptr} {side : Side} {color : Color}
  {record : RbNode}

theorem top_fork : top (fork side color near item far) = item := by
  cases side with
  | left => rfl
  | right => rfl

theorem top_paint (color : Color) (sub : RedBlack.Tree Ptr) : top (paint color sub) = top sub := by
  cases sub with
  | leaf => rfl
  | node own left item right => rfl

theorem shows_fork : Shows heap parent (fork side color near item far) ↔
    heap item = some (cell (pack parent color) side (top near) (top far)) ∧
      Shows heap item near ∧ Shows heap item far := by
  cases side with
  | left => exact Iff.rfl
  | right =>
      constructor
      · rintro ⟨here, left, right⟩
        exact ⟨here, right, left⟩
      · rintro ⟨here, left, right⟩
        exact ⟨here, right, left⟩

theorem Shows.frame (shows : Shows heap parent sub)
    (same : ∀ item ∈ sub.inorder, heap' item = heap item) : Shows heap' parent sub := by
  induction sub generalizing parent with
  | leaf => exact True.intro
  | node color left item right lower upper =>
      obtain ⟨here, below, beyond⟩ := shows
      have mine : item ∈ (RedBlack.Tree.node color left item right).inorder :=
        List.mem_append_right _ List.mem_cons_self
      refine ⟨?_, ?_, ?_⟩
      · rw [same item mine]
        exact here
      · apply lower below
        intro other member
        exact same other (List.mem_append_left _ member)
      · apply upper beyond
        intro other member
        exact same other (List.mem_append_right _ (List.mem_cons_of_mem _ member))

theorem Around.frame (around : Around heap root ctx addr)
    (same : ∀ item ∈ items ctx, heap' item = heap item) : Around heap' root ctx addr := by
  induction ctx generalizing addr with
  | nil => exact around
  | cons frame rest ih =>
      obtain ⟨here, beside, beyond⟩ := around
      refine ⟨?_, ?_, ?_⟩
      · rw [same frame.item List.mem_cons_self]
        exact here
      · apply beside.frame
        intro other member
        exact same other (List.mem_append_left _ (List.mem_cons_of_mem _ member))
      · apply ih beyond
        intro other member
        exact same other (List.mem_append_right _ member)

theorem top_mem (sub : RedBlack.Tree Ptr) (node : top sub ≠ null) : top sub ∈ sub.inorder := by
  cases sub with
  | leaf => exact absurd rfl node
  | node color left item right => exact List.mem_append_right _ List.mem_cons_self

theorem top_eq_null (absent : null ∉ sub.inorder) : top sub = null ↔ sub = .leaf := by
  constructor
  · intro same
    cases sub with
    | leaf => rfl
    | node color left item right =>
        apply absurd _ absent
        rw [← same]
        exact List.mem_append_right _ List.mem_cons_self
  · rintro rfl
    rfl

theorem holds_cons {frame : Frame Ptr} {rest : Context Ptr} :
    Holds tree (frame :: rest) sub ↔
      Holds tree rest (fork frame.side frame.color sub frame.item frame.sibling) := by
  have moved : (items (frame :: rest) ++ sub.inorder).Perm
      (items rest ++ (fork frame.side frame.color sub frame.item frame.sibling).inorder) := by
    have whole : (fork frame.side frame.color sub frame.item frame.sibling).inorder.Perm
        (frame.item :: (sub.inorder ++ frame.sibling.inorder)) := inorder_fork_perm
    apply List.Perm.trans _ (whole.symm.append_left (items rest))
    have swapped : (frame.item :: frame.sibling.inorder ++ items rest ++ sub.inorder).Perm
        (items rest ++ (frame.item :: frame.sibling.inorder) ++ sub.inorder) :=
      List.perm_append_comm.append_right _
    apply swapped.trans
    rw [List.append_assoc]
    exact (List.perm_append_comm.cons frame.item).append_left _
  constructor
  · intro holds
    obtain ⟨here, beside, beyond⟩ := holds.around
    constructor
    · rw [top_fork]
      exact beyond
    · exact shows_fork.mpr ⟨here, holds.shows, beside⟩
    · exact moved.nodup_iff.mp holds.distinct
    · exact fun member => holds.nonnull (moved.mem_iff.mpr member)
  · intro holds
    obtain ⟨here, mine, beside⟩ := shows_fork.mp holds.shows
    have around := holds.around
    rw [top_fork] at around
    constructor
    · exact ⟨here, beside, around⟩
    · exact mine
    · exact moved.nodup_iff.mpr holds.distinct
    · exact fun member => holds.nonnull (moved.mem_iff.mp member)

theorem holds_fill : Holds tree ctx sub ↔ Holds tree [] (fill ctx sub) := by
  induction ctx generalizing sub with
  | nil => exact Iff.rfl
  | cons frame rest ih => rw [holds_cons, ih, fill]

theorem Holds.turn {new : RedBlack.Tree Ptr} (holds : Holds tree ctx sub)
    (around : Around after.heap after.root ctx (top new)) (shows : Shows after.heap (above ctx) new)
    (same : new.inorder = sub.inorder) : Holds after ctx new := by
  constructor
  · exact around
  · exact shows
  · rw [same]
    exact holds.distinct
  · rw [same]
    exact holds.nonnull

/-! ### Writes -/

theorem node_eq (here : tree.heap addr = some record) (nonnull : addr ≠ null) :
    tree.node addr = .ok record := by
  unfold RbTree.node
  rw [if_neg nonnull, here]

theorem setChild_eq (here : tree.heap addr = some record) (nonnull : addr ≠ null) (side : Side)
    (child : Ptr) :
    tree.setChild side addr child = .ok (tree.set addr (record.setChild side child)) := by
  unfold RbTree.setChild
  rw [node_eq here nonnull]
  rfl

theorem setWord_eq (here : tree.heap addr = some record) (nonnull : addr ≠ null) (word : UInt64) :
    tree.setWord addr word = .ok (tree.set addr { record with parentColor := word }) := by
  unfold RbTree.setWord
  rw [node_eq here nonnull]
  rfl

theorem set_self : (tree.set addr record).heap addr = some record := Function.update_self _ _ _

theorem set_of_ne (apart : item ≠ addr) : (tree.set addr record).heap item = tree.heap item :=
  Function.update_of_ne apart _ _

theorem redAt_eq (shows : Shows tree.heap parent sub) (nonnull : null ∉ sub.inorder) :
    tree.redAt (top sub) = .ok (decide (sub.color = .red)) := by
  unfold RbTree.redAt
  cases sub with
  | leaf =>
      exact if_pos rfl
  | node color left item right =>
      have node : item ≠ null := by
        intro same
        exact nonnull (same ▸ List.mem_append_right _ List.mem_cons_self)
      change (if item = null then _ else _) = _
      rw [if_neg node]
      change (tree.node item >>= _) = _
      rw [node_eq shows.1 node, ok_bind]
      change Except.ok (rbIsRed (pack parent color)) = _
      rw [rbIsRed_pack]
      rfl

theorem setParentColor_root (shows : Shows tree.heap parent sub) (node : top sub ≠ null)
    (distinct : sub.inorder.Nodup) (addr : Ptr) (color : Color) :
    ∃ after, tree.setParentColor (top sub) addr color = .ok after ∧ after.root = tree.root ∧
      Shows after.heap addr (paint color sub) ∧
      ∀ item, item ∉ sub.inorder → after.heap item = tree.heap item := by
  cases sub with
  | leaf => exact absurd rfl node
  | node own left item right =>
      obtain ⟨here, lower, upper⟩ := shows
      refine ⟨_, setWord_eq here node _, rfl, ?_, ?_⟩
      · have apart := List.nodup_middle.mp distinct
        rw [List.nodup_cons, List.mem_append, not_or] at apart
        refine ⟨set_self, ?_, ?_⟩
        · apply lower.frame
          intro other member
          exact set_of_ne (fun same => apart.1.1 (same ▸ member))
        · apply upper.frame
          intro other member
          exact set_of_ne (fun same => apart.1.2 (same ▸ member))
      · intro other absent
        apply set_of_ne
        intro same
        exact absent (same ▸ List.mem_append_right _ List.mem_cons_self)

theorem adoptBlack_root (shows : Shows tree.heap parent sub) (nonnull : null ∉ sub.inorder)
    (distinct : sub.inorder.Nodup) (addr : Ptr) :
    ∃ after, tree.adoptBlack (top sub) addr = .ok after ∧ after.root = tree.root ∧
      Shows after.heap addr (paint .black sub) ∧
      ∀ item, item ∉ sub.inorder → after.heap item = tree.heap item := by
  unfold RbTree.adoptBlack
  by_cases empty : top sub = null
  · rw [if_pos empty, (top_eq_null nonnull).mp empty]
    exact ⟨tree, rfl, rfl, True.intro, fun _ _ => rfl⟩
  · rw [if_neg empty]
    exact setParentColor_root shows empty distinct addr .black

theorem setParent_root (shows : Shows tree.heap parent sub) (node : top sub ≠ null)
    (distinct : sub.inorder.Nodup) (addr : Ptr) :
    ∃ after, tree.setParent (top sub) addr = .ok after ∧ after.root = tree.root ∧
      Shows after.heap addr sub ∧ ∀ item, item ∉ sub.inorder → after.heap item = tree.heap item := by
  have word : tree.setParent (top sub) addr = tree.setParentColor (top sub) addr sub.color := by
    cases sub with
    | leaf => exact absurd rfl node
    | node own left item right =>
        unfold RbTree.setParent
        change (tree.node item >>= _) = _
        rw [node_eq shows.1 node, ok_bind, pack_reparent]
        rfl
  obtain ⟨after, done, same, shown, rest⟩ := setParentColor_root shows node distinct addr sub.color
  rw [paint_self] at shown
  exact ⟨after, word.trans done, same, shown, rest⟩

theorem adopt_root (shows : Shows tree.heap parent sub)
    (nonnull : null ∉ sub.inorder) (distinct : sub.inorder.Nodup) (addr : Ptr) :
    ∃ after, tree.adopt (top sub) addr = .ok after ∧ after.root = tree.root ∧
      Shows after.heap addr sub ∧
      ∀ item, item ∉ sub.inorder → after.heap item = tree.heap item := by
  unfold RbTree.adopt
  by_cases empty : top sub = null
  · rw [if_pos empty, (top_eq_null nonnull).mp empty]
    exact ⟨tree, rfl, rfl, True.intro, fun _ _ => rfl⟩
  · rw [if_neg empty]
    exact setParent_root shows empty distinct addr

theorem setChild_hole {old : Ptr} {rest : Context Ptr}
    (around : Around tree.heap tree.root (⟨side, color, item, far⟩ :: rest) old)
    (distinct : (items (⟨side, color, item, far⟩ :: rest)).Nodup) (known : item ≠ null) (new : Ptr) :
    ∃ after, tree.setChild side item new = .ok after ∧ after.root = tree.root ∧
      Around after.heap after.root (⟨side, color, item, far⟩ :: rest) new ∧
      ∀ other, other ≠ item → after.heap other = tree.heap other := by
  obtain ⟨here, beside, beyond⟩ := around
  change (item :: far.inorder ++ items rest).Nodup at distinct
  rw [List.cons_append, List.nodup_cons, List.mem_append, not_or] at distinct
  refine ⟨_, setChild_eq here known side new, rfl, ⟨?_, ?_, ?_⟩, fun _ different => set_of_ne different⟩
  · rw [cell_setChild]
    exact set_self
  · apply beside.frame
    intro other member
    apply set_of_ne
    rintro rfl
    exact distinct.1.1 member
  · apply Around.frame beyond
    intro other member
    apply set_of_ne
    rintro rfl
    exact distinct.1.2 member

theorem changeChild_hole {old : Ptr} (around : Around tree.heap tree.root ctx old)
    (distinct : (items ctx).Nodup) (nonnull : null ∉ items ctx) (absent : old ∉ items ctx)
    (node : old ≠ null) (new : Ptr) : ∃ after, tree.changeChild old new (above ctx) = .ok after ∧
      Around after.heap after.root ctx new ∧
      ∀ item, item ∉ items ctx → after.heap item = tree.heap item := by
  cases ctx with
  | nil => exact ⟨_, rfl, rfl, fun _ _ => rfl⟩
  | cons frame rest =>
      obtain ⟨side, color, item, sibling⟩ := frame
      have known : item ≠ null := by
        intro same
        exact nonnull (same ▸ List.mem_cons_self)
      obtain ⟨after, set, _, filled, kept⟩ := setChild_hole around distinct known new
      obtain ⟨here, _, _⟩ := around
      change tree.heap item = _ at here
      refine ⟨after, ?_, filled, ?_⟩
      · change tree.changeChild old new item = _
        unfold RbTree.changeChild
        rw [if_neg known, node_eq here known, ok_bind, ← set]
        cases side with
        | left => exact if_pos rfl
        | right =>
            apply if_neg
            intro same
            change top sibling = old at same
            rw [← same] at absent node
            exact absent (List.mem_cons_of_mem _ (List.mem_append_left _ (top_mem sibling node)))
      · intro other missing
        apply kept other
        intro same
        exact missing (same ▸ List.mem_cons_self)

theorem rotateSetParents_hole {old new : Ptr} {first second : RbNode}
    (around : Around tree.heap tree.root ctx old) (distinct : (items ctx).Nodup)
    (nonnull : null ∉ items ctx) (old_absent : old ∉ items ctx) (new_absent : new ∉ items ctx)
    (apart : old ≠ new) (old_node : old ≠ null) (new_node : new ≠ null)
    (here : tree.heap old = some first) (word : first.parentColor = pack (above ctx) color)
    (there : tree.heap new = some second) (own : Color) :
    ∃ after, tree.rotateSetParents old new own = .ok after ∧
      Around after.heap after.root ctx new ∧
      after.heap new = some { second with parentColor := pack (above ctx) color } ∧
      after.heap old = some { first with parentColor := pack new own } ∧
      ∀ item, item ∉ items ctx → item ≠ old → item ≠ new → after.heap item = tree.heap item := by
  let given := tree.set new { second with parentColor := first.parentColor }
  have still : given.heap old = some first := (set_of_ne apart).trans here
  let both := given.set old { first with parentColor := pack new own }
  have kept : ∀ item, item ≠ old → item ≠ new → both.heap item = tree.heap item := by
    intro item left right
    exact (set_of_ne left).trans (set_of_ne right)
  have hole : Around both.heap both.root ctx old := by
    apply Around.frame around
    intro item member
    apply kept item
    · exact fun same => old_absent (same ▸ member)
    · exact fun same => new_absent (same ▸ member)
  obtain ⟨after, changed, filled, rest⟩ :=
    changeChild_hole hole distinct nonnull old_absent old_node new
  refine ⟨after, ?_, filled, ?_, ?_, ?_⟩
  · unfold RbTree.rotateSetParents
    rw [node_eq here old_node, ok_bind, setWord_eq there new_node, ok_bind]
    unfold RbTree.setParentColor
    rw [setWord_eq still old_node, ok_bind, word, rbParent_pack]
    exact changed
  · rw [rest new new_absent, ← word]
    exact (set_of_ne (Ne.symm apart)).trans set_self
  · rw [rest old old_absent]
    exact set_self
  · intro item missing left right
    rw [rest item missing]
    exact kept item left right

end LabKernel.Common.Rbtree
