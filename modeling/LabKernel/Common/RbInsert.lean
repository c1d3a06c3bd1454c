/-
Insertion into red-black trees.

The loop that restores the balance stands at a red node in a hole for a black one. Each round
closes the hole or moves it up by two, and the order of the items never changes.
-/

import LabKernel.Common.RbHeap

set_option autoImplicit false

namespace LabKernel.Common.Rbtree

open RedBlack RedBlack.Tree RedBlack.Context Outcomes

variable {tree : RbTree} {ctx : Context Ptr} {side : Side} {color : Color}

theorem rotateOuter_spec {parent gparent stale other own : Ptr}
    {node inner uncle : RedBlack.Tree Ptr}
    {word : UInt64} (around : Around tree.heap tree.root ctx gparent)
    (here : tree.heap gparent = some (cell (pack (above ctx) color) side stale (top uncle)))
    (there : tree.heap parent = some (cell word side (top node) other))
    (outer : Shows tree.heap parent node) (middle : Shows tree.heap own inner)
    (beyond : Shows tree.heap gparent uncle) (black : inner.color = .black)
    (distinct : (items ctx ++
      gparent :: parent :: (node.inorder ++ inner.inorder ++ uncle.inorder)).Nodup)
    (nonnull : null ∉ items ctx ++
      gparent :: parent :: (node.inorder ++ inner.inorder ++ uncle.inorder)) :
    ∃ after, tree.rotateOuter side (top inner) parent gparent = .ok after ∧
      Around after.heap after.root ctx parent ∧
      Shows after.heap (above ctx) (fork side color node parent (fork side .red inner gparent uncle)) ∧
      ∀ item, item ∉ items ctx ++
          gparent :: parent :: (node.inorder ++ inner.inorder ++ uncle.inorder) →
        after.heap item = tree.heap item := by
  simp only [List.nodup_append, List.nodup_cons, List.mem_cons, List.mem_append, not_or] at distinct
  simp only [List.mem_cons, List.mem_append, not_or] at nonnull
  have gnode : gparent ≠ null := fun same => nonnull.2.1 same.symm
  have pnode : parent ≠ null := fun same => nonnull.2.2.1 same.symm
  have apart : gparent ≠ parent := by grind
  have first := setChild_eq here gnode side (top inner)
  rw [cell_setChild] at first
  generalize made : tree.set gparent (cell (pack (above ctx) color) side (top inner) (top uncle)) = one
    at first
  have kept_one : ∀ item, item ≠ gparent → one.heap item = tree.heap item := by
    intro item different
    rw [← made]
    exact set_of_ne different
  have at_one : one.heap gparent =
      some (cell (pack (above ctx) color) side (top inner) (top uncle)) := by
    rw [← made]
    exact set_self
  have inner_one : Shows one.heap own inner := middle.frame fun item member => kept_one item (by grind)
  obtain ⟨two, adopted, root_two, inner_two, kept_two⟩ :=
    adoptBlack_root inner_one nonnull.2.2.2.1.2 (by grind) gparent
  rw [← black, paint_self] at inner_two
  have at_two : two.heap parent = some (cell word side (top node) other) := by
    rw [kept_two parent (by grind), kept_one parent (Ne.symm apart)]
    exact there
  have third := setChild_eq at_two pnode side.other gparent
  rw [cell_setChild_other] at third
  generalize linked : two.set parent (cell word side (top node) gparent) = three at third
  have kept : ∀ item, item ≠ gparent → item ≠ parent → item ∉ inner.inorder →
      three.heap item = tree.heap item := by
    intro item left right absent
    rw [← linked, set_of_ne right, kept_two item absent, kept_one item left]
  have g_three : three.heap gparent =
      some (cell (pack (above ctx) color) side (top inner) (top uncle)) := by
    rw [← linked, set_of_ne apart, kept_two gparent (by grind)]
    exact at_one
  have p_three : three.heap parent = some (cell word side (top node) gparent) := by
    rw [← linked]
    exact set_self
  have around_three : Around three.heap three.root ctx gparent := by
    have roots : three.root = tree.root := by
      rw [← linked]
      change two.root = _
      rw [root_two, ← made]
      rfl
    rw [roots]
    apply around.frame
    intro item member
    apply kept item
    · grind
    · grind
    · grind
  obtain ⟨after, turned, hole, p_after, g_after, rest⟩ :=
    rotateSetParents_hole around_three distinct.1 nonnull.1 (by grind) (by grind) apart gnode pnode
      g_three (cell_word _ _ _ _) p_three .red
  rw [cell_setWord] at p_after g_after
  refine ⟨after, ?_, hole, ?_, ?_⟩
  · unfold RbTree.rotateOuter
    rw [first, ok_bind, adopted, ok_bind, third, ok_bind]
    exact turned
  · rw [shows_fork, shows_fork, top_fork]
    refine ⟨p_after, ?_, g_after, ?_, ?_⟩
    · apply outer.frame
      intro item member
      rw [rest item (by grind) (by grind) (by grind)]
      exact kept item (by grind) (by grind) (by grind)
    · apply inner_two.frame
      intro item member
      rw [rest item (by grind) (by grind) (by grind), ← linked]
      exact set_of_ne (by grind)
    · apply beyond.frame
      intro item member
      rw [rest item (by grind) (by grind) (by grind)]
      exact kept item (by grind) (by grind) (by grind)
  · intro item absent
    simp only [List.mem_cons, List.mem_append, not_or] at absent
    rw [rest item absent.1 absent.2.1 absent.2.2.1]
    exact kept item absent.2.1 absent.2.2.1 absent.2.2.2.1.2

/-- Another tree of the same items is in the place of a tree, and nothing outside has changed. -/
structure Turned (before after : RbTree) (ctx : Context Ptr) (old new : RedBlack.Tree Ptr)
    : Prop where
  holds : Holds after ctx new
  same : new.inorder = old.inorder
  rest : ∀ item, item ∉ items ctx ++ old.inorder → after.heap item = before.heap item

theorem insertRotate_outer {parent gparent : Ptr} {node inner uncle : RedBlack.Tree Ptr} (around :
      Holds tree ctx (fork side color (fork side .red node parent inner) gparent uncle))
    (red : node.color = .red) (black : inner.color = .black) :
    ∃ after, tree.insertRotate side (top node) parent gparent = .ok after ∧
      Turned tree after ctx (fork side color (fork side .red node parent inner) gparent uncle)
        (fork side color node parent (fork side .red inner gparent uncle)) := by
  have order : (items ctx ++
        (fork side color (fork side .red node parent inner) gparent uncle).inorder).Perm
      (items ctx ++ gparent :: parent :: (node.inorder ++ inner.inorder ++ uncle.inorder)) := by
    apply List.Perm.append_left
    apply inorder_fork_perm.trans
    apply List.Perm.cons
    exact inorder_fork_perm.append_right _
  have distinct := order.nodup_iff.mp around.distinct
  have nonnull : null ∉ items ctx ++
      gparent :: parent :: (node.inorder ++ inner.inorder ++ uncle.inorder) :=
    fun member => around.nonnull (order.mem_iff.mpr member)
  obtain ⟨here, below, beyond⟩ := shows_fork.mp around.shows
  obtain ⟨there, outer, middle⟩ := shows_fork.mp below
  rw [top_fork] at here
  have hole := around.around
  rw [top_fork] at hole
  obtain ⟨after, turned, filled, shown, rest⟩ :=
    rotateOuter_spec hole here there outer middle beyond black distinct nonnull
  simp only [List.nodup_append, List.nodup_cons, List.mem_cons, List.mem_append, not_or] at distinct
  simp only [List.mem_cons, List.mem_append, not_or] at nonnull
  have pnode : parent ≠ null := fun same => nonnull.2.2.1 same.symm
  have differs : top node ≠ top inner := by
    intro same
    have mine : top node ∈ node.inorder := by
      apply top_mem
      cases node with
      | leaf => cases red
      | node own left item right =>
          intro zero
          exact nonnull.2.2.2.1.1 (zero ▸ List.mem_append_right _ List.mem_cons_self)
    by_cases empty : top inner = null
    · rw [same, empty] at mine
      exact nonnull.2.2.2.1.1 mine
    · have yours := top_mem inner empty
      rw [same] at mine
      grind
  have same : (fork side color node parent (fork side .red inner gparent uncle)).inorder =
      (fork side color (fork side .red node parent inner) gparent uncle).inorder := by
    cases side with
    | left => simp [fork, RedBlack.Tree.inorder]
    | right => simp [fork, RedBlack.Tree.inorder]
  refine ⟨after, ?_, ?_, same, ?_⟩
  · unfold RbTree.insertRotate
    rw [node_eq there pnode, ok_bind, cell_child_other, if_neg differs]
    exact turned
  · apply around.turn _ shown same
    rw [top_fork]
    exact filled
  · intro item absent
    exact rest item (fun member => absent (order.mem_iff.mpr member))

theorem insertRotate_inner {node parent gparent : Ptr} {outer near far uncle : RedBlack.Tree Ptr}
    (around :
      Holds tree ctx (fork side color
        (fork side .red outer parent (fork side .red near node far)) gparent uncle))
    (nearBlack : near.color = .black) (farBlack : far.color = .black) :
    ∃ after, tree.insertRotate side node parent gparent = .ok after ∧
      Turned tree after ctx (fork side color
          (fork side .red outer parent (fork side .red near node far)) gparent uncle)
        (fork side color (fork side .red outer parent near) node (fork side .red far gparent uncle)) := by
  have order : (items ctx ++ (fork side color
        (fork side .red outer parent (fork side .red near node far)) gparent uncle).inorder).Perm
      (items ctx ++ gparent :: node ::
        ((fork side .red outer parent near).inorder ++ far.inorder ++ uncle.inorder)) := by
    rw [List.perm_iff_count]
    intro item
    cases side with
    | left =>
        simp only [fork, RedBlack.Tree.inorder, List.count_append, List.count_cons]
        omega
    | right =>
        simp only [fork, RedBlack.Tree.inorder, List.count_append, List.count_cons]
        omega
  have distinct := order.nodup_iff.mp around.distinct
  have nonnull : null ∉ items ctx ++ gparent :: node ::
      ((fork side .red outer parent near).inorder ++ far.inorder ++ uncle.inorder) :=
    fun member => around.nonnull (order.mem_iff.mpr member)
  obtain ⟨here, below, beyond⟩ := shows_fork.mp around.shows
  obtain ⟨there, beside, middle⟩ := shows_fork.mp below
  obtain ⟨mine, left, right⟩ := shows_fork.mp middle
  rw [top_fork] at here there
  have hole := around.around
  rw [top_fork] at hole
  have facts := distinct
  have free := nonnull
  simp only [List.nodup_append, List.nodup_cons, List.mem_cons, List.mem_append, not_or, mem_fork,
    nodup_fork] at facts free
  have nnode : node ≠ null := by grind
  have pnode : parent ≠ null := by grind
  -- the inner child is taken over by the parent
  have first := setChild_eq there pnode side.other (top near)
  rw [cell_setChild_other] at first
  generalize made : tree.set parent (cell (pack gparent .red) side (top outer) (top near)) = one
    at first
  have kept_one : ∀ item, item ≠ parent → one.heap item = tree.heap item := by
    intro item different
    rw [← made]
    exact set_of_ne different
  have near_one : Shows one.heap node near := left.frame fun item member => kept_one item (by grind)
  obtain ⟨two, adopted, root_two, near_two, kept_two⟩ :=
    adoptBlack_root near_one (by grind) (by grind) parent
  rw [← nearBlack, paint_self] at near_two
  have at_two : two.heap node = some (cell (pack parent .red) side (top near) (top far)) := by
    rw [kept_two node (by grind), kept_one node (by grind)]
    exact mine
  have third := setChild_eq at_two nnode side parent
  rw [cell_setChild] at third
  generalize linked : two.set node (cell (pack parent .red) side parent (top far)) = three at third
  have p_three : three.heap parent = some (cell (pack gparent .red) side (top outer) (top near)) := by
    rw [← linked, set_of_ne (by grind), kept_two parent (by grind), ← made]
    exact set_self
  have fourth := setWord_eq p_three pnode (pack node .red)
  rw [cell_setWord] at fourth
  generalize final : three.set parent (cell (pack node .red) side (top outer) (top near)) = four
    at fourth
  have n_four : four.heap node = some (cell (pack parent .red) side parent (top far)) := by
    rw [← final, set_of_ne (by grind), ← linked]
    exact set_self
  have kept : ∀ item, item ≠ parent → item ≠ node → item ∉ near.inorder →
      four.heap item = tree.heap item := by
    intro item other another absent
    rw [← final, set_of_ne other, ← linked, set_of_ne another, kept_two item absent,
      kept_one item other]
  have parent_four : Shows four.heap node (fork side .red outer parent near) := by
    rw [shows_fork]
    refine ⟨?_, ?_, ?_⟩
    · rw [← final]
      exact set_self
    · exact beside.frame fun item member => kept item (by grind) (by grind) (by grind)
    · apply near_two.frame
      intro item member
      rw [← final, set_of_ne (by grind), ← linked, set_of_ne (by grind)]
  have roots : four.root = tree.root := by
    rw [← final, ← linked]
    change two.root = _
    rw [root_two, ← made]
    rfl
  have hole_four : Around four.heap four.root ctx gparent := by
    rw [roots]
    exact hole.frame fun item member => kept item (by grind) (by grind) (by grind)
  have g_four : four.heap gparent = some (cell (pack (above ctx) color) side parent (top uncle)) := by
    rw [kept gparent (by grind) (by grind) (by grind)]
    exact here
  have far_four : Shows four.heap node far :=
    right.frame fun item member => kept item (by grind) (by grind) (by grind)
  have uncle_four : Shows four.heap gparent uncle :=
    beyond.frame fun item member => kept item (by grind) (by grind) (by grind)
  have n_shape : four.heap node = some (cell (pack parent .red) side
      (top (fork side .red outer parent near)) (top far)) := by
    rw [top_fork]
    exact n_four
  obtain ⟨after, turned, filled, shown, rest⟩ := rotateOuter_spec hole_four g_four n_shape
    parent_four far_four uncle_four farBlack distinct nonnull
  have same : (fork side color (fork side .red outer parent near) node
        (fork side .red far gparent uncle)).inorder =
      (fork side color (fork side .red outer parent (fork side .red near node far)) gparent
        uncle).inorder := by
    cases side with
    | left => simp [fork, RedBlack.Tree.inorder]
    | right => simp [fork, RedBlack.Tree.inorder]
  have inner_done : tree.rotateInner side node parent = .ok (top far, four) := by
    unfold RbTree.rotateInner
    rw [node_eq mine nnode, ok_bind]
    simp only [cell_child]
    rw [first, ok_bind, adopted, ok_bind, third, ok_bind]
    unfold RbTree.setParentColor
    rw [fourth, ok_bind, node_eq n_four nnode, ok_bind, cell_child_other]
    rfl
  refine ⟨after, ?_, ?_, same, ?_⟩
  · unfold RbTree.insertRotate
    rw [node_eq there pnode, ok_bind, cell_child_other, if_pos rfl, inner_done]
    exact turned
  · apply around.turn _ shown same
    rw [top_fork]
    exact filled
  · intro item absent
    have missing := fun member => absent (order.mem_iff.mpr member)
    rw [rest item missing]
    simp only [List.mem_cons, List.mem_append, mem_fork] at missing
    exact kept item (by grind) (by grind) (by grind)

theorem recolor_spec {gparent : Ptr} {parent uncle : RedBlack.Tree Ptr}
    (holds : Holds tree ctx (fork side color parent gparent uncle)) (pnode : top parent ≠ null)
    (unode : top uncle ≠ null) :
    ∃ after, tree.recolor (top uncle) (top parent) gparent = .ok (above ctx, after) ∧
      Turned tree after ctx (fork side color parent gparent uncle)
        (fork side .red (paint .black parent) gparent (paint .black uncle)) := by
  obtain ⟨here, near, far⟩ := shows_fork.mp holds.shows
  have facts := holds.distinct
  have free := holds.nonnull
  simp only [List.nodup_append, List.nodup_cons, List.mem_append, not_or, mem_fork,
    nodup_fork] at facts free
  have gnode : gparent ≠ null := by grind
  obtain ⟨one, first, root_one, far_one, kept_one⟩ :=
    setParentColor_root far unode (by grind) gparent .black
  have near_one : Shows one.heap gparent parent := near.frame fun item member =>
    kept_one item (by grind)
  obtain ⟨two, second, root_two, near_two, kept_two⟩ :=
    setParentColor_root near_one pnode (by grind) gparent .black
  have at_two : two.heap gparent =
      some (cell (pack (above ctx) color) side (top parent) (top uncle)) := by
    rw [kept_two gparent (by grind), kept_one gparent (by grind)]
    exact here
  have third := setWord_eq at_two gnode (pack (above ctx) .red)
  rw [cell_setWord] at third
  generalize made : two.set gparent (cell (pack (above ctx) .red) side (top parent) (top uncle)) =
    after at third
  have kept : ∀ item, item ∉ items ctx ++ (fork side color parent gparent uncle).inorder →
      after.heap item = tree.heap item := by
    intro item absent
    simp only [List.mem_append, mem_fork, not_or] at absent
    rw [← made, set_of_ne absent.2.1, kept_two item absent.2.2.1, kept_one item absent.2.2.2]
  have same : (fork side .red (paint .black parent) gparent (paint .black uncle)).inorder =
      (fork side color parent gparent uncle).inorder := by
    rw [inorder_fork, inorder_fork, inorder_paint, inorder_paint]
  have around : Around after.heap after.root ctx gparent := by
    have roots : after.root = tree.root := by
      rw [← made]
      exact root_two.trans root_one
    have hole := holds.around
    rw [top_fork] at hole
    rw [roots]
    apply hole.frame
    intro item member
    rw [← made, set_of_ne (by grind), kept_two item (by grind), kept_one item (by grind)]
  refine ⟨after, ?_, ?_, same, kept⟩
  · unfold RbTree.recolor
    rw [first, ok_bind, second, ok_bind, node_eq at_two gnode, ok_bind]
    simp only [cell_word, rbParent_pack]
    unfold RbTree.setParentColor
    rw [third]
    rfl
  · apply holds.turn _ _ same
    · rw [top_fork]
      exact around
    · rw [shows_fork, top_paint, top_paint]
      refine ⟨?_, ?_, ?_⟩
      · rw [← made]
        exact set_self
      · apply near_two.frame
        intro item member
        rw [inorder_paint] at member
        rw [← made]
        exact set_of_ne (by grind)
      · apply far_one.frame
        intro item member
        rw [inorder_paint] at member
        rw [← made, set_of_ne (by grind)]
        exact kept_two item (by grind)

/-- The memory shows a balanced tree with a black root. -/
structure Shaped (tree : RbTree) (shape : RedBlack.Tree Ptr) : Prop where
  holds : Holds tree [] shape
  balanced : ∃ height, Balanced shape .black height

theorem empty_shaped (heap : Ptr → Option RbNode) : Shaped ⟨heap, null⟩ .leaf := by
  constructor
  · exact ⟨rfl, True.intro, List.nodup_nil, List.not_mem_nil⟩
  · exact ⟨0, .leaf⟩

/-- The memory shows a balanced tree of these items, and no other node has changed. -/
def Settled (before after : RbTree) (order : List Ptr) : Prop :=
  ∃ shape, Shaped after shape ∧ shape.inorder = order ∧
    ∀ item, item ∉ order → after.heap item = before.heap item

theorem Turned.fill {before after : RbTree} {old new : RedBlack.Tree Ptr}
    (turned : Turned before after ctx old new) :
    (fill ctx new).inorder = (fill ctx old).inorder := by
  rw [inorder_fill, inorder_fill, turned.same]

theorem Turned.kept {before after : RbTree} {old new : RedBlack.Tree Ptr} {item : Ptr}
    (turned : Turned before after ctx old new) (absent : item ∉ (Context.fill ctx old).inorder) :
    after.heap item = before.heap item :=
  turned.rest item (fun member => absent (inorder_fill_perm.mem_iff.mpr member))

theorem Turned.settle {before after : RbTree} {old new : RedBlack.Tree Ptr} {own : Color}
    {height : Nat}
    (turned : Turned before after ctx old new) (expects : Expects ctx own height)
    (balanced : Balanced new own height) : Settled before after (Context.fill ctx old).inorder :=
  ⟨Context.fill ctx new, ⟨holds_fill.mp turned.holds, expects.fill balanced⟩, turned.fill,
    fun _ absent => turned.kept absent⟩

theorem Settled.after {before middle after : RbTree} {old new : RedBlack.Tree Ptr}
    (settled : Settled middle after (Context.fill ctx new).inorder)
    (turned : Turned before middle ctx old new) :
    Settled before after (Context.fill ctx old).inorder := by
  obtain ⟨shape, shaped, order, rest⟩ := settled
  rw [turned.fill] at order rest
  refine ⟨shape, shaped, order, ?_⟩
  intro item absent
  rw [rest item absent]
  exact turned.kept absent

theorem side_of_cell {word : UInt64} {near far : Ptr} (apart : near ≠ far) :
    (if near ≠ (cell word side near far).right then Side.left else Side.right) = side := by
  cases side with
  | left => exact if_pos apart
  | right => exact if_neg (not_not.mpr rfl)

theorem fork_other (side : Side) (color : Color) (near : RedBlack.Tree Ptr) (item : Ptr)
    (far : RedBlack.Tree Ptr) :
    fork side.other color near item far = fork side color far item near := by
  cases side with
  | left => rfl
  | right => rfl

/-- With a black uncle the rotations close the hole. -/
theorem insertRotate_spec {gside : Side} {parent gparent : Ptr}
    {focus sibling uncle : RedBlack.Tree Ptr}
    {height : Nat} (holds :
      Holds tree ctx (fork gside .black (fork side .red focus parent sibling) gparent uncle))
    (red : Balanced focus .red height) (beside : Balanced sibling .black height)
    (beyond : Balanced uncle .black height) (expects : Expects ctx .black (height + 1)) :
    ∃ after, tree.insertRotate gside (top focus) parent gparent = .ok after ∧
      Settled tree after (fill ctx
        (fork gside .black (fork side .red focus parent sibling) gparent uncle)).inorder := by
  by_cases outer : side = gside
  · subst outer
    obtain ⟨after, done, turned⟩ := insertRotate_outer holds red.color_eq beside.color_eq
    refine ⟨after, done, turned.settle expects ?_⟩
    exact red.fork_black (beside.fork_red beyond)
  · have inner : side = gside.other := by
      cases side with
      | left =>
          cases gside with
          | left => exact absurd rfl outer
          | right => rfl
      | right =>
          cases gside with
          | left => rfl
          | right => exact absurd rfl outer
    subst inner
    obtain ⟨near, node, far, rfl, nearBlack, farBlack⟩ := red.of_red gside
    rw [fork_other] at holds ⊢
    rw [top_fork]
    obtain ⟨after, done, turned⟩ :=
      insertRotate_inner holds nearBlack.color_eq farBlack.color_eq
    refine ⟨after, done, turned.settle expects ?_⟩
    exact (beside.fork_red nearBlack).fork_black (farBlack.fork_red beyond)

theorem insertFixLoop_red {gside : Side} {parent gparent : Ptr}
    {focus sibling uncle : RedBlack.Tree Ptr}
    (rounds : Nat) (holds : Holds tree ctx
      (fork gside .black (fork side .red focus parent sibling) gparent uncle)) :
    RbTree.insertFixLoop (rounds + 1) (top focus) parent tree =
      if uncle.color = .red then do
        let (higher, tree) ← tree.recolor (top uncle) parent gparent
        RbTree.insertFixLoop rounds gparent higher tree
      else tree.insertRotate gside (top focus) parent gparent := by
  obtain ⟨there, below, beyond⟩ := shows_fork.mp holds.shows
  obtain ⟨here, _, _⟩ := shows_fork.mp below
  rw [top_fork] at there
  have facts := holds.distinct
  have free := holds.nonnull
  simp only [List.nodup_append, List.nodup_cons, List.mem_append, not_or, mem_fork,
    nodup_fork] at facts free
  have pnode : parent ≠ null := by grind
  have gnode : gparent ≠ null := by grind
  have apart : parent ≠ top uncle := by
    intro same
    have yours : top uncle ∈ uncle.inorder := top_mem uncle (same ▸ pnode)
    grind
  rw [RbTree.insertFixLoop, if_neg pnode, node_eq here pnode, ok_bind, cell_word, rbIsRed_pack,
    if_pos (decide_eq_true rfl), rbRedParent_pack, ok_bind, node_eq there gnode, ok_bind]
  simp only [side_of_cell apart]
  rw [ok_bind, cell_child_other, redAt_eq beyond (by grind), ok_bind]
  simp only [decide_eq_true_eq]

theorem insertFixLoop_spec {rounds height : Nat} {focus : RedBlack.Tree Ptr}
    (holds : Holds tree ctx focus)
    (red : Balanced focus .red height) (expects : Expects ctx .black height)
    (enough : ctx.length < rounds) :
    ∃ after, RbTree.insertFixLoop rounds (top focus) (above ctx) tree = .ok after ∧
      Settled tree after (fill ctx focus).inorder := by
  induction rounds generalizing tree ctx focus height with
  | zero => omega
  | succ rounds ih =>
      have free := holds.nonnull
      have facts := holds.distinct
      have node : top focus ≠ null := by
        intro zero
        rw [List.mem_append, not_or] at free
        rw [(top_eq_null free.2).mp zero] at red
        cases red
      unfold RbTree.insertFixLoop
      cases expects with
      | root =>
          rw [if_pos (show above ([] : Context Ptr) = null from rfl)]
          obtain ⟨after, done, root, shows, rest⟩ :=
            setParentColor_root holds.shows node (List.nodup_append.mp facts).2.1 null .black
          rw [done, ok_bind]
          obtain ⟨near, item, far, rfl, nearBlack, farBlack⟩ := red.of_red .left
          refine ⟨_, rfl, paint .black (fork .left .red near item far), ⟨?_, ?_⟩, ?_, ?_⟩
          · constructor
            · rfl
            · exact shows
            · rw [inorder_paint]
              exact facts
            · rw [inorder_paint]
              exact free
          · rw [paint_fork]
            exact ⟨_, nearBlack.fork_black farBlack⟩
          · exact inorder_paint _ _
          · exact rest
      | @black side parent sibling rest _ own _ higher beside =>
          obtain ⟨here, _, _⟩ := holds.around
          have pnode : parent ≠ null := fun zero => free (zero ▸ List.mem_cons_self)
          rw [if_neg (show above (⟨side, .black, parent, sibling⟩ :: rest) ≠ null from pnode)]
          change ∃ after, (tree.node parent >>= _) = _ ∧ _
          rw [node_eq here pnode, ok_bind, cell_word, rbIsRed_pack]
          have wide : Expects (⟨side, .black, parent, sibling⟩ :: rest) .red height :=
            .black higher beside
          exact ⟨tree, rfl, _, ⟨holds_fill.mp holds, wide.fill red⟩, rfl, fun _ _ => rfl⟩
      | @red side parent sibling rest _ higher beside =>
          cases higher with
          | @black gside gparent uncle rest _ shade _ highest beyond =>
              have whole := holds_cons.mp (holds_cons.mp holds)
              change ∃ after, RbTree.insertFixLoop (rounds + 1) (top focus) parent tree = _ ∧
                Settled tree after (fill rest
                  (fork gside .black (fork side .red focus parent sibling) gparent uncle)).inorder
              rw [insertFixLoop_red rounds whole]
              cases shade with
              | red =>
                  rw [if_pos beyond.color_eq]
                  obtain ⟨near, item, far, made, nearBlack, farBlack⟩ := beyond.of_red gside
                  have unode : top uncle ≠ null := by
                    rw [made, top_fork]
                    intro zero
                    apply whole.nonnull
                    have mine : null ∈ uncle.inorder := by
                      rw [made]
                      exact mem_fork.mpr (.inl zero.symm)
                    exact List.mem_append_right _ (mem_fork.mpr (.inr (.inr mine)))
                  have pnode : top (fork side .red focus parent sibling) ≠ null := by
                    rw [top_fork]
                    exact fun zero => free (zero ▸ List.mem_cons_self)
                  obtain ⟨next, done, turned⟩ := recolor_spec whole pnode unode
                  rw [top_fork] at done
                  rw [done, ok_bind]
                  rw [paint_fork] at turned
                  have lifted : Balanced (fork gside .red (fork side .black focus parent sibling)
                      gparent (paint .black uncle)) .red (height + 1) := by
                    apply Balanced.fork_red (red.fork_black beside)
                    rw [made, paint_fork]
                    exact nearBlack.fork_black farBlack
                  have short : rest.length < rounds := by
                    simp only [List.length_cons] at enough
                    omega
                  obtain ⟨after, finished, settled⟩ := ih turned.holds lifted highest short
                  rw [top_fork] at finished
                  exact ⟨after, finished, settled.after turned⟩
              | black =>
                  rw [if_neg (by rw [beyond.color_eq]; decide)]
                  exact insertRotate_spec whole red beside beyond highest

end LabKernel.Common.Rbtree
