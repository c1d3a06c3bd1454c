/-
Deletion from red-black trees.

The node with one child at most is taken out of the tree, and the hole it leaves may lack a black
node. The loop that restores the balance fills the hole by rotations or moves it up by one, and
the order of the items never changes.
-/

import LabKernel.Common.RbInsert

set_option autoImplicit false

namespace LabKernel.Common.Rbtree

open RedBlack RedBlack.Tree RedBlack.Context Outcomes

variable {tree : RbTree} {ctx : Context Ptr} {side : Side} {color : Color}

/-! ### Rotations -/

theorem rotateFar_spec {parent sibling stale own other : Ptr} {hole near far : RedBlack.Tree Ptr}
    {word : UInt64} (around : Around tree.heap tree.root ctx parent)
    (here : tree.heap parent = some (cell (pack (above ctx) color) side (top hole) stale))
    (there : tree.heap sibling = some (cell word side (top near) (top far)))
    (beside : Shows tree.heap parent hole) (middle : Shows tree.heap own near)
    (beyond : Shows tree.heap other far) (node : top far ≠ null)
    (distinct : (items ctx ++
      parent :: sibling :: (hole.inorder ++ near.inorder ++ far.inorder)).Nodup)
    (nonnull : null ∉ items ctx ++
      parent :: sibling :: (hole.inorder ++ near.inorder ++ far.inorder)) :
    ∃ after, tree.rotateFar side parent sibling (top far) = .ok after ∧
      Around after.heap after.root ctx sibling ∧
      Shows after.heap (above ctx)
        (fork side color (fork side .black hole parent near) sibling (paint .black far)) ∧
      ∀ item, item ∉ items ctx ++
          parent :: sibling :: (hole.inorder ++ near.inorder ++ far.inorder) →
        after.heap item = tree.heap item := by
  simp only [List.nodup_append, List.nodup_cons, List.mem_cons, List.mem_append, not_or] at distinct
  simp only [List.mem_cons, List.mem_append, not_or] at nonnull
  have pnode : parent ≠ null := fun same => nonnull.2.1 same.symm
  have snode : sibling ≠ null := fun same => nonnull.2.2.1 same.symm
  have apart : parent ≠ sibling := by grind
  have first := setChild_eq here pnode side.other (top near)
  rw [cell_setChild_other] at first
  generalize made : tree.set parent (cell (pack (above ctx) color) side (top hole) (top near)) = one
    at first
  have kept_one : ∀ item, item ≠ parent → one.heap item = tree.heap item := by
    intro item different
    rw [← made]
    exact set_of_ne different
  have near_one : Shows one.heap own near := middle.frame fun item member => kept_one item (by grind)
  obtain ⟨two, adopted, root_two, near_two, kept_two⟩ :=
    adopt_root near_one nonnull.2.2.2.1.2 (by grind) parent
  have s_two : two.heap sibling = some (cell word side (top near) (top far)) := by
    rw [kept_two sibling (by grind), kept_one sibling (Ne.symm apart)]
    exact there
  have third := setChild_eq s_two snode side parent
  rw [cell_setChild] at third
  generalize linked : two.set sibling (cell word side parent (top far)) = three at third
  have kept_three : ∀ item, item ≠ parent → item ≠ sibling → item ∉ near.inorder →
      three.heap item = tree.heap item := by
    intro item left right absent
    rw [← linked, set_of_ne right, kept_two item absent, kept_one item left]
  have far_three : Shows three.heap other far := beyond.frame fun item member =>
    kept_three item (by grind) (by grind) (by grind)
  obtain ⟨four, fourth, root_four, far_four, kept_four⟩ :=
    setParentColor_root far_three node (by grind) sibling .black
  have kept : ∀ item, item ≠ parent → item ≠ sibling → item ∉ near.inorder →
      item ∉ far.inorder → four.heap item = tree.heap item := by
    intro item left right absent missing
    rw [kept_four item missing]
    exact kept_three item left right absent
  have p_four : four.heap parent =
      some (cell (pack (above ctx) color) side (top hole) (top near)) := by
    rw [kept_four parent (by grind), ← linked, set_of_ne apart, kept_two parent (by grind), ← made]
    exact set_self
  have s_four : four.heap sibling = some (cell word side parent (top far)) := by
    rw [kept_four sibling (by grind), ← linked]
    exact set_self
  have around_four : Around four.heap four.root ctx parent := by
    have roots : four.root = tree.root := by
      rw [root_four, ← linked]
      change two.root = _
      rw [root_two, ← made]
      rfl
    rw [roots]
    apply around.frame
    intro item member
    apply kept item
    · grind
    · grind
    · grind
    · grind
  obtain ⟨after, turned, filled, s_after, p_after, rest⟩ :=
    rotateSetParents_hole around_four distinct.1 nonnull.1 (by grind) (by grind) apart pnode snode
      p_four (cell_word _ _ _ _) s_four .black
  rw [cell_setWord] at p_after s_after
  refine ⟨after, ?_, filled, ?_, ?_⟩
  · unfold RbTree.rotateFar
    rw [node_eq there snode, ok_bind]
    simp only [cell_child]
    rw [first, ok_bind, adopted, ok_bind, third, ok_bind, fourth, ok_bind]
    exact turned
  · rw [shows_fork, shows_fork, top_fork, top_paint]
    refine ⟨s_after, ⟨p_after, ?_, ?_⟩, ?_⟩
    · apply beside.frame
      intro item member
      rw [rest item (by grind) (by grind) (by grind)]
      exact kept item (by grind) (by grind) (by grind) (by grind)
    · apply near_two.frame
      intro item member
      rw [rest item (by grind) (by grind) (by grind), kept_four item (by grind), ← linked]
      exact set_of_ne (by grind)
    · apply far_four.frame
      intro item member
      rw [inorder_paint] at member
      exact rest item (by grind) (by grind) (by grind)
  · intro item absent
    simp only [List.mem_cons, List.mem_append, not_or] at absent
    rw [rest item absent.1 absent.2.1 absent.2.2.1]
    exact kept item absent.2.1 absent.2.2.1 absent.2.2.2.1.2 absent.2.2.2.2

theorem rotateFar_turn {parent sibling : Ptr} {hole near far : RedBlack.Tree Ptr} {own : Color}
    (holds : Holds tree ctx (fork side color hole parent (fork side own near sibling far)))
    (node : top far ≠ null) :
    ∃ after, tree.rotateFar side parent sibling (top far) = .ok after ∧
      Turned tree after ctx (fork side color hole parent (fork side own near sibling far))
        (fork side color (fork side .black hole parent near) sibling (paint .black far)) := by
  have order : (items ctx ++
        (fork side color hole parent (fork side own near sibling far)).inorder).Perm
      (items ctx ++ parent :: sibling :: (hole.inorder ++ near.inorder ++ far.inorder)) := by
    rw [List.perm_iff_count]
    intro item
    cases side with
    | left =>
        simp only [fork, RedBlack.Tree.inorder, List.count_append, List.count_cons]
        omega
    | right =>
        simp only [fork, RedBlack.Tree.inorder, List.count_append, List.count_cons]
        omega
  obtain ⟨here, beside, below⟩ := shows_fork.mp holds.shows
  obtain ⟨there, middle, beyond⟩ := shows_fork.mp below
  have around := holds.around
  rw [top_fork] at around
  obtain ⟨after, turned, filled, shown, rest⟩ := rotateFar_spec around here there beside middle
    beyond node (order.nodup_iff.mp holds.distinct)
    (fun member => holds.nonnull (order.mem_iff.mpr member))
  have same : (fork side color (fork side .black hole parent near) sibling
        (paint .black far)).inorder =
      (fork side color hole parent (fork side own near sibling far)).inorder := by
    rw [inorder_fork, inorder_paint]
    cases side with
    | left => simp [fork, RedBlack.Tree.inorder]
    | right => simp [fork, RedBlack.Tree.inorder]
  refine ⟨after, turned, ?_, same, ?_⟩
  · apply holds.turn _ shown same
    rw [top_fork]
    exact filled
  · intro item absent
    exact rest item (fun member => absent (order.mem_iff.mpr member))

theorem rotateNear_turn {parent sibling node : Ptr} {hole near inner far : RedBlack.Tree Ptr}
    (holds : Holds tree ctx (fork side color hole parent
      (fork side .black (fork side .red near node inner) sibling far)))
    (black : inner.color = .black) :
    ∃ middle after, tree.rotateNear side parent sibling node = .ok middle ∧
      middle.rotateFar side parent node sibling = .ok after ∧
      Turned tree after ctx (fork side color hole parent
          (fork side .black (fork side .red near node inner) sibling far))
        (fork side color (fork side .black hole parent near) node
          (fork side .black inner sibling far)) := by
  have order : (items ctx ++ (fork side color hole parent
        (fork side .black (fork side .red near node inner) sibling far)).inorder).Perm
      (items ctx ++ parent :: node :: (hole.inorder ++ near.inorder ++
        (fork side .black inner sibling far).inorder)) := by
    rw [List.perm_iff_count]
    intro item
    cases side with
    | left =>
        simp only [fork, RedBlack.Tree.inorder, List.count_append, List.count_cons]
        omega
    | right =>
        simp only [fork, RedBlack.Tree.inorder, List.count_append, List.count_cons]
        omega
  have distinct := order.nodup_iff.mp holds.distinct
  have nonnull : null ∉ items ctx ++ parent :: node :: (hole.inorder ++ near.inorder ++
      (fork side .black inner sibling far).inorder) :=
    fun member => holds.nonnull (order.mem_iff.mpr member)
  obtain ⟨here, beside, below⟩ := shows_fork.mp holds.shows
  obtain ⟨there, nearby, beyond⟩ := shows_fork.mp below
  obtain ⟨mine, left, right⟩ := shows_fork.mp nearby
  rw [top_fork] at here there
  have around := holds.around
  rw [top_fork] at around
  have facts := distinct
  have free := nonnull
  simp only [List.nodup_append, List.nodup_cons, List.mem_cons, List.mem_append, not_or, mem_fork,
    nodup_fork] at facts free
  have pnode : parent ≠ null := by grind
  have snode : sibling ≠ null := by grind
  have nnode : node ≠ null := by grind
  have first := setChild_eq there snode side (top inner)
  rw [cell_setChild] at first
  generalize made : tree.set sibling (cell (pack parent .black) side (top inner) (top far)) = one
    at first
  have kept_one : ∀ item, item ≠ sibling → one.heap item = tree.heap item := by
    intro item different
    rw [← made]
    exact set_of_ne different
  have inner_one : Shows one.heap node inner :=
    right.frame fun item member => kept_one item (by grind)
  obtain ⟨two, adopted, root_two, inner_two, kept_two⟩ :=
    adoptBlack_root inner_one (by grind) (by grind) sibling
  rw [← black, paint_self] at inner_two
  have n_two : two.heap node = some (cell (pack sibling .red) side (top near) (top inner)) := by
    rw [kept_two node (by grind), kept_one node (by grind)]
    exact mine
  have third := setChild_eq n_two nnode side.other sibling
  rw [cell_setChild_other] at third
  generalize linked : two.set node (cell (pack sibling .red) side (top near) sibling) = three at third
  have p_three : three.heap parent =
      some (cell (pack (above ctx) color) side (top hole) sibling) := by
    rw [← linked, set_of_ne (by grind), kept_two parent (by grind), kept_one parent (by grind)]
    exact here
  have fourth := setChild_eq p_three pnode side.other node
  rw [cell_setChild_other] at fourth
  generalize final : three.set parent (cell (pack (above ctx) color) side (top hole) node) = four
    at fourth
  have kept : ∀ item, item ≠ parent → item ≠ node → item ≠ sibling → item ∉ inner.inorder →
      four.heap item = tree.heap item := by
    intro item other another third absent
    rw [← final, set_of_ne other, ← linked, set_of_ne another, kept_two item absent,
      kept_one item third]
  have roots : four.root = tree.root := by
    rw [← final, ← linked]
    change two.root = _
    rw [root_two, ← made]
    rfl
  have p_four : four.heap parent = some (cell (pack (above ctx) color) side (top hole) node) := by
    rw [← final]
    exact set_self
  have n_four : four.heap node = some (cell (pack sibling .red) side (top near)
      (top (fork side .black inner sibling far))) := by
    rw [top_fork, ← final, set_of_ne (by grind), ← linked]
    exact set_self
  have hole_four : Around four.heap four.root ctx parent := by
    rw [roots]
    exact around.frame fun item member => kept item (by grind) (by grind) (by grind) (by grind)
  have beside_four : Shows four.heap parent hole :=
    beside.frame fun item member => kept item (by grind) (by grind) (by grind) (by grind)
  have near_four : Shows four.heap node near :=
    left.frame fun item member => kept item (by grind) (by grind) (by grind) (by grind)
  have far_four : Shows four.heap parent (fork side .black inner sibling far) := by
    rw [shows_fork]
    refine ⟨?_, ?_, ?_⟩
    · rw [← final, set_of_ne (by grind), ← linked, set_of_ne (by grind), kept_two sibling (by grind),
        ← made]
      exact set_self
    · apply inner_two.frame
      intro item member
      rw [← final, set_of_ne (by grind), ← linked, set_of_ne (by grind)]
    · exact beyond.frame fun item member => kept item (by grind) (by grind) (by grind) (by grind)
  have top_far : top (fork side .black inner sibling far) ≠ null := by
    rw [top_fork]
    exact snode
  obtain ⟨after, turned, filled, shown, rest⟩ := rotateFar_spec hole_four p_four n_four beside_four
    near_four far_four top_far distinct nonnull
  rw [top_fork] at turned
  rw [paint_fork] at shown
  have same : (fork side color (fork side .black hole parent near) node
        (fork side .black inner sibling far)).inorder =
      (fork side color hole parent
        (fork side .black (fork side .red near node inner) sibling far)).inorder := by
    cases side with
    | left => simp [fork, RedBlack.Tree.inorder]
    | right => simp [fork, RedBlack.Tree.inorder]
  refine ⟨four, after, ?_, turned, ?_, same, ?_⟩
  · unfold RbTree.rotateNear
    rw [node_eq mine nnode, ok_bind]
    simp only [cell_child_other]
    rw [first, ok_bind, adopted, ok_bind, third, ok_bind]
    exact fourth
  · apply holds.turn _ shown same
    rw [top_fork]
    exact filled
  · intro item absent
    have missing := fun member => absent (order.mem_iff.mpr member)
    rw [rest item missing]
    simp only [List.mem_cons, List.mem_append, mem_fork] at missing
    exact kept item (by grind) (by grind) (by grind) (by grind)

theorem rotateSibling_turn {parent sibling : Ptr} {hole near far : RedBlack.Tree Ptr}
    (holds : Holds tree ctx (fork side .black hole parent (fork side .red near sibling far)))
    (node : top near ≠ null) (black : near.color = .black) :
    ∃ after, tree.rotateSibling side parent sibling = .ok (top near, after) ∧
      Turned tree after ctx (fork side .black hole parent (fork side .red near sibling far))
        (fork side .black (fork side .red hole parent near) sibling far) := by
  obtain ⟨here, beside, below⟩ := shows_fork.mp holds.shows
  obtain ⟨there, middle, beyond⟩ := shows_fork.mp below
  rw [top_fork] at here
  have facts := holds.distinct
  have free := holds.nonnull
  simp only [List.nodup_append, List.nodup_cons, List.mem_append, not_or, mem_fork,
    nodup_fork] at facts free
  have pnode : parent ≠ null := by grind
  have snode : sibling ≠ null := by grind
  have apart : parent ≠ sibling := by grind
  have first := setChild_eq here pnode side.other (top near)
  rw [cell_setChild_other] at first
  generalize made : tree.set parent (cell (pack (above ctx) .black) side (top hole) (top near)) = one
    at first
  have kept_one : ∀ item, item ≠ parent → one.heap item = tree.heap item := by
    intro item different
    rw [← made]
    exact set_of_ne different
  have near_one : Shows one.heap sibling near :=
    middle.frame fun item member => kept_one item (by grind)
  obtain ⟨two, adopted, root_two, near_two, kept_two⟩ :=
    setParentColor_root near_one node (by grind) parent .black
  rw [← black, paint_self] at near_two
  have s_two : two.heap sibling = some (cell (pack parent .red) side (top near) (top far)) := by
    rw [kept_two sibling (by grind), kept_one sibling (Ne.symm apart)]
    exact there
  have third := setChild_eq s_two snode side parent
  rw [cell_setChild] at third
  generalize linked : two.set sibling (cell (pack parent .red) side parent (top far)) = three at third
  have kept : ∀ item, item ≠ parent → item ≠ sibling → item ∉ near.inorder →
      three.heap item = tree.heap item := by
    intro item left right absent
    rw [← linked, set_of_ne right, kept_two item absent, kept_one item left]
  have p_three : three.heap parent =
      some (cell (pack (above ctx) .black) side (top hole) (top near)) := by
    rw [← linked, set_of_ne apart, kept_two parent (by grind), ← made]
    exact set_self
  have s_three : three.heap sibling = some (cell (pack parent .red) side parent (top far)) := by
    rw [← linked]
    exact set_self
  have around_three : Around three.heap three.root ctx parent := by
    have roots : three.root = tree.root := by
      rw [← linked]
      change two.root = _
      rw [root_two, ← made]
      rfl
    have around := holds.around
    rw [top_fork] at around
    rw [roots]
    exact around.frame fun item member => kept item (by grind) (by grind) (by grind)
  obtain ⟨after, turned, filled, s_after, p_after, rest⟩ :=
    rotateSetParents_hole around_three facts.1 free.1 (by grind) (by grind) apart pnode snode
      p_three (cell_word _ _ _ _) s_three .red
  rw [cell_setWord] at p_after s_after
  have same : (fork side .black (fork side .red hole parent near) sibling far).inorder =
      (fork side .black hole parent (fork side .red near sibling far)).inorder := by
    cases side with
    | left => simp [fork, RedBlack.Tree.inorder]
    | right => simp [fork, RedBlack.Tree.inorder]
  refine ⟨after, ?_, ?_, same, ?_⟩
  · unfold RbTree.rotateSibling
    rw [node_eq there snode, ok_bind]
    simp only [cell_child]
    rw [first, ok_bind, adopted, ok_bind, third, ok_bind, turned]
    rfl
  · apply holds.turn _ _ same
    · rw [top_fork]
      exact filled
    · rw [shows_fork, shows_fork, top_fork]
      refine ⟨s_after, ⟨p_after, ?_, ?_⟩, ?_⟩
      · apply beside.frame
        intro item member
        rw [rest item (by grind) (by grind) (by grind)]
        exact kept item (by grind) (by grind) (by grind)
      · apply near_two.frame
        intro item member
        rw [rest item (by grind) (by grind) (by grind), ← linked]
        exact set_of_ne (by grind)
      · apply beyond.frame
        intro item member
        rw [rest item (by grind) (by grind) (by grind)]
        exact kept item (by grind) (by grind) (by grind)
  · intro item absent
    simp only [List.mem_append, mem_fork, not_or] at absent
    rw [rest item absent.1 absent.2.1 absent.2.2.2.1]
    exact kept item absent.2.1 absent.2.2.2.1 absent.2.2.2.2.1

theorem reddenSibling_turn {parent sibling : Ptr} {hole near far : RedBlack.Tree Ptr}
    (holds : Holds tree ctx (fork side color hole parent (fork side .black near sibling far))) :
    ∃ after, tree.setParentColor sibling parent .red = .ok after ∧
      Turned tree after ctx (fork side color hole parent (fork side .black near sibling far))
        (fork side color hole parent (fork side .red near sibling far)) := by
  obtain ⟨here, beside, below⟩ := shows_fork.mp holds.shows
  have facts := holds.distinct
  have free := holds.nonnull
  simp only [List.nodup_append, List.nodup_cons, List.mem_append, not_or, mem_fork,
    nodup_fork] at facts free
  have snode : top (fork side .black near sibling far) ≠ null := by
    rw [top_fork]
    grind
  have lone : (fork side .black near sibling far).inorder.Nodup := by
    rw [nodup_fork, List.nodup_cons, List.nodup_append, List.mem_append]
    grind
  obtain ⟨after, done, root, shown, rest⟩ := setParentColor_root below snode lone parent .red
  rw [top_fork] at done
  rw [paint_fork] at shown
  have kept : ∀ item, item ∈ items ctx ∨ item = parent ∨ item ∈ hole.inorder →
      after.heap item = tree.heap item := by
    intro item member
    apply rest item
    rw [mem_fork]
    grind
  have same : (fork side color hole parent (fork side .red near sibling far)).inorder =
      (fork side color hole parent (fork side .black near sibling far)).inorder := by
    rw [← paint_fork .red, inorder_fork, inorder_fork, inorder_paint]
  refine ⟨after, done, ?_, same, ?_⟩
  · apply holds.turn _ _ same
    · have around := holds.around
      rw [top_fork] at around ⊢
      rw [root]
      exact around.frame fun item member => kept item (.inl member)
    · rw [shows_fork, top_fork]
      refine ⟨?_, ?_, shown⟩
      · rw [kept parent (.inr (.inl rfl)), here, top_fork]
      · exact beside.frame fun item member => kept item (.inr (.inr member))
  · intro item absent
    apply rest item
    intro member
    exact absent (List.mem_append_right _ (mem_fork.mpr (.inr (.inr member))))

theorem blackenParent_turn {parent : Ptr} {near far : RedBlack.Tree Ptr}
    (holds : Holds tree ctx (fork side .red near parent far)) :
    ∃ after, tree.setBlack parent = .ok after ∧ Turned tree after ctx (fork side .red near parent far)
      (fork side .black near parent far) := by
  obtain ⟨here, _, _⟩ := shows_fork.mp holds.shows
  have distinct := (List.nodup_append.mp holds.distinct).2
  have pnode : top (fork side .red near parent far) ≠ null := by
    rw [top_fork]
    intro zero
    exact holds.nonnull (List.mem_append_right _ (mem_fork.mpr (.inl zero.symm)))
  obtain ⟨after, done, root, shown, rest⟩ :=
    setParentColor_root holds.shows pnode distinct.1 (above ctx) .black
  rw [top_fork] at done pnode
  rw [paint_fork] at shown
  have same :
      (fork side .black near parent far).inorder = (fork side .red near parent far).inorder := by
    rw [← paint_fork .black, inorder_paint]
  refine ⟨after, ?_, ?_, same, ?_⟩
  · unfold RbTree.setBlack
    rw [node_eq here pnode, ok_bind, cell_word, pack_blacken]
    exact done
  · apply holds.turn _ shown same
    have around := holds.around
    rw [top_fork] at around ⊢
    rw [root]
    apply around.frame
    intro item member
    exact rest item (fun inside => distinct.2 item member item inside rfl)
  · intro item absent
    exact rest item (fun member => absent (List.mem_append_right _ member))

theorem Turned.trans {before middle after : RbTree} {old between new : RedBlack.Tree Ptr}
    (first : Turned before middle ctx old between) (second : Turned middle after ctx between new) :
    Turned before after ctx old new := by
  refine ⟨second.holds, second.same.trans first.same, ?_⟩
  intro item absent
  rw [second.rest item (by rwa [first.same])]
  exact first.rest item absent

/-! ### The loop -/

theorem eraseBlack_eq {parent sibling : Ptr} {near far : RedBlack.Tree Ptr} {word : UInt64}
    (there : tree.heap sibling = some (cell word side (top near) (top far))) (snode : sibling ≠ null)
    (nearby : Shows tree.heap sibling near) (beyond : Shows tree.heap sibling far)
    (nonnull : null ∉ near.inorder ∧ null ∉ far.inorder) :
    tree.eraseBlack side parent sibling = (
      if far.color = .red then do
        let tree ← tree.rotateFar side parent sibling (top far)
        pure (none, tree)
      else if near.color = .red then do
        let tree ← tree.rotateNear side parent sibling (top near)
        let tree ← tree.rotateFar side parent (top near) sibling
        pure (none, tree)
      else do
        let tree ← tree.setParentColor sibling parent .red
        if rbIsRed (← tree.node parent).parentColor then
          let tree ← tree.setBlack parent
          pure (none, tree)
        else
          let above := rbParent (← tree.node parent).parentColor
          pure (if above = null then none else some (parent, above), tree)) := by
  unfold RbTree.eraseBlack
  simp only [node_eq there snode, ok_bind, cell_child_other, cell_child,
    redAt_eq beyond nonnull.2, redAt_eq nearby nonnull.1, decide_eq_true_eq]

theorem eraseBlack_spec {parent sibling : Ptr} {hole near far : RedBlack.Tree Ptr}
    {first second : Color}
    {height : Nat}
    (holds : Holds tree ctx (fork side color hole parent (fork side .black near sibling far)))
    (lacking : Balanced hole .black height) (lower : Balanced near first height)
    (upper : Balanced far second height)
    (expects : Expects (⟨side, color, parent, fork side .black near sibling far⟩ :: ctx) .black
      (height + 1)) :
    (∃ after, tree.eraseBlack side parent sibling = .ok (none, after) ∧ Settled tree after
        (fill ctx (fork side color hole parent (fork side .black near sibling far))).inorder) ∨
    ∃ after, tree.eraseBlack side parent sibling = .ok (some (parent, above ctx), after) ∧
      color = .black ∧ above ctx ≠ null ∧ Expects ctx .black (height + 2) ∧
      Balanced (fork side .black hole parent (fork side .red near sibling far)) .black (height + 1) ∧
      Turned tree after ctx (fork side color hole parent (fork side .black near sibling far))
        (fork side .black hole parent (fork side .red near sibling far)) := by
  obtain ⟨here, _, below⟩ := shows_fork.mp holds.shows
  obtain ⟨there, nearby, beyond⟩ := shows_fork.mp below
  have free := holds.nonnull
  simp only [List.mem_append, not_or, mem_fork] at free
  have pnode : parent ≠ null := fun zero => free.2.1 zero.symm
  have snode : sibling ≠ null := fun zero => free.2.2.2.1 zero.symm
  have top_red : ∀ {sub : RedBlack.Tree Ptr}, Balanced sub .red height → null ∉ sub.inorder →
      top sub ≠ null := by
    intro sub red absent zero
    rw [(top_eq_null absent).mp zero] at red
    cases red
  rw [eraseBlack_eq there snode nearby beyond free.2.2.2.2, upper.color_eq, lower.color_eq]
  cases second with
  | red =>
      left
      rw [if_pos rfl]
      obtain ⟨after, done, turned⟩ := rotateFar_turn holds (top_red upper free.2.2.2.2.2)
      rw [done, ok_bind]
      obtain ⟨closer, node, outer, rfl, nearer, farther⟩ := upper.of_red side
      rw [paint_fork] at turned
      have left : Balanced (fork side .black hole parent near) .black (height + 1) :=
        lacking.fork_black lower
      have right : Balanced (fork side .black closer node outer) .black (height + 1) :=
        nearer.fork_black farther
      obtain ⟨own, total, fits, whole⟩ := expects.refill left right
      exact ⟨after, rfl, turned.settle fits (whole side sibling)⟩
  | black =>
      rw [if_neg (by decide)]
      cases first with
      | red =>
          left
          rw [if_pos rfl]
          obtain ⟨closer, node, inner, rfl, nearer, farther⟩ := lower.of_red side
          obtain ⟨middle, after, turning, done, turned⟩ := rotateNear_turn holds farther.color_eq
          rw [top_fork, turning, ok_bind, done, ok_bind]
          have left : Balanced (fork side .black hole parent closer) .black (height + 1) :=
            lacking.fork_black nearer
          have right : Balanced (fork side .black inner sibling far) .black (height + 1) :=
            farther.fork_black upper
          obtain ⟨own, total, fits, whole⟩ := expects.refill left right
          exact ⟨after, rfl, turned.settle fits (whole side node)⟩
      | black =>
          rw [if_neg (by decide)]
          obtain ⟨middle, done, turned⟩ := reddenSibling_turn holds
          have at_middle := (shows_fork.mp turned.holds.shows).1
          rw [done, ok_bind, node_eq at_middle pnode, ok_bind, cell_word, rbIsRed_pack]
          cases expects with
          | @red _ _ _ _ _ higher beside =>
              left
              rw [if_pos (decide_eq_true rfl)]
              obtain ⟨after, blackened, changed⟩ := blackenParent_turn turned.holds
              rw [blackened]
              refine ⟨after, rfl, (turned.trans changed).settle higher.weaken ?_⟩
              exact lacking.fork_black (lower.fork_red upper)
          | @black _ _ _ _ _ _ _ higher beside =>
              have whole : Balanced (fork side .black hole parent (fork side .red near sibling far))
                  .black (height + 1) := lacking.fork_black (lower.fork_red upper)
              rw [if_neg (by decide), ok_bind]
              simp only [cell_word, rbParent_pack]
              by_cases last : above ctx = null
              · left
                rw [if_pos last]
                have closed : ctx = [] := by
                  cases ctx with
                  | nil => rfl
                  | cons frame rest =>
                      change frame.item = null at last
                      exact absurd (List.mem_append_left _ (last ▸ List.mem_cons_self)) holds.nonnull
                subst closed
                exact ⟨middle, rfl, turned.settle .root whole⟩
              · right
                rw [if_neg last]
                exact ⟨middle, rfl, True.intro, last, higher, whole, turned⟩

theorem eraseFixLoop_eq {parent : Ptr} {hole sibling : RedBlack.Tree Ptr} {height : Nat}
    {own : Color}
    (rounds : Nat) (holds : Holds tree ctx (fork side color hole parent sibling))
    (beside : Balanced sibling own (height + 1)) :
    RbTree.eraseFixLoop (rounds + 1) (top hole) parent tree = (do
      let (next, tree) ← if own = .red then tree.rotateSibling side parent (top sibling)
        else pure (top sibling, tree)
      let (onward, tree) ← tree.eraseBlack side parent next
      match onward with
      | none => pure tree
      | some (focus, higher) => RbTree.eraseFixLoop rounds focus higher tree) := by
  obtain ⟨here, _, below⟩ := shows_fork.mp holds.shows
  have facts := holds.distinct
  have free := holds.nonnull
  simp only [List.nodup_append, List.nodup_cons, List.mem_append, not_or, mem_fork,
    nodup_fork] at facts free
  have pnode : parent ≠ null := by grind
  have apart : top hole ≠ top sibling := by
    intro same
    have yours : top sibling ∈ sibling.inorder := by
      apply top_mem
      intro zero
      rw [(top_eq_null free.2.2.2).mp zero] at beside
      cases beside
    by_cases empty : top hole = null
    · rw [same] at empty
      rw [empty] at yours
      exact free.2.2.2 yours
    · have mine := top_mem hole empty
      grind
  have shown : ∃ record, tree.node (top sibling) = .ok record ∧
      rbIsRed record.parentColor = decide (own = .red) := by
    cases sibling with
    | leaf => cases beside
    | node shade left item right =>
        have inode : item ≠ null := by
          rintro rfl
          exact free.2.2.2 (List.mem_append_right _ List.mem_cons_self)
        refine ⟨_, node_eq below.1 inode, ?_⟩
        rw [← beside.color_eq]
        exact rbIsRed_pack _ _
  obtain ⟨record, found, red⟩ := shown
  rw [RbTree.eraseFixLoop, node_eq here pnode, ok_bind, ok_bind]
  simp only [side_of_cell apart, cell_child_other, found, ok_bind, red]
  exact if_congr decide_eq_true_iff rfl rfl

theorem eraseFixLoop_spec {rounds height : Nat} {parent : Ptr} {hole sibling : RedBlack.Tree Ptr}
    (holds : Holds tree ctx (fork side color hole parent sibling))
    (lacking : Balanced hole .black height)
    (expects : Expects (⟨side, color, parent, sibling⟩ :: ctx) .black (height + 1))
    (enough : ctx.length < rounds) :
    ∃ after, RbTree.eraseFixLoop rounds (top hole) parent tree = .ok after ∧
      Settled tree after (fill ctx (fork side color hole parent sibling)).inorder := by
  induction rounds generalizing tree ctx side color height parent hole sibling with
  | zero => omega
  | succ rounds ih =>
      obtain ⟨own, beside⟩ : ∃ own, Balanced sibling own (height + 1) := by
        cases expects with
        | red _ beside => exact ⟨_, beside⟩
        | black _ beside => exact ⟨_, beside⟩
      rw [eraseFixLoop_eq rounds holds beside]
      cases own with
      | black =>
          obtain ⟨near, item, far, first, second, rfl, lower, upper⟩ := beside.of_black side
          rw [if_neg (by decide), top_fork]
          change ∃ after, (tree.eraseBlack side parent item >>= _) = _ ∧ _
          rcases eraseBlack_spec holds lacking lower upper expects with
            ⟨after, done, settled⟩ | ⟨next, done, _, onward, higher, taller, turned⟩
          · rw [done]
            exact ⟨after, rfl, settled⟩
          · rw [done]
            cases ctx with
            | nil => exact absurd rfl onward
            | cons frame rest =>
                have short : rest.length < rounds := by
                  simp only [List.length_cons] at enough
                  omega
                obtain ⟨after, finished, settled⟩ :=
                  ih (holds_cons.mp turned.holds) taller higher short
                rw [top_fork] at finished
                exact ⟨after, finished, Settled.after settled turned⟩
      | red =>
          cases expects with
          | red _ black => exact absurd (beside.color_eq.symm.trans black.color_eq) (by decide)
          | black above _ =>
              obtain ⟨near, item, far, rfl, lower, upper⟩ := beside.of_red side
              have nnode : top near ≠ null := by
                intro zero
                have absent : null ∉ near.inorder := by
                  intro member
                  apply holds.nonnull
                  apply List.mem_append_right
                  exact mem_fork.mpr (.inr (.inr (mem_fork.mpr (.inr (.inl member)))))
                rw [(top_eq_null absent).mp zero] at lower
                cases lower
              rw [if_pos rfl, top_fork]
              obtain ⟨middle, rotated, turned⟩ := rotateSibling_turn holds nnode lower.color_eq
              obtain ⟨closer, sibling, outer, first, second, rfl, nearer, farther⟩ :=
                lower.of_black side
              rw [rotated, ok_bind, top_fork]
              change ∃ after, (middle.eraseBlack side parent sibling >>= _) = _ ∧ _
              have moved : Holds middle (⟨side, .black, item, far⟩ :: ctx)
                  (fork side .red hole parent (fork side .black closer sibling outer)) :=
                holds_cons.mpr turned.holds
              rcases eraseBlack_spec moved lacking nearer farther (.red (.black above upper) lower) with
                ⟨after, done, settled⟩ | ⟨_, _, impossible, _⟩
              · rw [done]
                exact ⟨after, rfl, Settled.after settled turned⟩
              · cases impossible

end LabKernel.Common.Rbtree
