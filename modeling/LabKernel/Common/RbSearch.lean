/-
The ways down a red-black tree.

Every descent stands at a hole, and what it has passed is on the right side of the node it
looks for. Insertion ends with a new red node in an empty hole, which is then rebalanced.
-/

import LabKernel.Common.RbInsert

set_option autoImplicit false

namespace LabKernel.Common.Rbtree

open RedBlack RedBlack.Tree RedBlack.Context Outcomes

variable {tree : RbTree} {ctx : Context Ptr} {side : Side} {color : Color}
  {cmp : Ptr → Ptr → Bool} {node : Ptr}

/-- A node that has just been given no children and no parent. -/
def bareNode : RbNode := { parentColor := 0, right := null, left := null }

theorem shows_bare {heap : Ptr → Option RbNode} {parent : Ptr}
    (here : heap node = some { bareNode with parentColor := parent.val }) :
    Shows heap parent (.node .red .leaf node .leaf) := by
  refine ⟨?_, True.intro, True.intro⟩
  rw [here, pack_red]
  rfl

/-- A new node is linked below a node without a child on this side. -/
theorem link_spec {item : Ptr} {far : RedBlack.Tree Ptr}
    (holds : Holds tree ctx (fork side color .leaf item far))
    (bare : tree.heap node = some bareNode) (nonnull : node ≠ null)
    (fresh : node ∉ items ctx ++ (fork side color .leaf item far).inorder) :
    ∃ linked after, tree.setChild side item node = .ok linked ∧
      linked.setWord node item.val = .ok after ∧
      Holds after (⟨side, color, item, far⟩ :: ctx) (.node .red .leaf node .leaf) ∧
      ∀ other, other ≠ item → other ≠ node → after.heap other = tree.heap other := by
  obtain ⟨here, _, beside⟩ := shows_fork.mp holds.shows
  have facts := holds.distinct
  have free := holds.nonnull
  have away := fresh
  simp only [List.nodup_append, List.nodup_cons, List.mem_append, not_or, mem_fork,
    nodup_fork] at facts free away
  have inode : item ≠ null := by grind
  have first := setChild_eq here inode side node
  rw [cell_setChild] at first
  generalize made : tree.set item (cell (pack (above ctx) color) side node (top far)) = linked at first
  have at_linked : linked.heap node = some bareNode := by
    rw [← made, set_of_ne away.2.1]
    exact bare
  have second := setWord_eq at_linked nonnull item.val
  generalize final : linked.set node { bareNode with parentColor := item.val } = after at second
  have kept : ∀ other, other ≠ item → other ≠ node → after.heap other = tree.heap other := by
    intro other left right
    rw [← final, set_of_ne right, ← made, set_of_ne left]
  have hole : Around after.heap after.root ctx item := by
    have roots : after.root = tree.root := by
      rw [← final, ← made]
      rfl
    have around := holds.around
    rw [top_fork] at around
    rw [roots]
    exact around.frame fun other member => kept other (by grind) (by grind)
  refine ⟨linked, after, first, second, ?_, kept⟩
  constructor
  · refine ⟨?_, ?_, hole⟩
    · rw [← final, set_of_ne (Ne.symm away.2.1), ← made]
      exact set_self
    · exact beside.frame fun other member => kept other (by grind) (by grind)
  · apply shows_bare
    rw [← final]
    exact set_self
  · change (item :: far.inorder ++ items ctx ++ [node]).Nodup
    simp only [List.nodup_append, List.nodup_cons, List.mem_append, List.mem_cons]
    grind
  · change null ∉ item :: far.inorder ++ items ctx ++ [node]
    simp only [List.mem_append, List.mem_cons]
    grind

abbrev Less (cmp : Ptr → Ptr → Bool) (left right : Ptr) : Prop := cmp left right = true

/-- Either there is an equivalent node and nothing has changed, or the new node is in its place. -/
def Placed (cmp : Ptr → Ptr → Bool) (node : Ptr) (tree : RbTree) (whole : RedBlack.Tree Ptr)
    (outcome : Except Stop (Bool × RbTree)) : Prop :=
  (outcome = .ok (false, tree) ∧
    ∃ member ∈ whole.inorder, ¬Less cmp node member ∧ ¬Less cmp member node) ∨
  ∃ after place, outcome = .ok (true, after) ∧ fill place .leaf = whole ∧
    Located (Less cmp) node place ∧ Holds after place (.node .red .leaf node .leaf) ∧
    ∀ other, other ∉ whole.inorder → other ≠ node → after.heap other = tree.heap other

theorem placed_down {item : Ptr} {near far : RedBlack.Tree Ptr} {rounds : Nat} (side : Side)
    (holds : Holds tree ctx (fork side color near item far))
    (located : Located (Less cmp) node (⟨side, color, item, far⟩ :: ctx))
    (bare : tree.heap node = some bareNode) (nonnull : node ≠ null)
    (fresh : node ∉ (fill ctx (fork side color near item far)).inorder)
    (below : top near ≠ null → Placed cmp node tree (fill ctx (fork side color near item far))
      (RbTree.insertLoop cmp node (rounds + 1) (top near) tree)) :
    Placed cmp node tree (fill ctx (fork side color near item far)) (do
      let next := (← tree.node item).child side
      if next = null then
        let tree ← tree.setChild side item node
        let tree ← tree.setWord node item.val
        RbTree.insertLoop cmp node (rounds + 1) next tree
      else RbTree.insertLoop cmp node (rounds + 1) next tree) := by
  have inode : item ≠ null := by
    intro zero
    apply holds.nonnull
    exact List.mem_append_right _ (mem_fork.mpr (.inl zero.symm))
  rw [node_eq (shows_fork.mp holds.shows).1 inode, ok_bind]
  simp only [cell_child]
  by_cases empty : top near = null
  · have leaf : near = .leaf := by
      apply (top_eq_null _).mp empty
      intro member
      apply holds.nonnull
      exact List.mem_append_right _ (mem_fork.mpr (.inr (.inl member)))
    subst leaf
    have away : node ∉ items ctx ++ (fork side color .leaf item far).inorder :=
      fun member => fresh (inorder_fill_perm.mem_iff.mpr member)
    obtain ⟨linked, after, first, second, shown, rest⟩ := link_spec holds bare nonnull away
    rw [if_pos empty, first, ok_bind, second, ok_bind]
    refine .inr ⟨after, _, ?_, rfl, located, shown, ?_⟩
    · rw [RbTree.insertLoop, if_pos empty]
      rfl
    · intro other absent different
      apply rest other _ different
      rintro rfl
      apply absent
      rw [mem_fill, mem_fork]
      exact .inr (.inl rfl)
  · rw [if_neg empty]
    exact below empty

theorem insertLoop_spec {focus : RedBlack.Tree Ptr} {rounds : Nat} (holds : Holds tree ctx focus)
    (sorted : (fill ctx focus).inorder.Pairwise (Less cmp))
    (coherent : Coherent (Less cmp) node (fill ctx focus).inorder)
    (located : Located (Less cmp) node ctx) (bare : tree.heap node = some bareNode)
    (nonnull : node ≠ null) (fresh : node ∉ (fill ctx focus).inorder)
    (start : top focus ≠ null) (enough : focus.inorder.length < rounds) :
    Placed cmp node tree (fill ctx focus) (RbTree.insertLoop cmp node rounds (top focus) tree) := by
  induction focus generalizing ctx rounds with
  | leaf => exact absurd rfl start
  | node color left item right lower upper =>
      have sizes : left.inorder.length + (right.inorder.length + 1) < rounds := by
        have total := enough
        change (left.inorder ++ item :: right.inorder).length < rounds at total
        rwa [List.length_append, List.length_cons] at total
      obtain ⟨rounds, rfl⟩ : ∃ less, rounds = less + 2 := ⟨rounds - 2, by omega⟩
      rw [RbTree.insertLoop, if_neg start]
      change Placed cmp node tree _ (if cmp node item then _ else _)
      by_cases smaller : cmp node item = true
      · rw [if_pos smaller]
        have lefter := located.goLeft sorted coherent smaller
        apply placed_down .left holds lefter bare nonnull fresh
        intro deeper
        have whole : Holds tree (⟨.left, color, item, right⟩ :: ctx) left := holds_cons.mpr holds
        exact lower whole sorted coherent lefter fresh deeper (by omega)
      · rw [if_neg smaller]
        change Placed cmp node tree _ (if cmp item node then _ else _)
        by_cases greater : cmp item node = true
        · rw [if_pos greater]
          have righter := located.goRight sorted coherent greater
          apply placed_down .right holds righter bare nonnull fresh
          intro deeper
          have whole : Holds tree (⟨.right, color, item, left⟩ :: ctx) right := holds_cons.mpr holds
          exact upper whole sorted coherent righter fresh deeper (by omega)
        · rw [if_neg greater]
          refine .inl ⟨rfl, item, ?_, smaller, greater⟩
          exact mem_fill_node.mpr (.inr (.inr (.inl rfl)))

/-! ### Insertion -/

theorem bare_spec {record : RbNode} (known : tree.heap node = some record) (nonnull : node ≠ null) :
    ∃ first second ready, tree.setChild .left node null = .ok first ∧
      first.setChild .right node null = .ok second ∧ second.setWord node 0 = .ok ready ∧
      ready.heap node = some bareNode ∧ ready.root = tree.root ∧
      ∀ other, other ≠ node → ready.heap other = tree.heap other := by
  refine ⟨_, _, _, setChild_eq known nonnull _ _, setChild_eq set_self nonnull _ _,
    setWord_eq set_self nonnull _, set_self, rfl, ?_⟩
  intro other different
  exact (set_of_ne different).trans ((set_of_ne different).trans (set_of_ne different))

theorem Holds.frame {sub : RedBlack.Tree Ptr} {after : RbTree} (holds : Holds tree ctx sub)
    (root : after.root = tree.root)
    (same : ∀ item ∈ items ctx ++ sub.inorder, after.heap item = tree.heap item) :
    Holds after ctx sub := by
  constructor
  · rw [root]
    exact holds.around.frame fun item member => same item (List.mem_append_left _ member)
  · exact holds.shows.frame fun item member => same item (List.mem_append_right _ member)
  · exact holds.distinct
  · exact holds.nonnull

theorem insertFix_spec {rounds height : Nat}
    (holds : Holds tree ctx (.node .red .leaf node .leaf)) (expects : Expects ctx .black height)
    (flat : height = 0) (enough : ctx.length < rounds) :
    ∃ after, tree.insertFix rounds node = .ok after ∧
      Settled tree after (fill ctx (.node .red .leaf node .leaf)).inorder := by
  subst flat
  have nonnull : node ≠ null := by
    intro zero
    exact holds.nonnull (List.mem_append_right _ (zero ▸ List.mem_cons_self))
  obtain ⟨after, done, settled⟩ := insertFixLoop_spec holds (.red .leaf .leaf) expects enough
  refine ⟨after, ?_, settled⟩
  unfold RbTree.insertFix
  rw [node_eq holds.shows.1 nonnull, ok_bind]
  simp only [rbRedParent_pack]
  exact done

theorem insertFix_bare {rounds : Nat} (bare : tree.heap node = some bareNode) (nonnull : node ≠ null) :
    tree.insertFix (rounds + 1) node =
      RbTree.insertFix { tree with root := node } (rounds + 1) node := by
  have moved : RbTree.heap { tree with root := node } node = some bareNode := bare
  unfold RbTree.insertFix
  rw [node_eq bare nonnull, node_eq moved nonnull, ok_bind, ok_bind]
  change RbTree.insertFixLoop (rounds + 1) node null tree =
    RbTree.insertFixLoop (rounds + 1) node null { tree with root := node }
  rw [RbTree.insertFixLoop, RbTree.insertFixLoop, if_pos rfl, if_pos rfl]
  unfold RbTree.setParentColor
  rw [setWord_eq bare nonnull, setWord_eq moved nonnull]
  rfl

theorem insert_spec {shape : RedBlack.Tree Ptr} {record : RbNode} {rounds : Nat}
    (shaped : Shaped tree shape)
    (sorted : shape.inorder.Pairwise (Less cmp))
    (coherent : Coherent (Less cmp) node shape.inorder) (known : tree.heap node = some record)
    (nonnull : node ≠ null) (fresh : node ∉ shape.inorder) (enough : shape.inorder.length < rounds) :
    (∃ after, tree.insert rounds cmp node = .ok (-1, after) ∧
      (∃ member ∈ shape.inorder, ¬Less cmp node member ∧ ¬Less cmp member node) ∧
      Shaped after shape ∧ after.heap node = some bareNode ∧
      ∀ other, other ≠ node → after.heap other = tree.heap other) ∨
    ∃ after earlier later, tree.insert rounds cmp node = .ok (0, after) ∧
      shape.inorder = earlier ++ later ∧ (∀ other ∈ earlier, Less cmp other node) ∧
      (∀ other ∈ later, Less cmp node other) ∧ Settled tree after (earlier ++ node :: later) := by
  obtain ⟨first, second, ready, one, two, three, bare, root, rest⟩ := bare_spec known nonnull
  have holds : Holds ready [] shape := by
    apply shaped.holds.frame root
    intro item member
    apply rest item
    rintro rfl
    exact fresh member
  unfold RbTree.insert
  rw [one, ok_bind, two, ok_bind, three, ok_bind]
  by_cases empty : top shape = null
  · have leaf : shape = .leaf := (top_eq_null holds.nonnull).mp empty
    subst leaf
    obtain ⟨rounds, rfl⟩ : ∃ less, rounds = less + 1 := ⟨rounds - 1, by omega⟩
    have start : ready.root = null := holds.around
    right
    have rooted : Holds { ready with root := node } [] (.node .red .leaf node .leaf) := by
      constructor
      · rfl
      · exact shows_bare bare
      · exact List.nodup_singleton node
      · exact fun member => nonnull (List.mem_singleton.mp member).symm
    obtain ⟨after, done, shape, whole, order, kept⟩ :=
      insertFix_spec rooted .root rfl (Nat.zero_lt_succ rounds)
    rw [← insertFix_bare bare nonnull] at done
    refine ⟨after, [], [], ?_, rfl, ?_, ?_, shape, whole, order, ?_⟩
    · rw [start, RbTree.insertLoop, if_pos rfl]
      change (ready.insertFix (rounds + 1) node >>= _) = _
      rw [done]
      rfl
    · intro other member
      cases member
    · intro other member
      cases member
    · intro other absent
      rw [kept other absent]
      exact rest other fun same => absent (List.mem_singleton.mpr same)
  · have start : ready.root = top shape := holds.around
    rw [start]
    rcases insertLoop_spec holds sorted coherent (.root _ _) bare nonnull fresh empty enough with
      ⟨found, equivalent⟩ | ⟨linked, place, found, whole, located, shown, kept⟩
    · left
      rw [found, ok_bind]
      exact ⟨ready, rfl, equivalent, ⟨holds, shaped.balanced⟩, bare, rest⟩
    · right
      obtain ⟨total, balanced⟩ := shaped.balanced
      change fill place .leaf = shape at whole
      rw [← whole] at balanced
      obtain ⟨color, height, hollow, expects⟩ := balanced.open
      have flat : height = 0 := by
        cases hollow
        rfl
      have short : place.length < rounds := by
        have fits := length_le_items place
        have sizes : shape.inorder.length = (items place ++ []).length := by
          rw [← whole]
          exact inorder_fill_perm.length_eq
        rw [List.length_append] at sizes
        omega
      obtain ⟨after, done, settled⟩ := insertFix_spec shown expects.weaken flat short
      have order : (fill place (.node .red .leaf node .leaf)).inorder =
          before place ++ node :: Context.after place := by
        rw [inorder_fill]
        exact List.append_assoc _ _ _
      rw [order] at settled
      have listed : shape.inorder = before place ++ Context.after place := by
        rw [← whole, inorder_fill]
        exact congrArg (· ++ _) (List.append_nil _)
      refine ⟨after, before place, Context.after place, ?_, ?_, located.below, located.above, ?_⟩
      · rw [found, ok_bind]
        change (linked.insertFix rounds node >>= _) = _
        rw [done]
        rfl
      · exact listed
      · obtain ⟨final, finished, same, others⟩ := settled
        refine ⟨final, finished, same, ?_⟩
        intro other absent
        rw [others other absent]
        have different : other ≠ node := by
          rintro rfl
          exact absent (List.mem_append_right _ List.mem_cons_self)
        rw [kept other _ different, rest other different]
        intro member
        apply absent
        change other ∈ shape.inorder at member
        rw [listed] at member
        rcases List.mem_append.mp member with low | high
        · exact List.mem_append_left _ low
        · exact List.mem_append_right _ (List.mem_cons_of_mem _ high)

/-! ### Lookup -/

theorem lookupLoop_spec {focus : RedBlack.Tree Ptr} {rounds : Nat} (holds : Holds tree ctx focus)
    (sorted : (fill ctx focus).inorder.Pairwise (Less cmp))
    (coherent : Coherent (Less cmp) node (fill ctx focus).inorder)
    (located : Located (Less cmp) node ctx) (enough : focus.inorder.length < rounds) :
    (∃ member ∈ (fill ctx focus).inorder, tree.lookupLoop cmp node rounds (top focus) = .ok member ∧
      ¬Less cmp node member ∧ ¬Less cmp member node) ∨
    (tree.lookupLoop cmp node rounds (top focus) = .ok null ∧
      ∀ member ∈ (fill ctx focus).inorder, Less cmp member node ∨ Less cmp node member) := by
  induction focus generalizing ctx rounds with
  | leaf =>
      obtain ⟨rounds, rfl⟩ : ∃ less, rounds = less + 1 := ⟨rounds - 1, by omega⟩
      right
      refine ⟨if_pos rfl, ?_⟩
      intro member inside
      rw [inorder_fill] at inside
      rcases List.mem_append.mp inside with low | high
      · rw [inorder_leaf, List.append_nil] at low
        exact .inl (located.below member low)
      · exact .inr (located.above member high)
  | node color left item right lower upper =>
      have sizes : left.inorder.length + (right.inorder.length + 1) < rounds := by
        have total := enough
        change (left.inorder ++ item :: right.inorder).length < rounds at total
        rwa [List.length_append, List.length_cons] at total
      obtain ⟨rounds, rfl⟩ : ∃ less, rounds = less + 1 := ⟨rounds - 1, by omega⟩
      have inode : item ≠ null := by
        rintro rfl
        exact holds.nonnull (List.mem_append_right _ (List.mem_append_right _ List.mem_cons_self))
      change (∃ member ∈ _, tree.lookupLoop cmp node (rounds + 1) item = _ ∧ _) ∨
        tree.lookupLoop cmp node (rounds + 1) item = _ ∧ _
      rw [RbTree.lookupLoop, if_neg inode, node_eq holds.shows.1 inode, ok_bind, ok_bind]
      by_cases smaller : cmp node item = true
      · rw [if_pos smaller]
        have whole : Holds tree (⟨.left, color, item, right⟩ :: ctx) left := holds_cons.mpr holds
        exact lower whole sorted coherent (located.goLeft sorted coherent smaller) (by omega)
      · rw [if_neg smaller]
        by_cases greater : cmp item node = true
        · rw [if_pos greater]
          have whole : Holds tree (⟨.right, color, item, left⟩ :: ctx) right := holds_cons.mpr holds
          exact upper whole sorted coherent (located.goRight sorted coherent greater) (by omega)
        · rw [if_neg greater]
          left
          refine ⟨item, ?_, rfl, smaller, greater⟩
          exact mem_fill_node.mpr (.inr (.inr (.inl rfl)))

/-- The equivalent member is found if there is one. -/
theorem lookup_spec {shape : RedBlack.Tree Ptr} {rounds : Nat} (shaped : Shaped tree shape)
    (sorted : shape.inorder.Pairwise (Less cmp)) (coherent : Coherent (Less cmp) node shape.inorder)
    (enough : shape.inorder.length < rounds) :
    (∃ member ∈ shape.inorder, tree.lookup rounds cmp node = .ok member ∧
      ¬Less cmp node member ∧ ¬Less cmp member node) ∨
    (tree.lookup rounds cmp node = .ok null ∧
      ∀ member ∈ shape.inorder, Less cmp member node ∨ Less cmp node member) := by
  have start : tree.root = top shape := shaped.holds.around
  unfold RbTree.lookup
  rw [start]
  exact lookupLoop_spec shaped.holds sorted coherent (.root _ _) enough

theorem firstLoop_spec {sub : RedBlack.Tree Ptr} {parent : Ptr} {rounds : Nat}
    (shows : Shows tree.heap parent sub) (nonnull : null ∉ sub.inorder) (start : top sub ≠ null)
    (enough : sub.inorder.length ≤ rounds) :
    tree.firstLoop rounds (top sub) = .ok (sub.inorder.headD null) := by
  induction sub generalizing parent rounds with
  | leaf => exact absurd rfl start
  | node color left item right lower upper =>
      have sizes : left.inorder.length + (right.inorder.length + 1) ≤ rounds := by
        have total := enough
        change (left.inorder ++ item :: right.inorder).length ≤ rounds at total
        rwa [List.length_append, List.length_cons] at total
      obtain ⟨rounds, rfl⟩ : ∃ less, rounds = less + 1 := ⟨rounds - 1, by omega⟩
      change null ∉ left.inorder ++ item :: right.inorder at nonnull
      rw [List.mem_append, not_or] at nonnull
      obtain ⟨here, below, _⟩ := shows
      rw [RbTree.firstLoop, show top (.node color left item right) = item from rfl,
        node_eq here start, ok_bind]
      change (if top left = null then pure item else tree.firstLoop rounds (top left)) =
        Except.ok ((left.inorder ++ item :: right.inorder).headD null)
      by_cases empty : top left = null
      · rw [if_pos empty, (top_eq_null nonnull.1).mp empty]
        rfl
      · rw [if_neg empty, lower below nonnull.1 empty (by omega)]
        have some_first : left.inorder ≠ [] := List.ne_nil_of_mem (top_mem left empty)
        cases listed : left.inorder with
        | nil => exact absurd listed some_first
        | cons first others => rfl

theorem first_spec {shape : RedBlack.Tree Ptr} {rounds : Nat} (shaped : Shaped tree shape)
    (enough : shape.inorder.length ≤ rounds) :
    tree.first rounds = .ok (shape.inorder.headD null) := by
  have start : tree.root = top shape := shaped.holds.around
  unfold RbTree.first
  rw [start]
  by_cases empty : top shape = null
  · rw [if_pos empty, (top_eq_null shaped.holds.nonnull).mp empty]
    rfl
  · rw [if_neg empty]
    exact firstLoop_spec shaped.holds.shows shaped.holds.nonnull empty enough

end LabKernel.Common.Rbtree
