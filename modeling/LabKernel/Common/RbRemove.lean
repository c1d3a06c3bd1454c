/-
Taking a node out of a red-black tree.

A node with one child at most leaves a hole over this child. A node with two children is replaced
by its successor, which leaves the hole. A path is the part of a context below a node.
-/

import LabKernel.Common.RbErase

set_option autoImplicit false

namespace LabKernel.Common.Rbtree

open RedBlack RedBlack.Tree RedBlack.Context Outcomes

variable {tree : RbTree} {ctx path : Context Ptr} {side : Side} {color : Color}

/-! ### Paths -/

/-- The node above a hole at the end of a path, below a parent. -/
def nearest (parent : Ptr) : Context Ptr → Ptr
  | [] => parent
  | frame :: _ => frame.item

/-- The pointer at the beginning of a path with this pointer in the hole. -/
def start : Context Ptr → Ptr → Ptr
  | [], below => below
  | frame :: rest, _ => start rest frame.item

/-- The nodes of a path below a parent, with this pointer in the hole. -/
def Path (heap : Ptr → Option RbNode) (parent : Ptr) : Context Ptr → Ptr → Prop
  | [], _ => True
  | frame :: rest, below =>
      heap frame.item = some
          (cell (pack (nearest parent rest) frame.color) frame.side below (top frame.sibling)) ∧
        Shows heap frame.item frame.sibling ∧ Path heap parent rest frame.item

theorem nearest_append (parent : Ptr) (path : Context Ptr) (frame : Frame Ptr) :
    nearest parent (path ++ [frame]) = nearest frame.item path := by
  cases path with
  | nil => rfl
  | cons first rest => rfl

theorem above_append (path ctx : Context Ptr) (frame : Frame Ptr) :
    above (path ++ frame :: ctx) = nearest frame.item path := by
  cases path with
  | nil => rfl
  | cons first rest => rfl

theorem start_append (path : Context Ptr) (frame : Frame Ptr) (below : Ptr) :
    start (path ++ [frame]) below = frame.item := by
  induction path generalizing below with
  | nil => rfl
  | cons first rest ih => exact ih first.item

theorem around_append {heap : Ptr → Option RbNode} {root below : Ptr} {frame : Frame Ptr} :
    Around heap root (path ++ frame :: ctx) below ↔
      Path heap frame.item path below ∧ Around heap root (frame :: ctx) (start path below) := by
  induction path generalizing below with
  | nil =>
      constructor
      · exact fun around => ⟨True.intro, around⟩
      · exact fun both => both.2
  | cons first rest ih =>
      change heap first.item = some (cell (pack (above (rest ++ frame :: ctx)) _) _ _ _) ∧ _ ∧
        Around heap root (rest ++ frame :: ctx) first.item ↔ (_ ∧ _ ∧ _) ∧ _
      rw [ih, above_append]
      constructor
      · rintro ⟨here, beside, lower, upper⟩
        exact ⟨⟨here, beside, lower⟩, upper⟩
      · rintro ⟨⟨here, beside, lower⟩, upper⟩
        exact ⟨here, beside, lower, upper⟩

theorem Path.frame {heap heap' : Ptr → Option RbNode} {parent below : Ptr}
    (shown : Path heap parent path below) (same : ∀ item ∈ items path, heap' item = heap item) :
    Path heap' parent path below := by
  induction path generalizing below with
  | nil => exact True.intro
  | cons frame rest ih =>
      obtain ⟨here, beside, beyond⟩ := shown
      refine ⟨?_, ?_, ?_⟩
      · rw [same frame.item List.mem_cons_self]
        exact here
      · apply beside.frame
        intro other member
        exact same other (List.mem_append_left _ (List.mem_cons_of_mem _ member))
      · apply ih beyond
        intro other member
        exact same other (List.mem_append_right _ member)

theorem Path.reparent {old below : Ptr} (shown : Path tree.heap old path below) (node : path ≠ [])
    (distinct : (items path).Nodup) (nonnull : null ∉ items path) (new : Ptr) :
    ∃ after, tree.setParent (start path below) new = .ok after ∧ after.root = tree.root ∧
      Path after.heap new path below ∧
      ∀ item, item ∉ items path → after.heap item = tree.heap item := by
  induction path generalizing below with
  | nil => exact absurd rfl node
  | cons frame rest ih =>
      obtain ⟨here, beside, beyond⟩ := shown
      change (frame.item :: frame.sibling.inorder ++ items rest).Nodup at distinct
      change null ∉ frame.item :: frame.sibling.inorder ++ items rest at nonnull
      have parts := distinct
      rw [List.cons_append, List.nodup_cons, List.nodup_append, List.mem_append, not_or] at parts
      have inode : frame.item ≠ null := fun zero => nonnull (zero ▸ List.mem_cons_self)
      cases rest with
      | nil =>
          have set : tree.setParent frame.item new =
              .ok (tree.set frame.item
                (cell (pack new frame.color) frame.side below (top frame.sibling))) := by
            unfold RbTree.setParent
            rw [node_eq here inode, ok_bind, cell_word, pack_reparent, setWord_eq here inode,
              cell_setWord]
          refine ⟨_, set, rfl, ⟨set_self, ?_, True.intro⟩, ?_⟩
          · apply beside.frame
            intro other member
            apply set_of_ne
            rintro rfl
            exact parts.1.1 member
          · intro other absent
            apply set_of_ne
            rintro rfl
            exact absent List.mem_cons_self
      | cons next others =>
          obtain ⟨after, done, root, shown, kept⟩ :=
            ih beyond (List.cons_ne_nil _ _) parts.2.2.1
              (fun member => nonnull (List.mem_append_right _ member))
          refine ⟨after, done, root, ⟨?_, ?_, shown⟩, ?_⟩
          · rw [kept frame.item parts.1.2]
            exact here
          · apply beside.frame
            intro other member
            apply kept other
            intro inside
            exact parts.2.2.2 other member other inside rfl
          · intro other absent
            exact kept other (fun member => absent (List.mem_append_right _ member))

theorem Path.relink {parent old : Ptr} {frame : Frame Ptr} {rest : Context Ptr}
    (shown : Path tree.heap parent (frame :: rest) old)
    (distinct : (items (frame :: rest)).Nodup) (known : frame.item ≠ null) (new : Ptr) :
    ∃ after, tree.setChild frame.side frame.item new = .ok after ∧ after.root = tree.root ∧
      Path after.heap parent (frame :: rest) new ∧
      ∀ other, other ≠ frame.item → after.heap other = tree.heap other := by
  obtain ⟨here, beside, beyond⟩ := shown
  change (frame.item :: frame.sibling.inorder ++ items rest).Nodup at distinct
  rw [List.cons_append, List.nodup_cons, List.mem_append, not_or] at distinct
  refine ⟨_, setChild_eq here known frame.side new, rfl, ⟨?_, ?_, ?_⟩,
    fun _ different => set_of_ne different⟩
  · rw [cell_setChild]
    exact set_self
  · apply beside.frame
    intro other member
    apply set_of_ne
    rintro rfl
    exact distinct.1.1 member
  · apply Path.frame beyond
    intro other member
    apply set_of_ne
    rintro rfl
    exact distinct.1.2 member

/-! ### Holes -/

/-- A node of a colour has left a hole over a subtree. Without a node in the subtree that could
become black, the balance has to be restored from the node above. -/
structure Vacated (before after : RbTree) (ctx : Context Ptr) (shade : Color)
    (rest : RedBlack.Tree Ptr)
    (rebalance : Ptr) : Prop where
  holds : Holds after ctx (paint .black rest)
  origin : rebalance = if top rest = null ∧ shade = .black then above ctx else null
  kept : ∀ item, item ∉ items ctx ++ rest.inorder → after.heap item = before.heap item

theorem Vacated.settle {before after : RbTree} {shade own : Color} {rest : RedBlack.Tree Ptr}
    {rebalance item : Ptr} {height rounds : Nat}
    (vacated : Vacated before after ctx shade rest rebalance)
    (balanced : Balanced (fork side shade .leaf item rest) own height)
    (expects : Expects ctx own height) (enough : ctx.length ≤ rounds) :
    ∃ final, (if rebalance = null then pure after
        else RbTree.eraseFixLoop rounds null rebalance after) = .ok final ∧
      Settled before final (fill ctx rest).inorder := by
  have order : (fill ctx (paint .black rest)).inorder = (fill ctx rest).inorder := by
    rw [inorder_fill, inorder_fill, inorder_paint]
  have kept : ∀ item, item ∉ (fill ctx rest).inorder → after.heap item = before.heap item :=
    fun item absent => vacated.kept item (fun member => absent (inorder_fill_perm.mem_iff.mpr member))
  have closed : ∀ {height : Nat}, Balanced (paint .black rest) .black height →
      Expects ctx .black height → Settled before after (fill ctx rest).inorder :=
    fun whole fits => ⟨fill ctx (paint .black rest), ⟨holds_fill.mp vacated.holds, fits.fill whole⟩,
      order, kept⟩
  obtain ⟨rfl, ⟨rfl, hollow, lower⟩ | ⟨rfl, below, first, second, rfl, hollow, lower⟩⟩ :=
    balanced.of_fork
  · -- a red node is not missed
    have none : rebalance = null := by
      rw [vacated.origin, if_neg (fun both => nomatch both.2)]
    cases hollow
    rw [if_pos none]
    refine ⟨after, rfl, closed ?_ expects.weaken⟩
    rw [lower.of_flat]
    exact .leaf
  · cases hollow
    cases second with
    | red =>
        -- the subtree becomes black
        obtain ⟨near, node, far, rfl, nearBlack, farBlack⟩ := lower.of_red .left
        have known : node ≠ null := by
          rintro rfl
          apply vacated.holds.nonnull
          rw [inorder_paint]
          exact List.mem_append_right _ (mem_fork.mpr (.inl rfl))
        have none : rebalance = null := by
          rw [vacated.origin, top_fork, if_neg (fun both => known both.1)]
        rw [if_pos none]
        refine ⟨after, rfl, closed ?_ expects⟩
        rw [paint_fork]
        exact nearBlack.fork_black farBlack
    | black =>
        have empty : rest = .leaf := lower.of_flat
        subst empty
        have up : rebalance = above ctx := by
          rw [vacated.origin, if_pos ⟨rfl, rfl⟩]
        cases ctx with
        | nil =>
            change rebalance = null at up
            rw [if_pos up]
            exact ⟨after, rfl, closed .leaf .root⟩
        | cons frame others =>
            obtain ⟨turn, color, parent, sibling⟩ := frame
            change rebalance = parent at up
            have known : rebalance ≠ null := by
              rw [up]
              rintro rfl
              exact vacated.holds.nonnull (List.mem_append_left _ List.mem_cons_self)
            rw [if_neg known, up]
            obtain ⟨final, done, shape, whole, same, rest⟩ :=
              eraseFixLoop_spec (holds_cons.mp vacated.holds) .leaf expects enough
            refine ⟨final, done, shape, whole, same, ?_⟩
            intro item absent
            rw [rest item absent]
            exact kept item absent

/-! ### A node with one child at most -/

theorem eraseNode_right {item : Ptr} {right : RedBlack.Tree Ptr} (rounds : Nat)
    (holds : Holds tree ctx (.node color .leaf item right)) (shade : right = .leaf ∨ color = .black) :
    ∃ after rebalance, tree.eraseNode rounds item = .ok (rebalance, after) ∧
      Vacated tree after ctx color right rebalance := by
  obtain ⟨here, _, beyond⟩ := holds.shows
  change tree.heap item = some
    { parentColor := pack (above ctx) color, right := top right, left := null } at here
  have facts := holds.distinct
  have free := holds.nonnull
  change (items ctx ++ ([] ++ item :: right.inorder)).Nodup at facts
  change null ∉ items ctx ++ ([] ++ item :: right.inorder) at free
  simp only [List.nil_append, List.nodup_append, List.nodup_cons, List.mem_cons, List.mem_append,
    not_or] at facts free
  have inode : item ≠ null := fun zero => free.2.1 zero.symm
  have around : Around tree.heap tree.root ctx item := holds.around
  obtain ⟨middle, changed, hole, kept⟩ :=
    changeChild_hole around facts.1 free.1 (by grind) inode (top right)
  have shown : Shows middle.heap item right := beyond.frame fun other member => kept other (by grind)
  have program : tree.eraseNode rounds item = (do
      let tree ← tree.changeChild item (top right) (above ctx)
      if top right = null then pure (if color = .red then null else above ctx, tree)
      else
        let tree ← tree.setParentColor (top right) (above ctx) color
        pure (null, tree)) := by
    unfold RbTree.eraseNode
    simp only [node_eq here inode, ok_bind, if_true, rbParent_pack, rbIsRed_pack, decide_eq_true_eq]
    rfl
  rw [program, changed, ok_bind]
  by_cases empty : top right = null
  · have hollow : right = .leaf := (top_eq_null free.2.2).mp empty
    subst hollow
    rw [if_pos empty]
    refine ⟨middle, _, rfl, ?_, ?_, ?_⟩
    · constructor
      · exact hole
      · exact True.intro
      · change (items ctx ++ []).Nodup
        rw [List.append_nil]
        exact facts.1
      · change null ∉ items ctx ++ []
        rw [List.append_nil]
        exact free.1
    · cases color with
      | red => rw [if_pos rfl, if_neg (fun both => nomatch both.2)]
      | black => rw [if_neg (by decide), if_pos ⟨rfl, rfl⟩]
    · intro other absent
      exact kept other (fun member => absent (List.mem_append_left _ member))
  · have black : color = .black := by
      rcases shade with rfl | black
      · exact absurd rfl empty
      · exact black
    subst black
    obtain ⟨after, painted, root, below, rest⟩ :=
      setParentColor_root shown empty facts.2.1.2 (above ctx) .black
    rw [if_neg empty, painted]
    refine ⟨after, null, rfl, ?_, ?_, ?_⟩
    · constructor
      · rw [top_paint, root]
        exact hole.frame fun other member => rest other (by grind)
      · exact below
      · rw [inorder_paint, List.nodup_append]
        grind
      · rw [inorder_paint, List.mem_append]
        grind
    · rw [if_neg (fun both => empty both.1)]
    · intro other absent
      rw [List.mem_append, not_or] at absent
      rw [rest other absent.2]
      exact kept other absent.1

theorem eraseNode_left {item : Ptr} {left : RedBlack.Tree Ptr} (rounds : Nat)
    (holds : Holds tree ctx (.node .black left item .leaf)) (node : top left ≠ null) :
    ∃ after, tree.eraseNode rounds item = .ok (null, after) ∧
      Vacated tree after ctx .black left null := by
  obtain ⟨here, below, _⟩ := holds.shows
  change tree.heap item = some
    { parentColor := pack (above ctx) .black, right := null, left := top left } at here
  have facts := holds.distinct
  have free := holds.nonnull
  change (items ctx ++ (left.inorder ++ [item])).Nodup at facts
  change null ∉ items ctx ++ (left.inorder ++ [item]) at free
  simp only [List.nodup_append, List.mem_append, List.mem_singleton, not_or] at facts free
  have inode : item ≠ null := fun zero => free.2.2 zero.symm
  obtain ⟨middle, painted, root, shown, rest⟩ :=
    setParentColor_root below node facts.2.1.1 (above ctx) .black
  have around : Around middle.heap middle.root ctx item := by
    rw [root]
    exact Around.frame holds.around fun other member => rest other (by grind)
  obtain ⟨after, changed, hole, kept⟩ :=
    changeChild_hole around facts.1 free.1 (by grind) inode (top left)
  refine ⟨after, ?_, ?_, ?_, ?_⟩
  · have program : tree.eraseNode rounds item = (do
        let tree ← tree.setParentColor (top left) (above ctx) .black
        let tree ← tree.changeChild item (top left) (above ctx)
        pure (null, tree)) := by
      unfold RbTree.eraseNode
      simp only [node_eq here inode, ok_bind, if_neg node, if_true, rbParent_pack]
      rfl
    rw [program, painted, ok_bind, changed]
    rfl
  · constructor
    · rw [top_paint]
      exact hole
    · apply shown.frame
      intro other member
      rw [inorder_paint] at member
      exact kept other (by grind)
    · rw [inorder_paint, List.nodup_append]
      grind
    · rw [inorder_paint, List.mem_append]
      grind
  · rw [if_neg (fun both => node both.1)]
  · intro other absent
    rw [List.mem_append, not_or] at absent
    rw [kept other absent.1]
    exact rest other absent.2

/-! ### The successor -/

theorem successorLoop_spec {sub : RedBlack.Tree Ptr} {parent : Ptr} (up : Ptr) {rounds : Nat}
    (shows : Shows tree.heap parent sub) (nonnull : null ∉ sub.inorder) (node : top sub ≠ null)
    (enough : sub.inorder.length ≤ rounds) :
    ∃ path shade successor rest, sub = fill path (.node shade .leaf successor rest) ∧
      (∀ frame ∈ path, frame.side = .left) ∧
      RbTree.successorLoop rounds up (top sub) tree = .ok (nearest up path, successor) := by
  induction sub generalizing parent up rounds with
  | leaf => exact absurd rfl node
  | node color left item right lower upper =>
      have sizes : left.inorder.length + (right.inorder.length + 1) ≤ rounds := by
        have total := enough
        change (left.inorder ++ item :: right.inorder).length ≤ rounds at total
        rwa [List.length_append, List.length_cons] at total
      obtain ⟨rounds, rfl⟩ : ∃ less, rounds = less + 1 := ⟨rounds - 1, by omega⟩
      change null ∉ left.inorder ++ item :: right.inorder at nonnull
      rw [List.mem_append, not_or] at nonnull
      obtain ⟨here, below, _⟩ := shows
      rw [RbTree.successorLoop, show top (.node color left item right) = item from rfl,
        node_eq here node, ok_bind]
      by_cases empty : top left = null
      · rw [if_pos empty]
        have hollow : left = .leaf := (top_eq_null nonnull.1).mp empty
        subst hollow
        refine ⟨[], color, item, right, rfl, ?_, rfl⟩
        intro frame member
        cases member
      · rw [if_neg empty]
        obtain ⟨path, shade, successor, rest, whole, lefts, found⟩ :=
          lower item below nonnull.1 empty (show left.inorder.length ≤ rounds by omega)
        refine ⟨path ++ [⟨.left, color, item, right⟩], shade, successor, rest, ?_, ?_, ?_⟩
        · rw [fill_append, ← whole]
          rfl
        · intro frame member
          rcases List.mem_append.mp member with earlier | last
          · exact lefts frame earlier
          · rw [List.mem_singleton.mp last]
        · rw [nearest_append]
          exact found

/-- The successor has been taken off its place, and only the path to it has changed. -/
structure Taken (before after : RbTree) (path : Context Ptr) (shade : Color) (successor : Ptr)
    (rest : RedBlack.Tree Ptr) : Prop where
  root : after.root = before.root
  place : ∃ own, after.heap successor =
    some (cell (pack own shade) .right (start path (top rest)) null)
  way : Path after.heap successor path (top rest)
  shows : Shows after.heap successor rest
  kept : ∀ item, item ≠ successor → item ∉ items path → after.heap item = before.heap item

theorem takeSuccessor_far {item successor : Ptr} {left rest : RedBlack.Tree Ptr} {shade : Color}
    {frame : Frame Ptr} {others : Context Ptr}
    (holds : Holds tree (frame :: others ++ ⟨.right, color, item, left⟩ :: ctx)
      (.node shade .leaf successor rest)) (turn : frame.side = .left) :
    ∃ one two after, tree.setChild .left frame.item (top rest) = .ok one ∧
      one.setChild .right successor (start (frame :: others) successor) = .ok two ∧
      two.setParent (start (frame :: others) successor) successor = .ok after ∧
      Taken tree after (frame :: others) shade successor rest := by
  have around := holds.around
  change Around tree.heap tree.root (frame :: others ++ ⟨.right, color, item, left⟩ :: ctx) successor
    at around
  have shown := (around_append.mp around).1
  obtain ⟨here, _, below⟩ := holds.shows
  have facts := holds.distinct
  have free := holds.nonnull
  rw [items_append] at facts free
  change (items (frame :: others) ++ (item :: left.inorder ++ items ctx) ++
    ([] ++ successor :: rest.inorder)).Nodup at facts
  change null ∉ items (frame :: others) ++ (item :: left.inorder ++ items ctx) ++
    ([] ++ successor :: rest.inorder) at free
  simp only [List.nil_append, List.cons_append, List.nodup_append, List.nodup_cons, List.mem_cons,
    List.mem_append, not_or] at facts free
  have first_mem : frame.item ∈ items (frame :: others) := List.mem_cons_self
  have fnode : frame.item ≠ null := by grind
  have snode : successor ≠ null := by grind
  obtain ⟨one, first, root_one, shown_one, kept_one⟩ :=
    shown.relink facts.1.1 fnode (top rest)
  rw [turn] at first
  have s_one : one.heap successor = some
      (cell (pack (above (frame :: others ++ ⟨.right, color, item, left⟩ :: ctx)) shade) .right
        (top rest) null) := by
    rw [kept_one successor (by grind)]
    exact here
  have second := setChild_eq s_one snode .right (start (frame :: others) successor)
  rw [cell_setChild] at second
  generalize made : one.set successor _ = two at second
  have shown_two : Path two.heap item (frame :: others) (top rest) := by
    apply shown_one.frame
    intro other member
    rw [← made]
    exact set_of_ne (by grind)
  obtain ⟨after, third, root, shown_after, kept⟩ :=
    shown_two.reparent (List.cons_ne_nil _ _) facts.1.1 (by grind) successor
  refine ⟨one, two, after, first, second, third, ?_, ?_, shown_after, ?_, ?_⟩
  · rw [root, ← made]
    exact root_one
  · refine ⟨above (frame :: others ++ ⟨.right, color, item, left⟩ :: ctx), ?_⟩
    rw [kept successor (by grind), ← made]
    exact set_self
  · apply below.frame
    intro other member
    rw [kept other (by grind), ← made, set_of_ne (by grind)]
    exact kept_one other (by grind)
  · intro other different absent
    rw [kept other absent, ← made, set_of_ne different]
    apply kept_one other
    rintro rfl
    exact absent first_mem

theorem takeSuccessor_spec {item : Ptr} {left right : RedBlack.Tree Ptr} {rounds : Nat}
    (holds : Holds tree ctx (.node color left item right)) (node : top right ≠ null)
    (enough : right.inorder.length ≤ rounds) :
    ∃ path shade successor rest after, right = fill path (.node shade .leaf successor rest) ∧
      (∀ frame ∈ path, frame.side = .left) ∧
      tree.takeSuccessor rounds (top right) =
        .ok (successor, nearest successor path, top rest, after) ∧
      Taken tree after path shade successor rest := by
  cases right with
  | leaf => exact absurd rfl node
  | node shade nearer child farther =>
      have free := holds.nonnull
      change null ∉ items ctx ++ (left.inorder ++ item :: (nearer.inorder ++ child :: farther.inorder))
        at free
      simp only [List.mem_append, List.mem_cons, not_or] at free
      have cnode : child ≠ null := node
      obtain ⟨_, _, here, below, beyond⟩ := holds.shows
      have sizes : nearer.inorder.length + (farther.inorder.length + 1) ≤ rounds := by
        have total := enough
        change (nearer.inorder ++ child :: farther.inorder).length ≤ rounds at total
        rwa [List.length_append, List.length_cons] at total
      change ∃ path shade' successor rest after, _ ∧ _ ∧ tree.takeSuccessor rounds child = _ ∧ _
      by_cases empty : top nearer = null
      · have hollow : nearer = .leaf := (top_eq_null free.2.2.2.1).mp empty
        subst hollow
        refine ⟨[], shade, child, farther, tree, rfl, ?_, ?_, ?_⟩
        · intro frame member
          cases member
        · unfold RbTree.takeSuccessor
          rw [node_eq here cnode, ok_bind]
          exact if_pos rfl
        · constructor
          · rfl
          · exact ⟨item, here⟩
          · exact True.intro
          · exact beyond
          · intro other _ _
            rfl
      · obtain ⟨path, deep, successor, rest, whole, lefts, found⟩ :=
          successorLoop_spec child below free.2.2.2.1 empty (show _ ≤ rounds by omega)
        subst whole
        have stands : Holds tree (path ++ [⟨.left, shade, child, farther⟩] ++
            ⟨.right, color, item, left⟩ :: ctx) (.node deep .leaf successor rest) := by
          rw [holds_fill, fill_append, fill_append]
          have whole := holds_fill.mp holds
          exact whole
        have left_path : ∀ frame ∈ path ++ [⟨.left, shade, child, farther⟩], frame.side = .left := by
          intro frame member
          rcases List.mem_append.mp member with earlier | last
          · exact lefts frame earlier
          · rw [List.mem_singleton.mp last]
        have near := nearest_append successor path ⟨.left, shade, child, farther⟩
        have starts := start_append path ⟨.left, shade, child, farther⟩
        obtain ⟨frame, others, split⟩ : ∃ frame others,
            path ++ [⟨.left, shade, child, farther⟩] = frame :: others := by
          cases path with
          | nil => exact ⟨_, _, rfl⟩
          | cons frame others => exact ⟨_, _, rfl⟩
        rw [split] at stands left_path near starts
        obtain ⟨one, two, after, first, second, third, taken⟩ :=
          takeSuccessor_far stands (left_path frame List.mem_cons_self)
        refine ⟨frame :: others, deep, successor, rest, after, ?_, left_path, ?_, taken⟩
        · rw [← split, fill_append]
          rfl
        · have snode : successor ≠ null := by
            rintro rfl
            apply stands.nonnull
            exact List.mem_append_right _ (List.mem_append_right _ List.mem_cons_self)
          rw [starts] at second third
          change frame.item = nearest child path at near
          unfold RbTree.takeSuccessor
          rw [node_eq here cnode, ok_bind]
          simp only [if_neg empty, found, ok_bind]
          rw [node_eq stands.shows.1 snode, ok_bind, ← near]
          simp only [first, ok_bind, second, third]
          rfl

theorem eraseNode_both {item : Ptr} {left right : RedBlack.Tree Ptr} {rounds : Nat}
    (holds : Holds tree ctx (.node color left item right)) (lower : top left ≠ null)
    (upper : top right ≠ null) (enough : right.inorder.length ≤ rounds) :
    ∃ path shade successor rest after rebalance,
      right = fill path (.node shade .leaf successor rest) ∧ (∀ frame ∈ path, frame.side = .left) ∧
      tree.eraseNode rounds item = .ok (rebalance, after) ∧
      Vacated tree after (path ++ ⟨.right, color, successor, left⟩ :: ctx) shade rest rebalance := by
  obtain ⟨path, shade, successor, rest, one, whole, lefts, first, taken⟩ :=
    takeSuccessor_spec holds upper enough
  obtain ⟨here, below, _⟩ := holds.shows
  have around := holds.around
  change Around tree.heap tree.root ctx item at around
  have stands : Holds tree (path ++ ⟨.right, color, item, left⟩ :: ctx)
      (.node shade .leaf successor rest) := by
    rw [holds_fill, fill_append, ← whole]
    have filled := holds_fill.mp holds
    exact filled
  have facts := stands.distinct
  have free := stands.nonnull
  rw [items_append] at facts free
  change (items path ++ (item :: left.inorder ++ items ctx) ++
    ([] ++ successor :: rest.inorder)).Nodup at facts
  change null ∉ items path ++ (item :: left.inorder ++ items ctx) ++
    ([] ++ successor :: rest.inorder) at free
  simp only [List.nil_append, List.cons_append, List.nodup_append, List.nodup_cons, List.mem_cons,
    List.mem_append, not_or] at facts free
  have inode : item ≠ null := by grind
  have snode : successor ≠ null := by grind
  -- the left subtree is handed over
  obtain ⟨own, place⟩ := taken.place
  have second := setChild_eq place snode .left (top left)
  change one.setChild .left successor (top left) = .ok (one.set successor
    (cell (pack own shade) .right (start path (top rest)) (top left))) at second
  generalize made : one.set successor _ = two at second
  have kept_two : ∀ other, other ≠ successor → other ∉ items path →
      two.heap other = tree.heap other := by
    intro other different absent
    rw [← made, set_of_ne different]
    exact taken.kept other different absent
  have left_two : Shows two.heap item left :=
    below.frame fun other member => kept_two other (by grind) (by grind)
  obtain ⟨three, third, root_three, left_three, kept_three⟩ :=
    setParent_root left_two lower (by grind) successor
  have i_three : three.heap item = some
      { parentColor := pack (above ctx) color, right := top right, left := top left } := by
    rw [kept_three item (by grind), kept_two item (by grind) (by grind)]
    exact here
  have i_one : one.heap item = some
      { parentColor := pack (above ctx) color, right := top right, left := top left } := by
    rw [taken.kept item (by grind) (by grind)]
    exact here
  have around_three : Around three.heap three.root ctx item := by
    have roots : three.root = tree.root := by
      rw [root_three, ← made]
      exact taken.root
    rw [roots]
    apply around.frame
    intro other member
    rw [kept_three other (by grind)]
    exact kept_two other (by grind) (by grind)
  -- and the place
  obtain ⟨four, fourth, hole, kept_four⟩ :=
    changeChild_hole around_three (by grind) (by grind) (by grind) inode successor
  have s_four : four.heap successor = some
      (cell (pack own shade) .right (start path (top rest)) (top left)) := by
    rw [kept_four successor (by grind), kept_three successor (by grind), ← made]
    exact set_self
  have fifth := setWord_eq s_four snode (pack (above ctx) color)
  rw [cell_setWord] at fifth
  generalize final : four.set successor _ = five at fifth
  have kept_five : ∀ other, other ≠ successor → other ∉ items ctx → other ∉ left.inorder →
      five.heap other = one.heap other := by
    intro other different outside beside
    rw [← final, set_of_ne different, kept_four other outside, kept_three other beside, ← made,
      set_of_ne different]
  have around_five : Around five.heap five.root (path ++ ⟨.right, color, successor, left⟩ :: ctx)
      (top rest) := by
    rw [around_append]
    refine ⟨?_, ?_, ?_, ?_⟩
    · apply taken.way.frame
      intro other member
      exact kept_five other (by grind) (by grind) (by grind)
    · rw [← final]
      exact set_self
    · apply left_three.frame
      intro other member
      rw [← final, set_of_ne (by grind)]
      exact kept_four other (by grind)
    · have roots : five.root = four.root := by
        rw [← final]
        rfl
      rw [roots]
      apply hole.frame
      intro other member
      rw [← final]
      exact set_of_ne (by grind)
  have rest_five : Shows five.heap successor rest := by
    apply taken.shows.frame
    intro other member
    exact kept_five other (by grind) (by grind) (by grind)
  have up : above (path ++ ⟨.right, color, successor, left⟩ :: ctx) = nearest successor path :=
    above_append _ _ _
  have program : tree.eraseNode rounds item = (
      if top rest = null then
        pure (if shade = .red then null else nearest successor path, five)
      else do
        let tree ← five.setParentColor (top rest) (nearest successor path) .black
        pure (null, tree)) := by
    unfold RbTree.eraseNode
    simp only [node_eq here inode, ok_bind, if_neg lower, if_neg upper, first, node_eq i_one inode,
      second, third, node_eq i_three inode, rbParent_pack, fourth, node_eq s_four snode, cell_word,
      rbIsRed_pack, fifth, decide_eq_true_eq]
  have distinct : (items (path ++ ⟨.right, color, successor, left⟩ :: ctx) ++ rest.inorder).Nodup := by
    rw [items_append]
    change (items path ++ (successor :: left.inorder ++ items ctx) ++ rest.inorder).Nodup
    simp only [List.cons_append, List.nodup_append, List.nodup_cons, List.mem_cons, List.mem_append]
    grind
  have nonnull : null ∉ items (path ++ ⟨.right, color, successor, left⟩ :: ctx) ++ rest.inorder := by
    rw [items_append]
    change null ∉ items path ++ (successor :: left.inorder ++ items ctx) ++ rest.inorder
    simp only [List.cons_append, List.mem_cons, List.mem_append]
    grind
  have kept : ∀ other, other ∉ items (path ++ ⟨.right, color, successor, left⟩ :: ctx) →
      five.heap other = tree.heap other := by
    intro other absent
    rw [items_append] at absent
    change other ∉ items path ++ (successor :: left.inorder ++ items ctx) at absent
    simp only [List.cons_append, List.mem_cons, List.mem_append, not_or] at absent
    rw [kept_five other absent.2.1 absent.2.2.2 absent.2.2.1]
    exact taken.kept other absent.2.1 absent.1
  rw [program]
  by_cases empty : top rest = null
  · have hollow : rest = .leaf := (top_eq_null free.2.2).mp empty
    subst hollow
    rw [if_pos empty]
    refine ⟨path, shade, successor, .leaf, five, _, whole, lefts, rfl, ?_, ?_, ?_⟩
    · exact ⟨around_five, True.intro, distinct, nonnull⟩
    · rw [up]
      cases shade with
      | red => rw [if_pos rfl, if_neg (fun both => nomatch both.2)]
      | black => rw [if_neg (by decide), if_pos ⟨rfl, rfl⟩]
    · intro other absent
      exact kept other (fun member => absent (List.mem_append_left _ member))
  · obtain ⟨six, sixth, root_six, rest_six, kept_six⟩ :=
      setParentColor_root rest_five empty (by grind) (nearest successor path) .black
    rw [if_neg empty, sixth]
    refine ⟨path, shade, successor, rest, six, null, whole, lefts, rfl, ?_, ?_, ?_⟩
    · constructor
      · rw [top_paint, root_six]
        apply around_five.frame
        intro other member
        apply kept_six other
        intro inside
        exact (List.nodup_append.mp distinct).2.2 other member other inside rfl
      · rw [up]
        exact rest_six
      · rw [inorder_paint]
        exact distinct
      · rw [inorder_paint]
        exact nonnull
    · rw [if_neg (fun both => empty both.1)]
    · intro other absent
      rw [List.mem_append, not_or] at absent
      rw [kept_six other absent.2]
      exact kept other absent.1

/-! ### Deletion -/

theorem erase_of_vacated {shade own : Color} {rest : RedBlack.Tree Ptr} {rebalance item other : Ptr}
    {after : RbTree} {order : List Ptr} {height rounds : Nat}
    (done : tree.eraseNode rounds item = .ok (rebalance, after))
    (vacated : Vacated tree after ctx shade rest rebalance)
    (balanced : Balanced (fork side shade .leaf other rest) own height)
    (expects : Expects ctx own height) (listed : (fill ctx rest).inorder = order)
    (enough : order.length ≤ rounds) :
    ∃ final, tree.erase rounds item = .ok final ∧ Settled tree final order := by
  have short : ctx.length ≤ rounds := by
    have fits := length_le_items ctx
    have sizes : order.length = (items ctx ++ rest.inorder).length := by
      rw [← listed]
      exact inorder_fill_perm.length_eq
    rw [List.length_append] at sizes
    omega
  obtain ⟨final, finished, settled⟩ := vacated.settle balanced expects short
  rw [listed] at settled
  refine ⟨final, ?_, settled⟩
  unfold RbTree.erase
  rw [done, ok_bind]
  exact finished

/-- Exactly the node is removed from the order. -/
theorem erase_spec {shape : RedBlack.Tree Ptr} {item : Ptr} {rounds : Nat}
    (shaped : Shaped tree shape)
    (member : item ∈ shape.inorder) (enough : shape.inorder.length ≤ rounds) :
    ∃ after earlier later, tree.erase rounds item = .ok after ∧
      shape.inorder = earlier ++ item :: later ∧ Settled tree after (earlier ++ later) := by
  obtain ⟨ctx, color, left, right, rfl⟩ := exists_fill member
  obtain ⟨total, tall⟩ := shaped.balanced
  obtain ⟨own, height, balanced, expects⟩ := tall.open
  have holds : Holds tree ctx (.node color left item right) := holds_fill.mpr shaped.holds
  have free := holds.nonnull
  change null ∉ items ctx ++ (left.inorder ++ item :: right.inorder) at free
  simp only [List.mem_append, List.mem_cons, not_or] at free
  have order : (fill ctx (.node color left item right)).inorder =
      (before ctx ++ left.inorder) ++ item :: (right.inorder ++ Context.after ctx) := by
    rw [inorder_fill]
    change before ctx ++ (left.inorder ++ item :: right.inorder) ++ Context.after ctx = _
    simp only [List.append_assoc, List.cons_append]
  have fewer : ((before ctx ++ left.inorder) ++ (right.inorder ++ Context.after ctx)).length + 1 =
      (fill ctx (.node color left item right)).inorder.length := by
    rw [order]
    simp only [List.length_append, List.length_cons]
    omega
  have room : ((before ctx ++ left.inorder) ++ (right.inorder ++ Context.after ctx)).length ≤ rounds := by
    omega
  suffices removed : ∃ final, tree.erase rounds item = .ok final ∧
      Settled tree final ((before ctx ++ left.inorder) ++ (right.inorder ++ Context.after ctx)) by
    obtain ⟨final, done, settled⟩ := removed
    exact ⟨final, _, _, done, order, settled⟩
  by_cases lower : top left = null
  · have hollow : left = .leaf := (top_eq_null free.2.1).mp lower
    subst hollow
    have shade : right = .leaf ∨ color = .black := by
      have parts : Balanced (fork .left color .leaf item right) own height := balanced
      obtain ⟨_, ⟨_, flat, beside⟩ | ⟨black, _⟩⟩ := parts.of_fork
      · cases flat
        exact .inl beside.of_flat
      · exact .inr black
    obtain ⟨after, rebalance, done, vacated⟩ := eraseNode_right rounds holds shade
    have parts : Balanced (fork .left color .leaf item right) own height := balanced
    apply erase_of_vacated done vacated parts expects _ room
    rw [inorder_fill]
    change _ = before ctx ++ [] ++ (right.inorder ++ Context.after ctx)
    rw [List.append_nil, List.append_assoc]
  · by_cases upper : top right = null
    · have hollow : right = .leaf := (top_eq_null free.2.2.2).mp upper
      subst hollow
      have parts : Balanced (fork .right color .leaf item left) own height := balanced
      have black : color = .black := by
        obtain ⟨_, ⟨_, flat, beside⟩ | ⟨black, _⟩⟩ := parts.of_fork
        · cases flat
          rw [beside.of_flat] at lower
          exact absurd rfl lower
        · exact black
      subst black
      obtain ⟨after, done, vacated⟩ := eraseNode_left rounds holds lower
      apply erase_of_vacated done vacated parts expects _ room
      rw [inorder_fill]
      rfl
    · have sizes : right.inorder.length ≤ rounds := by
        simp only [List.length_append] at room
        omega
      obtain ⟨path, shade, successor, rest, after, rebalance, whole, lefts, done, vacated⟩ :=
        eraseNode_both holds lower upper sizes
      have opened : Balanced (fill (path ++ ⟨.right, color, item, left⟩ :: ctx)
          (fork .left shade .leaf successor rest)) .black total := by
        rw [fill_append]
        change Balanced (fill (_ :: ctx) (fill path (.node shade .leaf successor rest))) _ _
        rw [← whole]
        exact tall
      obtain ⟨above, level, parts, fits⟩ := opened.open
      apply erase_of_vacated done vacated parts (fits.rename successor) _ room
      rw [inorder_fill, before_append, after_append, whole, inorder_fill, before_of_left lefts]
      change (before ctx ++ left.inorder ++ [successor] ++ []) ++ rest.inorder ++
        (Context.after path ++ Context.after ctx) = (before ctx ++ left.inorder) ++
        (([] ++ ([] ++ successor :: rest.inorder) ++ Context.after path) ++ Context.after ctx)
      simp only [List.append_assoc, List.append_nil, List.nil_append, List.cons_append]

end LabKernel.Common.Rbtree
