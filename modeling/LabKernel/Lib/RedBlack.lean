/-
Red-black trees and their contexts.

A context is a path upwards from a hole, with the subtrees beside it. It is balanced for a hole
of a colour and a black height, so a tree is opened at any place and closed again with another
subtree of the same height. Nothing here names a program.
-/

import Mathlib.Data.List.Perm.Basic
import Mathlib.Data.List.Nodup
import Mathlib.Data.List.Pairwise
import Mathlib.Order.RelClasses

set_option autoImplicit false

namespace LabKernel.RedBlack

inductive Color where
  | red
  | black
  deriving DecidableEq, Repr

inductive Side where
  | left
  | right
  deriving DecidableEq, Repr

def Side.other : Side → Side
  | .left => .right
  | .right => .left

inductive Tree (Item : Type) where
  | leaf
  | node (color : Color) (left : Tree Item) (item : Item) (right : Tree Item)

/-- What lies above a hole: the side the hole is on, the item and the other subtree. -/
structure Frame (Item : Type) where
  side : Side
  color : Color
  item : Item
  sibling : Tree Item

abbrev Context (Item : Type) := List (Frame Item)

variable {Item : Type}

namespace Tree

def color : Tree Item → Color
  | .leaf => .black
  | .node color _ _ _ => color

def fork (side : Side) (color : Color) (near : Tree Item) (item : Item) (far : Tree Item) :
    Tree Item :=
  match side with
  | .left => .node color near item far
  | .right => .node color far item near

def paint (color : Color) : Tree Item → Tree Item
  | .leaf => .leaf
  | .node _ left item right => .node color left item right

def inorder : Tree Item → List Item
  | .leaf => []
  | .node _ left item right => left.inorder ++ item :: right.inorder

/-- No red node has a red child, and every path down has this number of black nodes. -/
inductive Balanced : Tree Item → Color → Nat → Prop
  | leaf : Balanced .leaf .black 0
  | red {left right : Tree Item} {item : Item} {height : Nat} (lower : Balanced left .black height)
      (upper : Balanced right .black height) : Balanced (.node .red left item right) .red height
  | black {left right : Tree Item} {item : Item} {height : Nat} {first second : Color}
      (lower : Balanced left first height) (upper : Balanced right second height) :
      Balanced (.node .black left item right) .black (height + 1)

end Tree

open RedBlack.Tree

namespace Context

def fill : Context Item → Tree Item → Tree Item
  | [], tree => tree
  | frame :: rest, tree =>
      fill rest (fork frame.side frame.color tree frame.item frame.sibling)

def before : Context Item → List Item
  | [] => []
  | frame :: rest =>
      match frame.side with
      | .left => before rest
      | .right => before rest ++ frame.sibling.inorder ++ [frame.item]

def after : Context Item → List Item
  | [] => []
  | frame :: rest =>
      match frame.side with
      | .left => frame.item :: frame.sibling.inorder ++ after rest
      | .right => after rest

def items : Context Item → List Item
  | [] => []
  | frame :: rest => frame.item :: frame.sibling.inorder ++ items rest

/-- A subtree of this colour and height in the hole makes a balanced tree with a black root. A
hole for a red tree takes a black one too. -/
inductive Expects : Context Item → Color → Nat → Prop
  | root {height : Nat} : Expects [] .black height
  | red {side : Side} {item : Item} {sibling : Tree Item} {rest : Context Item} {height : Nat}
      (above : Expects rest .red height) (beside : Balanced sibling .black height) :
      Expects (⟨side, .red, item, sibling⟩ :: rest) .black height
  | black {side : Side} {item : Item} {sibling : Tree Item} {rest : Context Item} {height : Nat}
      {color own : Color} (above : Expects rest .black (height + 1))
      (beside : Balanced sibling color height) :
      Expects (⟨side, .black, item, sibling⟩ :: rest) own height

end Context

open Context

variable {ctx : Context Item} {tree near far : Tree Item} {side : Side} {color : Color}
  {item : Item} {height : Nat}

@[simp]
theorem inorder_leaf : (Tree.leaf : Tree Item).inorder = [] := rfl

theorem inorder_fork : (fork side color near item far).inorder =
    match side with
    | .left => near.inorder ++ item :: far.inorder
    | .right => far.inorder ++ item :: near.inorder := by
  cases side with
  | left => rfl
  | right => rfl

theorem inorder_fork_perm : (fork side color near item far).inorder.Perm
    (item :: (near.inorder ++ far.inorder)) := by
  cases side with
  | left => exact List.perm_middle
  | right => exact List.perm_middle.trans (List.Perm.cons item List.perm_append_comm)

theorem mem_fork {other : Item} : other ∈ (fork side color near item far).inorder ↔
    other = item ∨ other ∈ near.inorder ∨ other ∈ far.inorder := by
  rw [inorder_fork_perm.mem_iff, List.mem_cons, List.mem_append]

theorem nodup_fork : (fork side color near item far).inorder.Nodup ↔
    (item :: (near.inorder ++ far.inorder)).Nodup := inorder_fork_perm.nodup_iff

@[simp]
theorem inorder_paint (color : Color) (tree : Tree Item) :
    (paint color tree).inorder = tree.inorder := by
  cases tree with
  | leaf => rfl
  | node own left item right => rfl

theorem paint_self (tree : Tree Item) : paint tree.color tree = tree := by
  cases tree with
  | leaf => rfl
  | node own left item right => rfl

theorem paint_fork (own : Color) :
    paint own (fork side color near item far) = fork side own near item far := by
  cases side with
  | left => rfl
  | right => rfl

theorem inorder_fill : (fill ctx tree).inorder = before ctx ++ tree.inorder ++ after ctx := by
  induction ctx generalizing tree with
  | nil => exact (List.append_nil _).symm
  | cons frame rest ih =>
      obtain ⟨side, color, item, sibling⟩ := frame
      unfold fill before after
      rw [ih, inorder_fork]
      cases side with
      | left => simp only [List.append_assoc, List.cons_append]
      | right => simp only [List.append_assoc, List.cons_append, List.nil_append]

theorem items_perm (ctx : Context Item) : (before ctx ++ after ctx).Perm (items ctx) := by
  induction ctx with
  | nil => exact List.Perm.refl _
  | cons frame rest ih =>
      obtain ⟨side, color, item, sibling⟩ := frame
      unfold before after items
      cases side with
      | left =>
          change (before rest ++ (item :: sibling.inorder ++ after rest)).Perm _
          exact (List.perm_append_comm_assoc _ _ _).trans (ih.append_left _)
      | right =>
          change (before rest ++ sibling.inorder ++ [item] ++ after rest).Perm _
          simp only [List.append_assoc, List.singleton_append]
          have moved : (before rest ++ (sibling.inorder ++ item :: after rest)).Perm
              (before rest ++ (item :: sibling.inorder ++ after rest)) :=
            List.perm_middle.append_left _
          exact moved.trans ((List.perm_append_comm_assoc _ _ _).trans (ih.append_left _))

theorem fill_append (path : Context Item) : fill (path ++ ctx) tree = fill ctx (fill path tree) := by
  induction path generalizing tree with
  | nil => rfl
  | cons frame rest ih => exact ih

theorem before_append (path ctx : Context Item) :
    before (path ++ ctx) = before ctx ++ before path := by
  induction path with
  | nil => exact (List.append_nil _).symm
  | cons frame rest ih =>
      obtain ⟨side, color, item, sibling⟩ := frame
      cases side with
      | left => exact ih
      | right =>
          change before (rest ++ ctx) ++ sibling.inorder ++ [item] = _
          rw [ih, List.append_assoc, List.append_assoc]
          exact congrArg (before ctx ++ ·) (List.append_assoc _ _ _).symm

theorem after_append (path ctx : Context Item) : after (path ++ ctx) = after path ++ after ctx := by
  induction path with
  | nil => rfl
  | cons frame rest ih =>
      obtain ⟨side, color, item, sibling⟩ := frame
      cases side with
      | left =>
          change item :: sibling.inorder ++ after (rest ++ ctx) = _
          rw [ih, ← List.append_assoc]
          rfl
      | right => exact ih

theorem items_append (path ctx : Context Item) : items (path ++ ctx) = items path ++ items ctx := by
  induction path with
  | nil => rfl
  | cons frame rest ih =>
      change frame.item :: frame.sibling.inorder ++ items (rest ++ ctx) = _
      rw [ih, ← List.append_assoc]
      rfl

theorem before_of_left {path : Context Item} (lefts : ∀ frame ∈ path, frame.side = .left) :
    before path = [] := by
  induction path with
  | nil => rfl
  | cons frame rest ih =>
      obtain ⟨side, color, item, sibling⟩ := frame
      have left : side = .left := lefts _ List.mem_cons_self
      subst left
      exact ih fun other member => lefts other (List.mem_cons_of_mem _ member)

theorem inorder_fill_perm : (fill ctx tree).inorder.Perm (items ctx ++ tree.inorder) := by
  rw [inorder_fill, List.append_assoc]
  apply List.Perm.trans (List.perm_append_comm.append_left (before ctx))
  rw [← List.append_assoc]
  exact (items_perm ctx).append_right _

theorem exists_fill (member : item ∈ tree.inorder) :
    ∃ ctx color left right, tree = fill ctx (.node color left item right) := by
  have below : ∀ (tree : Tree Item) (ctx : Context Item), item ∈ tree.inorder →
      ∃ deeper color left right, fill ctx tree = fill deeper (.node color left item right) := by
    intro tree
    induction tree with
    | leaf =>
        intro ctx member
        cases member
    | node color left own right lower upper =>
        intro ctx member
        rcases List.mem_append.mp member with earlier | later
        · exact lower (⟨.left, color, own, right⟩ :: ctx) earlier
        · rcases List.mem_cons.mp later with rfl | later
          · exact ⟨ctx, color, left, right, rfl⟩
          · exact upper (⟨.right, color, own, left⟩ :: ctx) later
  exact below tree [] member

theorem length_le_items (ctx : Context Item) : ctx.length ≤ (items ctx).length := by
  induction ctx with
  | nil => exact Nat.le_refl _
  | cons frame rest ih =>
      unfold items
      rw [List.length_append, List.length_cons, List.length_cons]
      omega

/-! ### Balance -/

theorem Tree.Balanced.fork_red (beside : Balanced near .black height)
    (beyond : Balanced far .black height) : Balanced (fork side .red near item far) .red height := by
  cases side with
  | left => exact .red beside beyond
  | right => exact .red beyond beside

theorem Tree.Balanced.fork_black {first second : Color} (beside : Balanced near first height)
    (beyond : Balanced far second height) :
    Balanced (fork side .black near item far) .black (height + 1) := by
  cases side with
  | left => exact .black beside beyond
  | right => exact .black beyond beside

theorem Tree.Balanced.color_eq (balanced : Balanced tree color height) : tree.color = color := by
  cases balanced with
  | leaf => rfl
  | red => rfl
  | black => rfl

theorem Tree.Balanced.of_red (balanced : Balanced tree .red height) (side : Side) :
    ∃ near item far, tree = fork side .red near item far ∧ Balanced near .black height ∧
      Balanced far .black height := by
  cases balanced with
  | red lower upper =>
      cases side with
      | left => exact ⟨_, _, _, rfl, lower, upper⟩
      | right => exact ⟨_, _, _, rfl, upper, lower⟩

theorem Tree.Balanced.of_black (balanced : Balanced tree .black (height + 1)) (side : Side) :
    ∃ near item far first second, tree = fork side .black near item far ∧
      Balanced near first height ∧ Balanced far second height := by
  cases balanced with
  | black lower upper =>
      cases side with
      | left => exact ⟨_, _, _, _, _, rfl, lower, upper⟩
      | right => exact ⟨_, _, _, _, _, rfl, upper, lower⟩

theorem Tree.Balanced.of_fork {own : Color}
    (balanced : Balanced (fork side color near item far) own height) :
    own = color ∧ ((color = .red ∧ Balanced near .black height ∧ Balanced far .black height) ∨
      (color = .black ∧ ∃ below first second, height = below + 1 ∧ Balanced near first below ∧
        Balanced far second below)) := by
  cases side with
  | left =>
      cases balanced with
      | red lower upper => exact ⟨rfl, .inl ⟨rfl, lower, upper⟩⟩
      | black lower upper => exact ⟨rfl, .inr ⟨rfl, _, _, _, rfl, lower, upper⟩⟩
  | right =>
      cases balanced with
      | red lower upper => exact ⟨rfl, .inl ⟨rfl, upper, lower⟩⟩
      | black lower upper => exact ⟨rfl, .inr ⟨rfl, _, _, _, rfl, upper, lower⟩⟩

theorem Tree.Balanced.of_flat (balanced : Balanced tree .black 0) : tree = .leaf := by
  cases balanced with
  | leaf => rfl

theorem Context.Expects.weaken (expects : Expects ctx color height) : Expects ctx .black height := by
  cases expects with
  | root => exact .root
  | red above beside => exact .red above beside
  | black above beside => exact .black above beside

theorem Context.Expects.fill (expects : Expects ctx color height)
    (balanced : Balanced tree color height) :
    ∃ total, Balanced (fill ctx tree) .black total := by
  induction expects generalizing tree with
  | root => exact ⟨_, balanced⟩
  | red above beside ih => exact ih (balanced.fork_red beside)
  | black above beside ih => exact ih (balanced.fork_black beside)

theorem Context.Expects.rename {path : Context Item} {sibling : Tree Item} {old : Item} {own : Color}
    (expects : Expects (path ++ ⟨side, color, old, sibling⟩ :: ctx) own height) (new : Item) :
    Expects (path ++ ⟨side, color, new, sibling⟩ :: ctx) own height := by
  induction path generalizing own height with
  | nil =>
      cases expects with
      | red above beside => exact .red above beside
      | black above beside => exact .black above beside
  | cons frame rest ih =>
      cases expects with
      | red above beside => exact .red (ih above) beside
      | black above beside => exact .black (ih above) beside

/-- Two subtrees of the right height fit where a node was, below any item. -/
theorem Context.Expects.refill {sibling : Tree Item}
    (expects : Expects (⟨side, color, item, sibling⟩ :: ctx) .black height)
    (beside : Balanced near .black height) (beyond : Balanced far .black height) :
    ∃ own total, Expects ctx own total ∧
      ∀ turn other, Balanced (fork turn color near other far) own total := by
  cases expects with
  | red above _ => exact ⟨_, _, above, fun _ _ => beside.fork_red beyond⟩
  | black above _ => exact ⟨_, _, above, fun _ _ => beside.fork_black beyond⟩

theorem Tree.Balanced.open {total : Nat} (balanced : Balanced (Context.fill ctx tree) .black total) :
    ∃ color height, Balanced tree color height ∧ Expects ctx color height := by
  induction ctx generalizing tree with
  | nil => exact ⟨.black, total, balanced, .root⟩
  | cons frame rest ih =>
      obtain ⟨side, own, item, sibling⟩ := frame
      obtain ⟨color, height, whole, expects⟩ := ih balanced
      cases own with
      | red =>
          cases side with
          | left =>
              cases whole with
              | red lower upper => exact ⟨_, _, lower, .red expects upper⟩
          | right =>
              cases whole with
              | red lower upper => exact ⟨_, _, upper, .red expects lower⟩
      | black =>
          cases side with
          | left =>
              cases whole with
              | black lower upper => exact ⟨_, _, lower, .black expects upper⟩
          | right =>
              cases whole with
              | black lower upper => exact ⟨_, _, upper, .black expects lower⟩

def Tree.NoRedRed : Tree Item → Prop
  | .leaf => True
  | .node color left _ right =>
      (color = .red → left.color = .black ∧ right.color = .black) ∧ left.NoRedRed ∧ right.NoRedRed

def Tree.blacks : Tree Item → List Nat
  | .leaf => [0]
  | .node color left _ right =>
      (left.blacks ++ right.blacks).map (· + if color = .black then 1 else 0)

theorem Tree.Balanced.noRedRed (balanced : Balanced tree color height) : tree.NoRedRed := by
  induction balanced with
  | leaf => exact True.intro
  | red lower upper left right => exact ⟨fun _ => ⟨lower.color_eq, upper.color_eq⟩, left, right⟩
  | black lower upper left right => exact ⟨nofun, left, right⟩

theorem Tree.Balanced.blacks_eq (balanced : Balanced tree color height) :
    ∀ count ∈ tree.blacks, count = height := by
  induction balanced with
  | leaf =>
      intro count member
      exact List.mem_singleton.mp member
  | red lower upper left right =>
      intro count member
      obtain ⟨below, inside, rfl⟩ := List.mem_map.mp member
      rcases List.mem_append.mp inside with low | high
      · exact left below low
      · exact right below high
  | black lower upper left right =>
      intro count member
      obtain ⟨below, inside, rfl⟩ := List.mem_map.mp member
      rcases List.mem_append.mp inside with low | high
      · exact congrArg (· + 1) (left below low)
      · exact congrArg (· + 1) (right below high)

/-! ### Searching -/

section Search

variable {less : Item → Item → Prop} {order : List Item} {lower upper : Tree Item}

/-- The comparisons with an item go along with the order of these items. -/
structure Coherent (less : Item → Item → Prop) (item : Item) (order : List Item) : Prop where
  up : ∀ first ∈ order, ∀ second ∈ order, less item first → less first second → less item second
  down : ∀ first ∈ order, ∀ second ∈ order, less second item → less first second → less first item

theorem Coherent.of_trans [IsTrans Item less] (item : Item) (order : List Item) :
    Coherent less item order :=
  ⟨fun _ _ _ _ => IsTrans.trans _ _ _, fun _ _ _ _ high low => IsTrans.trans _ _ _ low high⟩

/-- The hole is where the item belongs. -/
structure Located (less : Item → Item → Prop) (item : Item) (ctx : Context Item) : Prop where
  below : ∀ other ∈ before ctx, less other item
  above : ∀ other ∈ after ctx, less item other

theorem Located.root (less : Item → Item → Prop) (item : Item) : Located less item [] := by
  constructor
  · intro other member
    cases member
  · intro other member
    cases member

theorem pairwise_fill_node {own : Item}
    (sorted : (fill ctx (.node color lower own upper)).inorder.Pairwise less) :
    (∀ other ∈ lower.inorder, less other own) ∧ ∀ other ∈ upper.inorder, less own other := by
  rw [inorder_fill, List.append_assoc] at sorted
  have inside := (List.pairwise_append.mp (List.pairwise_append.mp sorted).2.1).1
  obtain ⟨_, later, earlier⟩ := List.pairwise_append.mp inside
  exact ⟨fun other member => earlier other member own List.mem_cons_self,
    fun other member => (List.pairwise_cons.mp later).1 other member⟩

theorem mem_fill {member : Item} : member ∈ (fill ctx tree).inorder ↔
    member ∈ items ctx ∨ member ∈ tree.inorder := by
  rw [inorder_fill_perm.mem_iff, List.mem_append]

theorem mem_fill_node {own other : Item} : other ∈ (fill ctx (.node color lower own upper)).inorder ↔
    other ∈ items ctx ∨ other ∈ lower.inorder ∨ other = own ∨ other ∈ upper.inorder := by
  rw [mem_fill]
  change _ ∨ other ∈ lower.inorder ++ own :: upper.inorder ↔ _
  rw [List.mem_append, List.mem_cons]

theorem Located.goLeft {own : Item} (located : Located less item ctx)
    (sorted : (Context.fill ctx (.node color lower own upper)).inorder.Pairwise less)
    (coherent : Coherent less item (Context.fill ctx (.node color lower own upper)).inorder)
    (smaller : less item own) : Located less item (⟨.left, color, own, upper⟩ :: ctx) := by
  constructor
  · exact located.below
  · intro other member
    change other ∈ own :: upper.inorder ++ after ctx at member
    rcases List.mem_append.mp member with near | far
    · rcases List.mem_cons.mp near with rfl | near
      · exact smaller
      · apply coherent.up own _ other _ smaller ((pairwise_fill_node sorted).2 other near)
        · exact mem_fill_node.mpr (.inr (.inr (.inl rfl)))
        · exact mem_fill_node.mpr (.inr (.inr (.inr near)))
    · exact located.above other far

theorem Located.goRight {own : Item} (located : Located less item ctx)
    (sorted : (Context.fill ctx (.node color lower own upper)).inorder.Pairwise less)
    (coherent : Coherent less item (Context.fill ctx (.node color lower own upper)).inorder)
    (greater : less own item) : Located less item (⟨.right, color, own, lower⟩ :: ctx) := by
  constructor
  · intro other member
    change other ∈ before ctx ++ lower.inorder ++ [own] at member
    rcases List.mem_append.mp member with earlier | last
    · rcases List.mem_append.mp earlier with far | near
      · exact located.below other far
      · apply coherent.down other _ own _ greater ((pairwise_fill_node sorted).1 other near)
        · exact mem_fill_node.mpr (.inr (.inl near))
        · exact mem_fill_node.mpr (.inr (.inr (.inl rfl)))
    · rw [List.mem_singleton.mp last]
      exact greater
  · exact located.above

end Search

end LabKernel.RedBlack
