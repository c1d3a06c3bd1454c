/-
Red-black trees of `rbtree.c`.

The colour of a node is the lowest bit of the word that holds the address of its parent. Every
access to a node is checked: the null pointer and addresses where there is no node stop the
program. The two halves of the loops that restore the balance are the same with left and right
exchanged, and are written once for a side.
-/

import LabKernel.Lib.Bits
import LabKernel.Lib.RedBlack
import Mathlib.Logic.Function.Basic

set_option autoImplicit false

namespace LabKernel.Common.Rbtree

open RedBlack

/-! ### Nodes -/

inductive Stop where
  | nullNode
  | wildNode
  | misaligned
  | endless
  deriving DecidableEq, Repr

/-- An address of a node, whose two lowest bits are free, or the null pointer. -/
def Ptr : Type := { word : UInt64 // word &&& 3 = 0 }

instance : DecidableEq Ptr := inferInstanceAs (DecidableEq { word : UInt64 // word &&& 3 = 0 })

def null : Ptr := ⟨0, by decide⟩

/-- `RB_RED` and `RB_BLACK`. -/
def colorWord : Color → UInt64
  | .red => 0
  | .black => 1

structure RbNode where
  parentColor : UInt64
  right : Ptr
  left : Ptr

def RbNode.child (node : RbNode) : Side → Ptr
  | .left => node.left
  | .right => node.right

def RbNode.setChild (node : RbNode) (side : Side) (child : Ptr) : RbNode :=
  match side with
  | .left => { node with left := child }
  | .right => { node with right := child }

def rbParent (word : UInt64) : Ptr := ⟨word &&& ~~~3, by
  rw [UInt64.and_assoc, show ~~~(3 : UInt64) &&& 3 = 0 by decide]
  exact UInt64.and_zero⟩

def rbIsRed (word : UInt64) : Bool := word &&& 1 = 0

/-- `rb_red_parent`: the word is taken as an address. -/
def rbRedParent (word : UInt64) : Except Stop Ptr :=
  if aligned : word &&& 3 = 0 then .ok ⟨word, aligned⟩ else .error .misaligned

/-- The word of `rb_set_parent_color`. -/
def pack (parent : Ptr) (color : Color) : UInt64 := parent.val ||| colorWord color

/-- The nodes in memory and the pointer to the root. -/
structure RbTree where
  heap : Ptr → Option RbNode
  root : Ptr

namespace RbTree

variable (tree : RbTree)

def node (addr : Ptr) : Except Stop RbNode :=
  if addr = null then .error .nullNode
  else
    match tree.heap addr with
    | none => .error .wildNode
    | some node => .ok node

def set (addr : Ptr) (node : RbNode) : RbTree :=
  { tree with heap := Function.update tree.heap addr (some node) }

def setChild (side : Side) (addr child : Ptr) : Except Stop RbTree := do
  let node ← tree.node addr
  pure (tree.set addr (node.setChild side child))

def setWord (addr : Ptr) (word : UInt64) : Except Stop RbTree := do
  let node ← tree.node addr
  pure (tree.set addr { node with parentColor := word })

def setParentColor (addr parent : Ptr) (color : Color) : Except Stop RbTree :=
  tree.setWord addr (pack parent color)

def setParent (addr parent : Ptr) : Except Stop RbTree := do
  let node ← tree.node addr
  tree.setWord addr ((node.parentColor &&& 1) ||| parent.val)

def setBlack (addr : Ptr) : Except Stop RbTree := do
  let node ← tree.node addr
  tree.setWord addr (node.parentColor ||| 1)

/-- `p && rb_is_red(p)`. -/
def redAt (addr : Ptr) : Except Stop Bool :=
  if addr = null then pure false
  else do
    let node ← tree.node addr
    pure (rbIsRed node.parentColor)

/-- `if (p) rb_set_parent_color(p, parent, RB_BLACK)`. -/
def adoptBlack (addr parent : Ptr) : Except Stop RbTree :=
  if addr = null then pure tree else tree.setParentColor addr parent .black

/-- `if (p) rb_set_parent(p, parent)`. -/
def adopt (addr parent : Ptr) : Except Stop RbTree :=
  if addr = null then pure tree else tree.setParent addr parent

def changeChild (old new parent : Ptr) : Except Stop RbTree :=
  if parent = null then pure { tree with root := new }
  else do
    let node ← tree.node parent
    if node.left = old then tree.setChild .left parent new else tree.setChild .right parent new

def rotateSetParents (old new : Ptr) (color : Color) : Except Stop RbTree := do
  let node ← tree.node old
  let tree ← tree.setWord new node.parentColor
  let tree ← tree.setParentColor old new color
  tree.changeChild old new (rbParent node.parentColor)

/-! ### Insertion -/

/-- Case 1: the uncle is red. -/
def recolor (uncle parent gparent : Ptr) : Except Stop (Ptr × RbTree) := do
  let tree ← tree.setParentColor uncle gparent .black
  let tree ← tree.setParentColor parent gparent .black
  let node ← tree.node gparent
  let above := rbParent node.parentColor
  let tree ← tree.setParentColor gparent above .red
  pure (above, tree)

def rotateInner (side : Side) (node parent : Ptr) : Except Stop (Ptr × RbTree) := do
  let inner := (← tree.node node).child side
  let tree ← tree.setChild side.other parent inner
  let tree ← tree.adoptBlack inner parent
  let tree ← tree.setChild side node parent
  let tree ← tree.setParentColor parent node .red
  pure ((← tree.node node).child side.other, tree)

/-- Case 3: the parent is rotated above the grandparent. -/
def rotateOuter (side : Side) (inner parent gparent : Ptr) : Except Stop RbTree := do
  let tree ← tree.setChild side gparent inner
  let tree ← tree.adoptBlack inner gparent
  let tree ← tree.setChild side.other parent gparent
  tree.rotateSetParents gparent parent .red

/-- Cases 2 and 3. -/
def insertRotate (side : Side) (node parent gparent : Ptr) : Except Stop RbTree := do
  let inner := (← tree.node parent).child side.other
  if node = inner then
    let (inner, tree) ← tree.rotateInner side node parent
    tree.rotateOuter side inner node gparent
  else tree.rotateOuter side inner parent gparent

/-- The loop of `__rb_insert_fix`, in at most the given number of rounds. -/
def insertFixLoop : Nat → Ptr → Ptr → RbTree → Except Stop RbTree
  | 0, _, _, _ => .error .endless
  | rounds + 1, node, parent, tree =>
      if parent = null then do
        let tree ← tree.setParentColor node null .black
        pure { tree with root := node }
      else do
        let record ← tree.node parent
        if rbIsRed record.parentColor then
          let gparent ← rbRedParent record.parentColor
          let side := if parent ≠ (← tree.node gparent).right then Side.left else Side.right
          let uncle := (← tree.node gparent).child side.other
          if ← tree.redAt uncle then
            let (above, tree) ← tree.recolor uncle parent gparent
            insertFixLoop rounds gparent above tree
          else tree.insertRotate side node parent gparent
        else pure tree

def insertFix (rounds : Nat) (node : Ptr) : Except Stop RbTree := do
  let parent ← rbRedParent (← tree.node node).parentColor
  insertFixLoop rounds node parent tree

/-- The loop of `_rb_insert`. Its result is false if there is an equivalent node. -/
def insertLoop (cmp : Ptr → Ptr → Bool) (node : Ptr) : Nat → Ptr → RbTree →
    Except Stop (Bool × RbTree)
  | 0, _, _ => .error .endless
  | rounds + 1, nw, tree =>
      if nw = null then pure (true, tree)
      else if cmp node nw then do
        let next := (← tree.node nw).left
        if next = null then
          let tree ← tree.setChild .left nw node
          let tree ← tree.setWord node nw.val
          insertLoop cmp node rounds next tree
        else insertLoop cmp node rounds next tree
      else if cmp nw node then do
        let next := (← tree.node nw).right
        if next = null then
          let tree ← tree.setChild .right nw node
          let tree ← tree.setWord node nw.val
          insertLoop cmp node rounds next tree
        else insertLoop cmp node rounds next tree
      else pure (false, tree)

def insert (rounds : Nat) (cmp : Ptr → Ptr → Bool) (node : Ptr) : Except Stop (Int × RbTree) := do
  let tree ← tree.setChild .left node null
  let tree ← tree.setChild .right node null
  let tree ← tree.setWord node 0
  let (new, tree) ← insertLoop cmp node rounds tree.root tree
  if new then
    let tree ← tree.insertFix rounds node
    pure (0, tree)
  else pure (-1, tree)

/-! ### Deletion -/

/-- The loop that looks for the successor: the node with no left child, and its parent. -/
def successorLoop : Nat → Ptr → Ptr → RbTree → Except Stop (Ptr × Ptr)
  | 0, _, _, _ => .error .endless
  | rounds + 1, successor, tmp, tree => do
      let next := (← tree.node tmp).left
      if next = null then pure (successor, tmp) else successorLoop rounds tmp next tree

/-- The successor is taken off its place: it, the parent of its place, and its right child. -/
def takeSuccessor (rounds : Nat) (child : Ptr) : Except Stop (Ptr × Ptr × Ptr × RbTree) := do
  let tmp := (← tree.node child).left
  if tmp = null then pure (child, child, (← tree.node child).right, tree)
  else
    let (parent, successor) ← successorLoop rounds child tmp tree
    let child2 := (← tree.node successor).right
    let tree ← tree.setChild .left parent child2
    let tree ← tree.setChild .right successor child
    let tree ← tree.setParent child successor
    pure (successor, parent, child2, tree)

/-- `__rb_erase`: what has to be rebalanced, or the null pointer. -/
def eraseNode (rounds : Nat) (node : Ptr) : Except Stop (Ptr × RbTree) := do
  let child := (← tree.node node).right
  let tmp := (← tree.node node).left
  if tmp = null then
    let pc := (← tree.node node).parentColor
    let parent := rbParent pc
    let tree ← tree.changeChild node child parent
    if child = null then pure (if rbIsRed pc then null else parent, tree)
    else
      let tree ← tree.setWord child pc
      pure (null, tree)
  else if child = null then
    let pc := (← tree.node node).parentColor
    let tree ← tree.setWord tmp pc
    let tree ← tree.changeChild node tmp (rbParent pc)
    pure (null, tree)
  else
    let (successor, parent, child2, tree) ← tree.takeSuccessor rounds child
    let tmp := (← tree.node node).left
    let tree ← tree.setChild .left successor tmp
    let tree ← tree.setParent tmp successor
    let pc := (← tree.node node).parentColor
    let tree ← tree.changeChild node successor (rbParent pc)
    if child2 = null then
      let pc2 := (← tree.node successor).parentColor
      let tree ← tree.setWord successor pc
      pure (if rbIsRed pc2 then null else parent, tree)
    else
      let tree ← tree.setWord successor pc
      let tree ← tree.setParentColor child2 parent .black
      pure (null, tree)

/-- Case 1: the sibling is red. The new sibling. -/
def rotateSibling (side : Side) (parent sibling : Ptr) : Except Stop (Ptr × RbTree) := do
  let near := (← tree.node sibling).child side
  let tree ← tree.setChild side.other parent near
  let tree ← tree.setParentColor near parent .black
  let tree ← tree.setChild side sibling parent
  let tree ← tree.rotateSetParents parent sibling .red
  pure (near, tree)

/-- Case 3: the near child of the sibling is rotated above it. -/
def rotateNear (side : Side) (parent sibling near : Ptr) : Except Stop RbTree := do
  let inner := (← tree.node near).child side.other
  let tree ← tree.setChild side sibling inner
  let tree ← tree.adoptBlack inner sibling
  let tree ← tree.setChild side.other near sibling
  tree.setChild side.other parent near

def rotateFar (side : Side) (parent sibling far : Ptr) : Except Stop RbTree := do
  let near := (← tree.node sibling).child side
  let tree ← tree.setChild side.other parent near
  let tree ← tree.adopt near parent
  let tree ← tree.setChild side sibling parent
  let tree ← tree.setParentColor far sibling .black
  tree.rotateSetParents parent sibling .black

def eraseBlack (side : Side) (parent sibling : Ptr) :
    Except Stop (Option (Ptr × Ptr) × RbTree) := do
  let far := (← tree.node sibling).child side.other
  if ← tree.redAt far then
    let tree ← tree.rotateFar side parent sibling far
    pure (none, tree)
  else
    let near := (← tree.node sibling).child side
    if ← tree.redAt near then
      let tree ← tree.rotateNear side parent sibling near
      let tree ← tree.rotateFar side parent near sibling
      pure (none, tree)
    else
      let tree ← tree.setParentColor sibling parent .red
      if rbIsRed (← tree.node parent).parentColor then
        let tree ← tree.setBlack parent
        pure (none, tree)
      else
        let above := rbParent (← tree.node parent).parentColor
        pure (if above = null then none else some (parent, above), tree)

/-- The loop of `__rb_erase_fix`, in at most the given number of rounds. -/
def eraseFixLoop : Nat → Ptr → Ptr → RbTree → Except Stop RbTree
  | 0, _, _, _ => .error .endless
  | rounds + 1, node, parent, tree => do
      let side := if node ≠ (← tree.node parent).right then Side.left else Side.right
      let sibling := (← tree.node parent).child side.other
      let red := rbIsRed (← tree.node sibling).parentColor
      let (sibling, tree) ← if red then tree.rotateSibling side parent sibling
        else pure (sibling, tree)
      let (onward, tree) ← tree.eraseBlack side parent sibling
      match onward with
      | none => pure tree
      | some (node, parent) => eraseFixLoop rounds node parent tree

def erase (rounds : Nat) (node : Ptr) : Except Stop RbTree := do
  let (rebalance, tree) ← tree.eraseNode rounds node
  if rebalance = null then pure tree else eraseFixLoop rounds null rebalance tree

/-! ### Searching -/

def lookupLoop (cmp : Ptr → Ptr → Bool) (node : Ptr) : Nat → Ptr → Except Stop Ptr
  | 0, _ => .error .endless
  | rounds + 1, nw =>
      if nw = null then pure null
      else if cmp node nw then do
        lookupLoop cmp node rounds (← tree.node nw).left
      else if cmp nw node then do
        lookupLoop cmp node rounds (← tree.node nw).right
      else pure nw

def lookup (rounds : Nat) (cmp : Ptr → Ptr → Bool) (node : Ptr) : Except Stop Ptr :=
  tree.lookupLoop cmp node rounds tree.root

def firstLoop : Nat → Ptr → Except Stop Ptr
  | 0, _ => .error .endless
  | rounds + 1, n => do
      let next := (← tree.node n).left
      if next = null then pure n else firstLoop rounds next

def first (rounds : Nat) : Except Stop Ptr :=
  if tree.root = null then pure null else tree.firstLoop rounds tree.root

end RbTree

end LabKernel.Common.Rbtree
