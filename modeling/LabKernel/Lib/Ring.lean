/-
Circular doubly linked lists with null links.

A ring is a head and the nodes behind it, each linked with the next one and the last one with
the head. Inserting and detaching follow links, and fail at a null one; on a ring they do to
the list of its nodes what their names say, and leave every node outside it alone. Nothing
here names a program.
-/

import Mathlib.Data.List.Basic
import Mathlib.Logic.Function.Basic

set_option autoImplicit false

namespace LabKernel.Rings

/-- The two links of every node; `none` is the null link. -/
structure Links (Node : Type) where
  prev : Node → Option Node
  next : Node → Option Node

variable {Node : Type}

namespace Links

variable [DecidableEq Node] (links : Links Node)

def setPrev (node : Node) (target : Option Node) : Links Node :=
  { links with prev := Function.update links.prev node target }

def setNext (node : Node) (target : Option Node) : Links Node :=
  { links with next := Function.update links.next node target }

def single (node : Node) : Links Node := (links.setPrev node (some node)).setNext node (some node)

@[simp]
theorem setPrev_prev (node : Node) (target : Option Node) :
    (links.setPrev node target).prev = Function.update links.prev node target := rfl

@[simp]
theorem setPrev_next (node : Node) (target : Option Node) :
    (links.setPrev node target).next = links.next := rfl

@[simp]
theorem setNext_prev (node : Node) (target : Option Node) :
    (links.setNext node target).prev = links.prev := rfl

@[simp]
theorem setNext_next (node : Node) (target : Option Node) :
    (links.setNext node target).next = Function.update links.next node target := rfl

@[simp]
theorem single_prev (node : Node) :
    (links.single node).prev = Function.update links.prev node (some node) := rfl

@[simp]
theorem single_next (node : Node) :
    (links.single node).next = Function.update links.next node (some node) := rfl

/-- Link the list at `first` in front of what follows it with the list at `second`. There is no
result when a null link is followed. -/
def merge (first second : Node) : Option (Links Node) := do
  let third := links.next first
  let fourth := links.prev second
  let links := (links.setNext first (some second)).setPrev second (some first)
  let fourth ← fourth
  let links := links.setNext fourth third
  let third ← third
  return links.setPrev third (some fourth)

/-- Put a single node behind another. -/
def insert (after node : Node) : Option (Links Node) := (links.single node).merge after node

/-- Take a node out of its list and link it with itself. -/
def detach (node : Node) : Option (Links Node) := do
  let before ← links.prev node
  let links := links.setNext before (links.next node)
  let behind ← links.next node
  return (links.setPrev behind (some before)).single node

/-- The nodes from one on until the head comes, in at most the given number of rounds. -/
def walk (head : Node) : Nat → Option Node → List Node
  | 0, _ => []
  | _ + 1, none => []
  | rounds + 1, some node =>
      if node = head then [] else node :: walk head rounds (links.next node)

end Links

/-! ### Paths -/

def Linked (links : Links Node) (left right : Node) : Prop :=
  links.next left = some right ∧ links.prev right = some left

/-- The nodes lead from the first to the last. -/
def Path (links : Links Node) : Node → List Node → Node → Prop
  | first, [], last => Linked links first last
  | first, node :: rest, last => Linked links first node ∧ Path links node rest last

variable {links after : Links Node} {first last head node : Node} {nodes : List Node}

theorem Path.frame (path : Path links first nodes last)
    (next : ∀ other ∈ first :: nodes, after.next other = links.next other)
    (prev : ∀ other ∈ nodes ++ [last], after.prev other = links.prev other) :
    Path after first nodes last := by
  induction nodes generalizing first with
  | nil =>
      constructor
      · rw [next first List.mem_cons_self]
        exact path.1
      · rw [prev last (by simp)]
        exact path.2
  | cons node rest ih =>
      refine ⟨⟨?_, ?_⟩, ?_⟩
      · rw [next first List.mem_cons_self]
        exact path.1.1
      · rw [prev node (by simp)]
        exact path.1.2
      · apply ih path.2
        · intro other member
          exact next other (List.mem_cons_of_mem first member)
        · intro other member
          apply prev
          rw [List.cons_append]
          exact List.mem_cons_of_mem node member

theorem Path.first_linked (path : Path links first nodes last) :
    Linked links first (nodes.head?.getD last) := by
  cases nodes with
  | nil => exact path
  | cons node rest => exact path.1

theorem Path.prev_eq (path : Path links first nodes last) :
    links.prev last = some (nodes.getLast?.getD first) := by
  induction nodes generalizing first with
  | nil => exact path.2
  | cons node rest ih =>
      rw [ih path.2, List.getLast?_cons]
      rfl

theorem Path.suffix {before behind : List Node} (path : Path links first (before ++ behind) last) :
    Path links (before.getLast?.getD first) behind last := by
  induction before generalizing first with
  | nil => exact path
  | cons node rest ih =>
      rw [List.getLast?_cons]
      exact ih path.2

theorem Path.restart {start : Node} (path : Path links first nodes last)
    (linked : Linked after start (nodes.head?.getD last))
    (next : ∀ other ∈ nodes, after.next other = links.next other)
    (prev : ∀ other ∈ (nodes ++ [last]).tail, after.prev other = links.prev other) :
    Path after start nodes last := by
  cases nodes with
  | nil => exact linked
  | cons node rest => exact ⟨linked, path.2.frame next prev⟩

theorem Path.splice {before behind other : List Node} {final : Node}
    (path : Path links first (before ++ behind) last)
    (next : ∀ node ∈ (first :: before).dropLast, after.next node = links.next node)
    (prev : ∀ node ∈ before, after.prev node = links.prev node)
    (tail : Path after (before.getLast?.getD first) other final) :
    Path after first (before ++ other) final := by
  induction before generalizing first with
  | nil => exact tail
  | cons node rest ih =>
      rw [List.getLast?_cons] at tail
      refine ⟨⟨?_, ?_⟩, ?_⟩
      · rw [next first (by simp)]
        exact path.1.1
      · rw [prev node List.mem_cons_self]
        exact path.1.2
      · apply ih path.2
        · intro place member
          exact next place (List.mem_cons_of_mem first member)
        · intro place member
          exact prev place (List.mem_cons_of_mem node member)
        · exact tail

theorem Path.snoc {middle : Node} (path : Path links first nodes middle)
    (linked : Linked links middle last) : Path links first (nodes ++ [middle]) last := by
  induction nodes generalizing first with
  | nil => exact ⟨path, linked⟩
  | cons node rest ih => exact ⟨path.1, ih path.2⟩

/-! ### Rings -/

/-- The head and the nodes behind it, each of them once. -/
structure IsRing (links : Links Node) (head : Node) (nodes : List Node) : Prop where
  distinct : (head :: nodes).Nodup
  path : Path links head nodes head

def Untouched (links after : Links Node) (node : Node) : Prop :=
  after.next node = links.next node ∧ after.prev node = links.prev node

theorem IsRing.frame (ring : IsRing links head nodes)
    (same : ∀ other ∈ head :: nodes, Untouched links after other) : IsRing after head nodes := by
  constructor
  · exact ring.distinct
  · apply ring.path.frame
    · intro other member
      exact (same other member).1
    · intro other member
      apply And.right
      apply same
      rw [List.mem_append, List.mem_singleton] at member
      rw [List.mem_cons]
      exact member.symm

theorem IsRing.rotate (ring : IsRing links head (node :: nodes)) :
    IsRing links node (nodes ++ [head]) := by
  constructor
  · have perm : (node :: (nodes ++ [head])).Perm (head :: node :: nodes) :=
      List.perm_append_singleton head (node :: nodes)
    exact perm.nodup_iff.mpr ring.distinct
  · exact ring.path.2.snoc ring.path.1

theorem IsRing.turn {before behind : List Node}
    (ring : IsRing links head (before ++ node :: behind)) :
    IsRing links node (behind ++ head :: before) := by
  induction before generalizing head behind with
  | nil => exact ring.rotate
  | cons first rest ih =>
      have turned : IsRing links first ((rest ++ node :: behind) ++ [head]) := IsRing.rotate ring
      rw [List.append_assoc] at turned
      have whole : IsRing links node ((behind ++ [head]) ++ first :: rest) := ih turned
      rw [List.append_assoc] at whole
      exact whole

theorem IsRing.of_mem (ring : IsRing links head nodes) (member : node ∈ head :: nodes) :
    ∃ others, IsRing links node others ∧ (node :: others).Perm (head :: nodes) := by
  rcases List.mem_cons.mp member with same | behind
  · rw [same]
    exact ⟨nodes, ring, List.Perm.refl _⟩
  · obtain ⟨before, rest, parts⟩ := List.append_of_mem behind
    rw [parts] at ring ⊢
    refine ⟨rest ++ head :: before, ring.turn, ?_⟩
    change ((node :: rest) ++ (head :: before)).Perm ((head :: before) ++ (node :: rest))
    exact List.perm_append_comm

theorem mem_ring_last (head : Node) (nodes : List Node) :
    nodes.getLast?.getD head ∈ head :: nodes := by
  induction nodes generalizing head with
  | nil => exact List.mem_cons_self
  | cons node rest ih =>
      rw [List.getLast?_cons]
      exact List.mem_cons_of_mem head (ih node)

theorem mem_ring_first (head : Node) (nodes : List Node) :
    nodes.head?.getD head ∈ head :: nodes := by
  cases nodes with
  | nil => exact List.mem_cons_self
  | cons node rest => exact List.mem_cons_of_mem head List.mem_cons_self

/-! What stands on the two sides of a place in a ring. -/

section Sides

variable {before behind : List Node} {other : Node}

theorem ne_last_of_mem_dropLast (distinct : (head :: before).Nodup)
    (member : other ∈ (head :: before).dropLast) : other ≠ before.getLast?.getD head := by
  induction before generalizing head with
  | nil => cases member
  | cons node rest ih =>
      rw [List.getLast?_cons]
      have later := (List.nodup_cons.mp distinct).2
      rcases List.mem_cons.mp member with same | within
      · intro equal
        apply (List.nodup_cons.mp distinct).1
        rw [← same, equal]
        exact mem_ring_last node rest
      · exact ih later within

theorem ne_last_of_mem_behind (distinct : (head :: (before ++ behind)).Nodup)
    (member : other ∈ behind) : other ≠ before.getLast?.getD head := by
  intro equal
  rw [← List.cons_append] at distinct
  apply (List.nodup_append.mp distinct).2.2 _ (mem_ring_last head before) other member
  exact equal.symm

theorem ne_first_of_mem_before (distinct : (head :: (before ++ behind)).Nodup)
    (member : other ∈ before) : other ≠ behind.head?.getD head := by
  rw [List.nodup_cons, List.mem_append, not_or, List.nodup_append] at distinct
  obtain ⟨⟨outside, -⟩, -, -, apart⟩ := distinct
  intro equal
  rcases List.mem_cons.mp (mem_ring_first head behind) with same | within
  · apply outside
    rw [← same, ← equal]
    exact member
  · exact apart other member _ within equal

theorem ne_first_of_mem_tail (distinct : (head :: behind).Nodup)
    (member : other ∈ (behind ++ [head]).tail) : other ≠ behind.head?.getD head := by
  cases behind with
  | nil => cases member
  | cons node rest =>
      intro equal
      rw [equal] at member
      have known : node ∈ rest ++ [head] := member
      simp at distinct known
      rcases known with within | same
      · exact distinct.2.1 within
      · exact distinct.1.1 same.symm

/-- The links of a ring other than those across the place between its two parts. -/
structure Beside (links after : Links Node) (head node : Node) (before behind : List Node) :
    Prop where
  early : ∀ other ∈ (head :: before).dropLast, after.next other = links.next other
  earlyBack : ∀ other ∈ before, after.prev other = links.prev other
  late : ∀ other ∈ behind, after.next other = links.next other
  lateBack : ∀ other ∈ (behind ++ [head]).tail, after.prev other = links.prev other
  outside : ∀ other, other ∉ head :: (before ++ behind) → other ≠ node → Untouched links after other

theorem mem_ring_across (head : Node) (before behind : List Node) :
    before.getLast?.getD head ∈ head :: (before ++ behind) ∧
      behind.head?.getD head ∈ head :: (before ++ behind) := by
  constructor
  · exact List.mem_append_left behind (mem_ring_last head before)
  · rcases List.mem_cons.mp (mem_ring_first head behind) with same | within
    · rw [same]
      exact List.mem_cons_self
    · exact List.mem_cons_of_mem head (List.mem_append_right before within)

/-- Nothing but the links across one place and those of a node outside has changed. -/
theorem Beside.of_across (distinct : (head :: (before ++ behind)).Nodup)
    (fresh : node ∉ head :: (before ++ behind))
    (next : ∀ other, other ≠ before.getLast?.getD head → other ≠ node →
      after.next other = links.next other)
    (prev : ∀ other, other ≠ behind.head?.getD head → other ≠ node →
      after.prev other = links.prev other) : Beside links after head node before behind := by
  have apart : ∀ other, other ∈ head :: (before ++ behind) → other ≠ node := by
    intro other member same
    exact fresh (same ▸ member)
  have earlier : (head :: before).Nodup := (List.nodup_append.mp distinct).1
  have shorter : (head :: behind).Nodup := by
    rw [List.nodup_cons, List.mem_append, not_or, List.nodup_append] at distinct
    exact List.nodup_cons.mpr ⟨distinct.1.2, distinct.2.2.1⟩
  constructor
  · intro other member
    apply next other (ne_last_of_mem_dropLast earlier member)
    exact apart other (List.mem_append_left behind (List.dropLast_subset _ member))
  · intro other member
    apply prev other (ne_first_of_mem_before distinct member)
    exact apart other (List.mem_cons_of_mem head (List.mem_append_left behind member))
  · intro other member
    apply next other (ne_last_of_mem_behind distinct member)
    exact apart other (List.mem_cons_of_mem head (List.mem_append_right before member))
  · intro other member
    apply prev other (ne_first_of_mem_tail shorter member)
    apply apart
    rcases List.mem_append.mp (List.mem_of_mem_tail member) with within | same
    · exact List.mem_cons_of_mem head (List.mem_append_right before within)
    · rw [List.mem_singleton.mp same]
      exact List.mem_cons_self
  · intro other outside new
    obtain ⟨leftIn, rightIn⟩ := mem_ring_across head before behind
    constructor
    · apply next other _ new
      intro same
      exact outside (same ▸ leftIn)
    · apply prev other _ new
      intro same
      exact outside (same ▸ rightIn)

end Sides

variable [DecidableEq Node]

theorem IsRing.single (links : Links Node) (node : Node) :
    IsRing (links.single node) node [] := by
  constructor
  · simp
  · exact ⟨Function.update_self _ _ _, Function.update_self _ _ _⟩

theorem IsRing.walk_eq (ring : IsRing links head nodes) {rounds : Nat}
    (enough : nodes.length < rounds) : links.walk head rounds (links.next head) = nodes := by
  have outside : head ∉ nodes := (List.nodup_cons.mp ring.distinct).1
  -- The path is followed from its start, which is the head only at the beginning.
  have walked : ∀ (rest : List Node) (start : Node) (rounds : Nat), head ∉ rest →
      Path links start rest head → rest.length < rounds →
        links.walk head rounds (links.next start) = rest := by
    intro rest
    induction rest with
    | nil =>
        intro start rounds _ path enough
        obtain ⟨rounds, rfl⟩ := Nat.exists_eq_add_one_of_ne_zero (Nat.ne_of_gt enough)
        rw [path.1]
        unfold Links.walk
        rw [if_pos rfl]
    | cons node rest ih =>
        intro start rounds outside path enough
        obtain ⟨rounds, rfl⟩ := Nat.exists_eq_add_one_of_ne_zero (Nat.ne_zero_of_lt enough)
        rw [List.mem_cons, not_or] at outside
        rw [List.length_cons] at enough
        rw [path.1.1]
        unfold Links.walk
        rw [if_neg (Ne.symm outside.1), ih node rounds outside.2 path.2 (by omega)]
  exact walked nodes head rounds outside ring.path enough

theorem IsRing.unique {others : List Node} (ring : IsRing links head nodes)
    (again : IsRing links head others) : nodes = others := by
  have first : links.walk head (nodes.length + others.length + 1) (links.next head) = nodes :=
    ring.walk_eq (by omega)
  have second : links.walk head (nodes.length + others.length + 1) (links.next head) = others :=
    again.walk_eq (by omega)
  exact first.symm.trans second

theorem IsRing.disjoint {other : Node} {others : List Node} (ring : IsRing links head nodes)
    (again : IsRing links other others) (apart : other ∉ head :: nodes) :
    ∀ node ∈ head :: nodes, node ∉ other :: others := by
  intro node mine yours
  obtain ⟨first, here, perm⟩ := ring.of_mem mine
  obtain ⟨second, there, twin⟩ := again.of_mem yours
  rw [here.unique there] at perm
  exact apart ((twin.symm.trans perm).subset List.mem_cons_self)

/-! ### Joining two rings -/

theorem merge_eq {left right : Node} {third fourth : Node} (behind : links.next left = some third)
    (before : links.prev right = some fourth) :
    ∃ after, links.merge left right = some after ∧
      after.next = Function.update (Function.update links.next left (some right)) fourth
        (some third) ∧
      after.prev = Function.update (Function.update links.prev right (some left)) third
        (some fourth) := by
  refine ⟨(((links.setNext left (some right)).setPrev right (some left)).setNext fourth
    (some third)).setPrev third (some fourth), ?_, rfl, rfl⟩
  unfold Links.merge
  rw [behind, before]
  rfl

/-- The links of two rings other than those across the places where they are joined. -/
structure Across (links after : Links Node) (head other : Node) (nodes others : List Node) :
    Prop where
  nextFirst : ∀ node ∈ head :: nodes, node ≠ head → after.next node = links.next node
  nextSecond : ∀ node ∈ other :: others, node ≠ others.getLast?.getD other →
    after.next node = links.next node
  prevFirst : ∀ node ∈ head :: nodes, node ≠ nodes.head?.getD head →
    after.prev node = links.prev node
  prevSecond : ∀ node ∈ other :: others, node ≠ other → after.prev node = links.prev node

theorem Across.of_merge {other : Node} {others : List Node} {third fourth : Option Node}
    (disjoint : ∀ node ∈ head :: nodes, node ∉ other :: others)
    (next : after.next = Function.update (Function.update links.next head (some other))
      (others.getLast?.getD other) third)
    (prev : after.prev = Function.update (Function.update links.prev other (some head))
      (nodes.head?.getD head) fourth) : Across links after head other nodes others := by
  have thirdIn := mem_ring_first head nodes
  have fourthIn := mem_ring_last other others
  constructor
  · intro node member different
    have apart : node ≠ others.getLast?.getD other := by
      intro same
      rw [same] at member
      exact disjoint _ member fourthIn
    rw [next, Function.update_of_ne apart, Function.update_of_ne different]
  · intro node member different
    have apart : node ≠ head := by
      intro same
      rw [same] at member
      exact disjoint head List.mem_cons_self member
    rw [next, Function.update_of_ne different, Function.update_of_ne apart]
  · intro node member different
    have apart : node ≠ other := by
      intro same
      rw [same] at member
      exact disjoint other member List.mem_cons_self
    rw [prev, Function.update_of_ne different, Function.update_of_ne apart]
  · intro node member different
    have apart : node ≠ nodes.head?.getD head := by
      intro same
      rw [same] at member
      exact disjoint _ thirdIn member
    rw [prev, Function.update_of_ne apart, Function.update_of_ne different]

theorem IsRing.merge {other : Node} {others : List Node} (ring : IsRing links head nodes)
    (again : IsRing links other others) (apart : other ∉ head :: nodes) :
    ∃ after, links.merge head other = some after ∧ IsRing after head (other :: others ++ nodes) ∧
      ∀ node, node ∉ head :: nodes → node ∉ other :: others → Untouched links after node := by
  have disjoint := ring.disjoint again apart
  have thirdIn := mem_ring_first head nodes
  have fourthIn := mem_ring_last other others
  obtain ⟨after, merged, next, prev⟩ := merge_eq ring.path.first_linked.1 again.path.prev_eq
  have across : Across links after head other nodes others := .of_merge disjoint next prev
  have fourthApart : others.getLast?.getD other ≠ head := by
    intro same
    rw [same] at fourthIn
    exact disjoint head List.mem_cons_self fourthIn
  have thirdApart : nodes.head?.getD head ≠ other := by
    intro same
    rw [same] at thirdIn
    exact disjoint other thirdIn List.mem_cons_self
  refine ⟨after, merged, ⟨?_, ?_⟩, ?_⟩
  · have perm : (head :: (other :: others ++ nodes)).Perm (other :: others ++ head :: nodes) :=
      List.perm_middle.symm
    rw [perm.nodup_iff, List.nodup_append]
    refine ⟨again.distinct, ring.distinct, ?_⟩
    intro node yours place mine same
    rw [← same] at mine
    exact disjoint node mine yours
  · refine ⟨⟨?_, ?_⟩, ?_⟩
    · rw [next, Function.update_of_ne fourthApart.symm, Function.update_self]
    · rw [prev, Function.update_of_ne thirdApart.symm, Function.update_self]
    · have path : Path links other (others ++ []) other := by
        rw [List.append_nil]
        exact again.path
      apply path.splice
      · intro node member
        apply across.nextSecond node (List.dropLast_subset _ member)
        exact ne_last_of_mem_dropLast again.distinct member
      · intro node member
        apply across.prevSecond node (List.mem_cons_of_mem other member)
        intro same
        rw [same] at member
        exact (List.nodup_cons.mp again.distinct).1 member
      · apply ring.path.restart
        · constructor
          · rw [next, Function.update_self]
          · rw [prev, Function.update_self]
        · intro node member
          apply across.nextFirst node (List.mem_cons_of_mem head member)
          intro same
          rw [same] at member
          exact (List.nodup_cons.mp ring.distinct).1 member
        · intro node member
          apply across.prevFirst node
          · have within := List.mem_of_mem_tail member
            rw [List.mem_append, List.mem_singleton] at within
            rw [List.mem_cons]
            exact within.symm
          · exact ne_first_of_mem_tail ring.distinct member
  · intro node outside beyond
    constructor
    · rw [next, Function.update_of_ne, Function.update_of_ne]
      · intro same
        exact outside (same ▸ List.mem_cons_self)
      · intro same
        exact beyond (same ▸ fourthIn)
    · rw [prev, Function.update_of_ne, Function.update_of_ne]
      · intro same
        exact beyond (same ▸ List.mem_cons_self)
      · intro same
        exact outside (same ▸ thirdIn)

/-! ### Putting a node into a ring -/

theorem insert_eq {left right : Node} (linked : Linked links left right) (fresh : left ≠ node) :
    ∃ after, links.insert left node = some after ∧
      after.next = Function.update (Function.update links.next left (some node)) node (some right) ∧
      after.prev = Function.update (Function.update links.prev node (some left)) right (some node) := by
  have third : (links.single node).next left = some right := by
    rw [Links.single_next, Function.update_of_ne fresh]
    exact linked.1
  have fourth : (links.single node).prev node = some node := by simp
  refine ⟨((((links.single node).setNext left (some node)).setPrev node (some left)).setNext node
    (some right)).setPrev right (some node), ?_, ?_, ?_⟩
  · unfold Links.insert Links.merge
    rw [third, fourth]
    rfl
  · simp only [Links.setPrev_next, Links.setNext_next, Links.single_next]
    rw [Function.update_comm fresh.symm, Function.update_idem]
  · simp only [Links.setPrev_prev, Links.setNext_prev, Links.single_prev, Function.update_idem]

theorem IsRing.insert {before behind : List Node} (ring : IsRing links head (before ++ behind))
    (fresh : node ∉ head :: (before ++ behind)) :
    ∃ after, links.insert (before.getLast?.getD head) node = some after ∧
      IsRing after head (before ++ node :: behind) ∧
      ∀ other, other ∉ head :: (before ++ behind) → other ≠ node → Untouched links after other := by
  obtain ⟨distinct, path⟩ := ring
  obtain ⟨leftIn, rightIn⟩ := mem_ring_across head before behind
  have left : before.getLast?.getD head ≠ node := fun same => fresh (same ▸ leftIn)
  have right : node ≠ behind.head?.getD head := fun same => fresh (same ▸ rightIn)
  obtain ⟨after, inserted, next, prev⟩ := insert_eq path.suffix.first_linked left
  have same : Beside links after head node before behind := by
    apply Beside.of_across distinct fresh
    · intro other apart new
      rw [next, Function.update_of_ne new, Function.update_of_ne apart]
    · intro other apart new
      rw [prev, Function.update_of_ne apart, Function.update_of_ne new]
  refine ⟨after, inserted, ⟨?_, ?_⟩, same.outside⟩
  · have perm : (head :: (before ++ node :: behind)).Perm (node :: head :: (before ++ behind)) :=
      (List.perm_middle.cons head).trans (List.Perm.swap _ _ _)
    rw [perm.nodup_iff]
    exact List.nodup_cons.mpr ⟨fresh, distinct⟩
  · apply path.splice same.early same.earlyBack
    constructor
    · constructor
      · rw [next, Function.update_of_ne left, Function.update_self]
      · rw [prev, Function.update_of_ne right, Function.update_self]
    · apply path.suffix.restart _ same.late same.lateBack
      constructor
      · rw [next, Function.update_self]
      · rw [prev, Function.update_self]

theorem IsRing.insert_first (ring : IsRing links head nodes) (fresh : node ∉ head :: nodes) :
    ∃ after, links.insert head node = some after ∧ IsRing after head (node :: nodes) ∧
      ∀ other, other ∉ head :: nodes → other ≠ node → Untouched links after other := by
  have whole : IsRing links head ([] ++ nodes) := ring
  exact whole.insert fresh

theorem IsRing.insert_last (ring : IsRing links head nodes) (fresh : node ∉ head :: nodes) :
    ∃ left, links.prev head = some left ∧
      ∃ after, links.insert left node = some after ∧ IsRing after head (nodes ++ [node]) ∧
        ∀ other, other ∉ head :: nodes → other ≠ node → Untouched links after other := by
  refine ⟨nodes.getLast?.getD head, ring.path.prev_eq, ?_⟩
  have whole : IsRing links head (nodes ++ []) := by
    rw [List.append_nil]
    exact ring
  have outside : node ∉ head :: (nodes ++ []) := by
    rw [List.append_nil]
    exact fresh
  have inserted := whole.insert outside
  rw [List.append_nil] at inserted
  exact inserted

/-! ### Taking a node out of a ring -/

theorem detach_eq {left right : Node} (before : Linked links left node)
    (behind : Linked links node right) (leftApart : left ≠ node) :
    ∃ after, links.detach node = some after ∧
      after.next = Function.update (Function.update links.next left (some right)) node (some node) ∧
      after.prev = Function.update (Function.update links.prev right (some left)) node (some node) := by
  refine ⟨((links.setNext left (some right)).setPrev right (some left)).single node, ?_, rfl, rfl⟩
  unfold Links.detach
  have second : (links.setNext left (some right)).next node = some right := by
    rw [Links.setNext_next, Function.update_of_ne leftApart.symm]
    exact behind.1
  rw [before.2, behind.1]
  simp only [Option.bind_eq_bind, Option.bind_some, second]
  rfl

theorem IsRing.detach {before behind : List Node}
    (ring : IsRing links head (before ++ node :: behind)) :
    ∃ after, links.detach node = some after ∧ IsRing after head (before ++ behind) ∧
      IsRing after node [] ∧
      ∀ other, other ∉ head :: (before ++ behind) → other ≠ node → Untouched links after other := by
  obtain ⟨distinct, path⟩ := ring
  have perm : (head :: (before ++ node :: behind)).Perm (node :: head :: (before ++ behind)) :=
    (List.perm_middle.cons head).trans (List.Perm.swap _ _ _)
  rw [perm.nodup_iff, List.nodup_cons] at distinct
  obtain ⟨fresh, distinct⟩ := distinct
  obtain ⟨leftIn, rightIn⟩ := mem_ring_across head before behind
  have left : before.getLast?.getD head ≠ node := fun same => fresh (same ▸ leftIn)
  have right : behind.head?.getD head ≠ node := fun same => fresh (same ▸ rightIn)
  obtain ⟨linked, rest⟩ := path.suffix
  obtain ⟨after, detached, next, prev⟩ := detach_eq linked rest.first_linked left
  have same : Beside links after head node before behind := by
    apply Beside.of_across distinct fresh
    · intro other apart new
      rw [next, Function.update_of_ne new, Function.update_of_ne apart]
    · intro other apart new
      rw [prev, Function.update_of_ne new, Function.update_of_ne apart]
  refine ⟨after, detached, ⟨distinct, ?_⟩, ⟨by simp, ?_⟩, same.outside⟩
  · apply path.splice same.early same.earlyBack
    apply rest.restart _ same.late same.lateBack
    constructor
    · rw [next, Function.update_of_ne left, Function.update_self]
    · rw [prev, Function.update_of_ne right, Function.update_self]
  · constructor
    · rw [next, Function.update_self]
    · rw [prev, Function.update_self]

theorem IsRing.detach_alone (ring : IsRing links node []) :
    ∃ after, links.detach node = some after ∧ IsRing after node [] ∧
      ∀ other, other ≠ node → Untouched links after other := by
  obtain ⟨next, prev⟩ := ring.path
  refine ⟨((links.setNext node (some node)).setPrev node (some node)).single node, ?_,
    IsRing.single _ node, ?_⟩
  · unfold Links.detach
    have behind : (links.setNext node (some node)).next node = some node := by
      rw [Links.setNext_next, Function.update_self]
    rw [prev, next]
    simp only [Option.bind_eq_bind, Option.bind_some, behind]
    rfl
  · intro other different
    constructor
    · simp only [Links.single_next, Links.setPrev_next, Links.setNext_next,
        Function.update_of_ne different]
    · simp only [Links.single_prev, Links.setPrev_prev, Links.setNext_prev,
        Function.update_of_ne different]

end LabKernel.Rings
