/-
The process tree over list nodes.

Every process has the head of a list and a node on the list of its parent. Here the calls of
`proc.c` work on the links of these nodes, which hold anything until a process is made. They
follow no null link, their loops end, and they do what the calls of the process tree do.
-/

import LabKernel.Common.List
import LabKernel.Kernel.Exit
import Mathlib.Data.List.Perm.Subperm

set_option autoImplicit false

namespace LabKernel.Kernel

open Common Rings Transition

/-! ### The calls on the links -/

/-- `children` and `ptnode` of a process. -/
inductive PtNode where
  | children (index : Nat)
  | ptnode (index : Nat)
  deriving DecidableEq

/-- The process that a loop over children comes to at a node; the head is skipped. -/
def PtNode.child : PtNode → Option Nat
  | .children _ => none
  | .ptnode index => some index

/-- The two calls of `init_list_node` in `init_proc`. -/
def initNodes (links : Links PtNode) (index : Nat) : Links PtNode :=
  (links.single (.children index)).single (.ptnode index)

/-- The process tree with the links of its nodes; the lists that the tree itself has are empty. -/
structure LinkedTree where
  tree : ProcTree
  links : Links PtNode

/-- After `define_init(root_proc)`, in memory that held these links. -/
def LinkedTree.initial (links : Links PtNode) : LinkedTree :=
  { tree := ProcTree.initial, links := initNodes links rootProc }

namespace LinkedTree

variable (sys : LinkedTree)

def setTree (tree : ProcTree) : LinkedTree := { sys with tree := tree }

def createProc : LinkedTree :=
  { tree := sys.tree.createProc, links := initNodes sys.links sys.tree.made }

def setProcParent (child parent : Nat) : Except Stop LinkedTree :=
  match sys.links.insert (.children parent) (.ptnode child) with
  | none => .error .nullLink
  | some links =>
      .ok { tree := { sys.tree with
              parent := Function.update sys.tree.parent child (some parent)
              history := sys.tree.history ++ [.adopted child parent] }
            links := links }

/-- `start_proc` up to the point where the process is to be woken. -/
def startProc (child : Nat) : Except Stop LinkedTree :=
  match if sys.tree.parent child = none then sys.setProcParent child rootProc else .ok sys with
  | .error stop => .error stop
  | .ok adopted =>
      .ok (adopted.setTree { adopted.tree with
        birth := Function.update adopted.tree.birth child .starting })

/-- The children that a loop over the list of a process comes to. The list has at most the nodes of
all processes, and its head. -/
def visit (this : Nat) : Except Stop (List Nat) :=
  match forInList sys.links (.children this) (sys.tree.made + 1)
      (sys.links.next (.children this)) with
  | none => .error .endless
  | some visited => .ok (visited.filterMap PtNode.child)

def kill (pid : Int) : Except Stop (Int × LinkedTree) :=
  match sys.visit rootProc with
  | .error stop => .error stop
  | .ok children =>
      match children.find?
          (fun child => sys.tree.pid child = pid ∧ sys.tree.state child ≠ .unused) with
      | none => .ok (-1, sys)
      | some child =>
          if sys.tree.state child = .unused then .error .assertion
          else
            .ok (0, sys.setTree (sys.tree.setWaiters (sys.tree.waiters.setProcs
              ((sys.tree.waiters.procs.setKilled child).activate child true))))

def exit (this : Nat) (code : Int) : Except Stop LinkedTree :=
  if this = rootProc then .error .assertion
  else
    match transfer sys.links (.children this) (.children rootProc) (sys.tree.made + 1) with
    | none => .error .nullLink
    | some (visited, links) =>
        let parent := fun child =>
          if PtNode.ptnode child ∈ visited then some rootProc else sys.tree.parent child
        match parent this with
        | none => .error .nullLink
        | some notified =>
            match sys.tree.waiters.passTokens this
                ((sys.tree.waiters.childexit this).val.toNat + 1) with
            | .error stop => .error stop
            | .ok passed =>
                match passed.postChildexit notified with
                | .error stop => .error stop
                | .ok posted =>
                    .ok { tree := { sys.tree with
                            waiters := posted.setProcs (posted.procs.leave this .zombie)
                            exitcode := Function.update sys.tree.exitcode this code
                            parent := parent
                            history := sys.tree.history ++ [.exited this code] }
                          links := links }

/-- The first section of `wait`. -/
def waitCheck (this : Nat) : LinkedTree :=
  if sys.links.next (.children this) = some (.children this) then
    sys.setTree (sys.tree.record (.failed this))
  else sys.setTree (sys.tree.setWaiters (sys.tree.waiters.setCall this .checked))

/-- The last section of `wait`. -/
def waitReap (this : Nat) : Except Stop LinkedTree :=
  match sys.visit this with
  | .error stop => .error stop
  | .ok children =>
      match children.find? (fun child => sys.tree.state child = .zombie) with
      | none => .error .panic
      | some child =>
          match sys.links.detach (.ptnode child) with
          | none => .error .nullLink
          | some links =>
              .ok { tree := { sys.tree with
                      waiters := sys.tree.waiters.setCall this .outside
                      reaped := Function.update sys.tree.reaped child true }.record
                        (.reaped this child (sys.tree.pid child) (sys.tree.exitcode child))
                    links := links }

end LinkedTree

/-- The calls that come to a list; the others are as for the tree. -/
def linkStep (sys : LinkedTree) : ProcAction → Except Stop LinkedTree
  | .createProc => .ok sys.createProc
  | .setParentToThis this child =>
      if sys.tree.RunsAt this .outside ∧ child < sys.tree.made ∧ sys.tree.birth child = .fresh ∧
          sys.tree.parent child = none then
        sys.setProcParent child this
      else .error .disabled
  | .startProc child =>
      if child < sys.tree.made ∧ sys.tree.birth child = .fresh then sys.startProc child
      else .error .disabled
  | .kill pid => (sys.kill pid).map Prod.snd
  | .exit this code =>
      if sys.tree.RunsAt this .outside then sys.exit this code else .error .disabled
  | .wait this =>
      if sys.tree.RunsAt this .outside then .ok (sys.waitCheck this) else .error .disabled
  | .reap this =>
      if sys.tree.RunsAt this .token then sys.waitReap this else .error .disabled
  | action => (procStep sys.tree action).map sys.setTree

/-! ### What the links hold -/

/-- A tree with its lists left out. -/
def ProcTree.hidden (tree : ProcTree) : ProcTree := { tree with children := fun _ => [] }

/-- The list at every process that has been made is that of its children. -/
structure LinkedTree.Shows (sys : LinkedTree) (tree : ProcTree) : Prop where
  same : sys.tree = tree.hidden
  rings : ∀ index, index < tree.made →
    IsRing sys.links (.children index) ((tree.children index).map .ptnode)

def LinkedTree.Agrees : Except Stop LinkedTree → Except Stop ProcTree → Prop
  | .ok sys, .ok tree => sys.Shows tree
  | .error stop, .error reason => stop = reason
  | .ok _, .error _ | .error _, .ok _ => False

section

variable {links : Links PtNode} {this child parent index : Nat} {indices : List Nat}

theorem single_other {node other : PtNode} (different : other ≠ node) :
    Untouched links (links.single node) other := by
  constructor
  · rw [Links.single_next, Function.update_of_ne different]
  · rw [Links.single_prev, Function.update_of_ne different]

theorem initNodes_ring : IsRing (initNodes links index) (.children index) [] := by
  apply (IsRing.single links (.children index)).frame
  intro node member
  rw [List.mem_singleton.mp member]
  exact single_other (by simp)

theorem initNodes_other {node : PtNode} (head : node ≠ .children index)
    (own : node ≠ .ptnode index) : Untouched links (initNodes links index) node := by
  have first : Untouched links (links.single (.children index)) node := single_other head
  have second : Untouched (links.single (.children index)) (initNodes links index) node :=
    single_other own
  exact ⟨second.1.trans first.1, second.2.trans first.2⟩

theorem ptnode_mem_iff :
    PtNode.ptnode child ∈ PtNode.children this :: indices.map .ptnode ↔ child ∈ indices := by
  simp

theorem head_not_mem (different : parent ≠ this) :
    PtNode.children parent ∉ PtNode.children this :: indices.map .ptnode := by
  simp [different]

theorem filterMap_child :
    (indices.map PtNode.ptnode ++ [PtNode.children this]).filterMap PtNode.child =
    indices := by
  rw [List.filterMap_append, List.filterMap_map]
  have own : (PtNode.child ∘ PtNode.ptnode) = some := rfl
  rw [own, List.filterMap_some]
  exact List.append_nil indices

end

namespace ProcTree

variable {tree : ProcTree} {index : Nat}

theorem Kinship.children_made (kin : tree.Kinship) :
    ∀ child ∈ tree.children index, child < tree.made :=
  fun child member => kin.child_made ((kin.listed child index).mp member).1

theorem Kinship.children_few (kin : tree.Kinship) :
    (tree.children index).length < tree.made + 1 := by
  have some_of_all : (tree.children index).Subperm (List.range tree.made) := by
    apply List.subperm_of_subset (kin.distinct index)
    intro child member
    exact List.mem_range.mpr (kin.children_made child member)
  have few := some_of_all.length_le
  rw [List.length_range] at few
  exact Nat.lt_succ_of_le few

theorem Kinship.running_made (kin : tree.Kinship) (running : tree.state index = .running) :
    index < tree.made := by
  by_contra later
  rw [(kin.unmade_waiters (Nat.le_of_not_lt later)).1] at running
  cases running

end ProcTree

namespace LinkedTree

variable {sys : LinkedTree} {tree : ProcTree} {this child parent : Nat}

theorem Shows.initial (links : Links PtNode) : (LinkedTree.initial links).Shows .initial := by
  constructor
  · rfl
  · intro index made
    have root : index = rootProc := Nat.lt_one_iff.mp made
    rw [root]
    exact initNodes_ring

theorem Shows.visit (shows : sys.Shows tree) (kin : tree.Kinship) (made : this < tree.made) :
    sys.visit this = .ok (tree.children this) := by
  have few : ((tree.children this).map PtNode.ptnode).length < tree.made + 1 := by
    rw [List.length_map]
    exact kin.children_few
  unfold LinkedTree.visit
  rw [shows.same]
  change (match forInList sys.links _ (tree.made + 1) _ with | none => _ | some visited => _) = _
  rw [forInList_ring (shows.rings this made) few]
  simp only [filterMap_child]

theorem Shows.setTree (shows : sys.Shows tree) {next : ProcTree} {after : ProcTree}
    (same : after = next.hidden) (children : next.children = tree.children)
    (made : next.made = tree.made) : (sys.setTree after).Shows next := by
  constructor
  · exact same
  · rw [children, made]
    exact shows.rings

theorem hidden_createProc (tree : ProcTree) : tree.hidden.createProc = tree.createProc.hidden := by
  unfold ProcTree.createProc ProcTree.hidden
  congr 1
  exact Function.update_eq_self tree.made (fun _ => ([] : List Nat))

theorem Shows.createProc (shows : sys.Shows tree) (kin : tree.Kinship) :
    sys.createProc.Shows tree.createProc := by
  obtain ⟨hidden, links⟩ := sys
  obtain rfl : hidden = tree.hidden := shows.same
  constructor
  · exact hidden_createProc tree
  · intro index made
    change index < tree.made + 1 at made
    change IsRing (initNodes links tree.made) _
      ((Function.update tree.children tree.made [] index).map _)
    by_cases new : index = tree.made
    · rw [new, Function.update_self]
      exact initNodes_ring
    · rw [Function.update_of_ne new]
      have old : index < tree.made := by omega
      apply (shows.rings index old).frame
      intro node member
      apply initNodes_other
      · intro same
        rw [same] at member
        exact head_not_mem (Ne.symm new) member
      · intro same
        rw [same, ptnode_mem_iff] at member
        exact absurd (kin.children_made tree.made member) (Nat.lt_irrefl _)

/-- A process without a parent is on no list. -/
theorem Shows.setProcParent (shows : sys.Shows tree) (kin : tree.Kinship)
    (orphan : tree.parent child = none) (made : parent < tree.made) :
    ∃ after, sys.setProcParent child parent = .ok after ∧
      after.Shows (tree.setProcParent child parent) := by
  obtain ⟨hidden, links⟩ := sys
  obtain rfl : hidden = tree.hidden := shows.same
  have single : ∀ index, child ∉ tree.children index := by
    intro index member
    have adopted := ((kin.listed child index).mp member).1
    rw [orphan] at adopted
    cases adopted
  have fresh : PtNode.ptnode child ∉
      PtNode.children parent :: (tree.children parent).map .ptnode := by
    rw [ptnode_mem_iff]
    exact single parent
  obtain ⟨final, inserted, first, untouched⟩ := (shows.rings parent made).insert_first fresh
  refine ⟨{ tree := (tree.setProcParent child parent).hidden, links := final }, ?_, rfl, ?_⟩
  · unfold LinkedTree.setProcParent
    rw [inserted]
    rfl
  intro index old
  change IsRing final _
    ((Function.update tree.children parent (child :: tree.children parent) index).map _)
  by_cases same : index = parent
  · rw [same, Function.update_self]
    exact first
  · rw [Function.update_of_ne same]
    have apart := (shows.rings parent made).disjoint (shows.rings index old) (head_not_mem same)
    apply (shows.rings index old).frame
    intro other member
    apply untouched other (fun inside => apart other inside member)
    intro new
    rw [new, ptnode_mem_iff] at member
    exact single index member

theorem Shows.startProc (shows : sys.Shows tree) (kin : tree.Kinship) :
    ∃ after, sys.startProc child = .ok after ∧ after.Shows (tree.startProc child) := by
  have started : ∀ {adopted : LinkedTree} {next : ProcTree}, adopted.Shows next →
      (adopted.setTree { adopted.tree with
        birth := Function.update adopted.tree.birth child .starting }).Shows
          { next with birth := Function.update next.birth child .starting } := by
    intro adopted next there
    refine there.setTree ?_ rfl rfl
    rw [there.same]
    rfl
  have same : sys.tree.parent child = tree.parent child := by
    rw [shows.same]
    rfl
  unfold LinkedTree.startProc ProcTree.startProc
  rw [same]
  by_cases orphan : tree.parent child = none
  · obtain ⟨adopted, went, there⟩ := shows.setProcParent kin orphan kin.root_made
    rw [if_pos orphan, if_pos orphan, went]
    exact ⟨_, rfl, started there⟩
  · rw [if_neg orphan, if_neg orphan]
    exact ⟨_, rfl, started shows⟩

theorem detachedChildren_eq : tree.detachedChildren this =
    (tree.children this).getLast?.toList ++ (tree.children this).dropLast := by
  unfold ProcTree.detachedChildren
  cases tree.children this with
  | nil => rfl
  | cons first rest => rfl

theorem Shows.kill (shows : sys.Shows tree) (kin : tree.Kinship) (pid : Int) :
    Agrees ((sys.kill pid).map Prod.snd) ((tree.kill pid).map Prod.snd) := by
  have visited := shows.visit kin kin.root_made
  obtain ⟨hidden, links⟩ := sys
  obtain rfl : hidden = tree.hidden := shows.same
  have searched : (tree.children rootProc).find?
      (fun child => tree.hidden.pid child = pid ∧ tree.hidden.state child ≠ .unused) =
        tree.findChild pid := rfl
  unfold LinkedTree.kill ProcTree.kill
  simp only [visited, searched]
  cases tree.findChild pid with
  | none => exact shows
  | some child =>
      change Agrees (Except.map _ (if tree.state child = .unused then _ else _)) _
      simp only
      by_cases unused : tree.state child = .unused
      · rw [if_pos unused, if_pos unused]
        exact rfl
      · rw [if_neg unused, if_neg unused]
        exact shows.setTree rfl rfl rfl

/-- The children of a process that exits come in front of those `root_proc` has. -/
theorem Shows.exit (shows : sys.Shows tree) (kin : tree.Kinship) (made : this < tree.made)
    (code : Int) : Agrees (sys.exit this code) (tree.exit this code) := by
  obtain ⟨hidden, links⟩ := sys
  obtain rfl : hidden = tree.hidden := shows.same
  unfold LinkedTree.exit ProcTree.exit
  by_cases root : this = rootProc
  · rw [if_pos root, if_pos root]
    exact rfl
  rw [if_neg root, if_neg root]
  have few : ((tree.children this).map PtNode.ptnode).length < tree.made + 1 := by
    rw [List.length_map]
    exact kin.children_few
  obtain ⟨final, transferred, alone, whole, kept⟩ :=
    transfer_rings (shows.rings this made) (shows.rings rootProc kin.root_made)
      (head_not_mem (Ne.symm root)) few
  have adopted : (fun child =>
      if PtNode.ptnode child ∈ (tree.children this).map PtNode.ptnode then some rootProc
      else tree.hidden.parent child) = fun child =>
        if child ∈ tree.detachedChildren this then some rootProc else tree.parent child := by
    funext child
    apply if_congr _ rfl rfl
    rw [(tree.detachedChildren_perm this).mem_iff]
    simp
  have own : (if PtNode.ptnode this ∈ (tree.children this).map PtNode.ptnode then some rootProc
      else tree.hidden.parent this) =
        if this ∈ tree.detachedChildren this then some rootProc else tree.parent this :=
    congrFun adopted this
  have transferred : transfer links (.children this) (.children rootProc) (tree.hidden.made + 1) =
      some ((tree.children this).map .ptnode, final) := transferred
  simp only [transferred, adopted, own]
  have sameWaiters : tree.hidden.waiters = tree.waiters := rfl
  rw [sameWaiters]
  cases (if this ∈ tree.detachedChildren this then some rootProc else tree.parent this) with
  | none => exact rfl
  | some notified =>
      simp only
      cases tree.waiters.passTokens this ((tree.waiters.childexit this).val.toNat + 1) with
      | error stop => exact rfl
      | ok passed =>
          simp only
          cases passed.postChildexit notified with
          | error stop => exact rfl
          | ok posted =>
              constructor
              · rfl
              intro index old
              change IsRing final _ ((Function.update (Function.update tree.children this [])
                rootProc (tree.detachedChildren this ++
                  Function.update tree.children this [] rootProc) index).map _)
              rw [Function.update_of_ne (Ne.symm root)]
              by_cases first : index = rootProc
              · rw [first, Function.update_self, detachedChildren_eq, List.map_append,
                  List.map_append, List.map_dropLast, ← Option.toList_map, ← List.getLast?_map]
                exact whole
              · rw [Function.update_of_ne first]
                by_cases same : index = this
                · rw [same, Function.update_self]
                  exact alone
                · rw [Function.update_of_ne same]
                  apply kept.rings _ _ _ (shows.rings index old)
                  rw [List.mem_append, not_or]
                  exact ⟨head_not_mem same, head_not_mem first⟩

theorem Shows.waitCheck (shows : sys.Shows tree) (made : this < tree.made) :
    (sys.waitCheck this).Shows (tree.waitCheck this) := by
  have empty : sys.links.next (.children this) = some (.children this) ↔
      tree.children this = [] := by
    have ring := shows.rings this made
    cases children : tree.children this with
    | nil =>
        rw [children] at ring
        exact iff_of_true ring.path.1 rfl
    | cons first rest =>
        rw [children] at ring
        apply iff_of_false _ (List.cons_ne_nil first rest)
        intro same
        rw [ring.path.1.1] at same
        cases same
  unfold LinkedTree.waitCheck ProcTree.waitCheck
  by_cases none : tree.children this = []
  · rw [if_pos none, if_pos (empty.mpr none), shows.same]
    exact shows.setTree rfl rfl rfl
  · rw [if_neg none, if_neg (fun same => none (empty.mp same)), shows.same]
    exact shows.setTree rfl rfl rfl

/-- The zombie is taken off the list that it is found on. -/
theorem Shows.waitReap (shows : sys.Shows tree) (kin : tree.Kinship) (made : this < tree.made) :
    Agrees (sys.waitReap this) (tree.waitReap this) := by
  have visited := shows.visit kin made
  obtain ⟨hidden, links⟩ := sys
  obtain rfl : hidden = tree.hidden := shows.same
  unfold LinkedTree.waitReap ProcTree.waitReap
  rw [visited]
  change Agrees (match (tree.children this).find? (fun child => tree.state child = .zombie) with
    | none => _ | some child => _) _
  cases found : (tree.children this).find? (fun child => tree.state child = .zombie) with
  | none => exact rfl
  | some child =>
      obtain ⟨before, behind, parts⟩ := List.append_of_mem (List.mem_of_find?_eq_some found)
      have ring := shows.rings this made
      rw [parts, List.map_append, List.map_cons] at ring
      obtain ⟨final, detached, whole, -, untouched⟩ := ring.detach
      simp only [detached]
      constructor
      · rfl
      intro index old
      change IsRing final _ ((Function.update tree.children this
        ((tree.children this).erase child) index).map _)
      by_cases same : index = this
      · rw [same, Function.update_self, parts, List.erase_append_right, List.erase_cons_head,
          List.map_append]
        · exact whole
        · have distinct := kin.distinct this
          rw [parts, List.nodup_append] at distinct
          intro earlier
          exact distinct.2.2 child earlier child List.mem_cons_self rfl
      · rw [Function.update_of_ne same]
        have separate := ring.disjoint (shows.rings index old) (by
          rw [← List.map_cons, ← List.map_append]
          exact head_not_mem same)
        apply (shows.rings index old).frame
        intro other member
        apply untouched other
        · intro inside
          apply separate other _ member
          simp only [List.mem_cons, List.mem_append] at inside ⊢
          tauto
        · intro gone
          apply separate other _ member
          rw [gone]
          simp

theorem agrees_ite {allowed own : Prop} [Decidable allowed] [Decidable own] (same : allowed ↔ own)
    {first second : Except Stop LinkedTree} {left right : Except Stop ProcTree}
    (yes : own → Agrees first left) (no : ¬own → Agrees second right) :
    Agrees (if allowed then first else second) (if own then left else right) := by
  by_cases holds : own
  · rw [if_pos holds, if_pos (same.mpr holds)]
    exact yes holds
  · rw [if_neg holds, if_neg (fun other => holds (same.mp other))]
    exact no holds

def ListFree : ProcAction → Prop
  | .activateProc _ | .waitSem _ | .resume _ | .dispatch _ | .yield _ | .sleep _ _ | .wake _ => True
  | _ => False

/-- Two steps without lists end alike, and the lists stay. -/
structure Alike (tree : ProcTree) (first left : Except Stop ProcTree) : Prop where
  hidden : first = left.map ProcTree.hidden
  kept : ∀ next, left = .ok next → next.children = tree.children ∧ next.made = tree.made

theorem Alike.error (stop : Stop) : Alike tree (.error stop) (.error stop) := by
  refine ⟨rfl, ?_⟩
  intro next impossible
  cases impossible

theorem Alike.ok {first next : ProcTree} (hidden : first = next.hidden)
    (children : next.children = tree.children) (made : next.made = tree.made) :
    Alike tree (.ok first) (.ok next) := by
  refine ⟨congrArg Except.ok hidden, ?_⟩
  intro other same
  cases same
  exact ⟨children, made⟩

theorem Alike.ite {allowed own : Prop} [Decidable allowed] [Decidable own] (same : allowed ↔ own)
    {first second left right : Except Stop ProcTree} (yes : own → Alike tree first left)
    (no : ¬own → Alike tree second right) :
    Alike tree (if allowed then first else second) (if own then left else right) := by
  by_cases holds : own
  · rw [if_pos holds, if_pos (same.mpr holds)]
    exact yes holds
  · rw [if_neg holds, if_neg (fun other => holds (same.mp other))]
    exact no holds

theorem Alike.waitResume (this : Nat) (up : Bool) :
    Alike tree (tree.hidden.waitResume this up) (tree.waitResume this up) :=
  Alike.ite Iff.rfl (fun _ => .ok rfl rfl rfl)
    (fun _ => Alike.ite Iff.rfl (fun _ => .ok rfl rfl rfl) (fun _ => .error _))

theorem Alike.step {action : ProcAction} (free : ListFree action) :
    Alike tree (procStep tree.hidden action) (procStep tree action) := by
  cases action with
  | activateProc child => exact Alike.ite Iff.rfl (fun _ => .ok rfl rfl rfl) (fun _ => .error _)
  | waitSem this => exact Alike.ite Iff.rfl (fun _ => .ok rfl rfl rfl) (fun _ => .error _)
  | resume this =>
      have same : tree.hidden.waiters = tree.waiters := rfl
      simp only [procStep]
      rw [same]
      cases tree.waiters.calls this with
      | asleep up => exact Alike.ite Iff.rfl (fun _ => .waitResume this up) (fun _ => .error _)
      | outside => exact .error _
      | checked => exact .error _
      | token => exact .error _
  | dispatch index => exact Alike.ite Iff.rfl (fun _ => .ok rfl rfl rfl) (fun _ => .error _)
  | yield index => exact Alike.ite Iff.rfl (fun _ => .ok rfl rfl rfl) (fun _ => .error _)
  | sleep index deep => exact Alike.ite Iff.rfl (fun _ => .ok rfl rfl rfl) (fun _ => .error _)
  | wake index => exact Alike.ite Iff.rfl (fun _ => .ok rfl rfl rfl) (fun _ => .error _)
  | createProc => exact free.elim
  | setParentToThis this child => exact free.elim
  | startProc child => exact free.elim
  | kill pid => exact free.elim
  | exit this code => exact free.elim
  | wait this => exact free.elim
  | reap this => exact free.elim

/-- A step on the links is the step of the tree. -/
theorem Shows.step (shows : sys.Shows tree) (kin : tree.Kinship) (action : ProcAction) :
    Agrees (linkStep sys action) (procStep tree action) := by
  have free : ListFree action → linkStep sys action = (procStep sys.tree action).map sys.setTree →
      Agrees (linkStep sys action) (procStep tree action) := by
    intro free apart
    obtain ⟨hidden, kept⟩ : Alike tree _ _ := .step free
    rw [apart, shows.same, hidden]
    cases went : procStep tree action with
    | error stop => exact rfl
    | ok next => exact shows.setTree rfl (kept next went).1 (kept next went).2
  obtain ⟨hidden, links⟩ := sys
  obtain rfl : hidden = tree.hidden := shows.same
  have returned : ∀ {result : Except Stop LinkedTree} {next : ProcTree},
      (∃ after, result = .ok after ∧ after.Shows next) → Agrees result (.ok next) := by
    rintro result next ⟨after, rfl, there⟩
    exact there
  cases action with
  | createProc => exact shows.createProc kin
  | setParentToThis this child =>
      exact agrees_ite Iff.rfl
        (fun allowed => returned (shows.setProcParent kin allowed.2.2.2
          (kin.running_made allowed.1.1))) (fun _ => rfl)
  | startProc child =>
      exact agrees_ite Iff.rfl (fun _ => returned (shows.startProc kin)) (fun _ => rfl)
  | kill pid => exact shows.kill kin pid
  | exit this code =>
      exact agrees_ite Iff.rfl (fun runs => shows.exit kin (kin.running_made runs.1) code)
        (fun _ => rfl)
  | wait this =>
      exact agrees_ite Iff.rfl (fun runs => shows.waitCheck (kin.running_made runs.1))
        (fun _ => rfl)
  | reap this =>
      exact agrees_ite Iff.rfl (fun runs => shows.waitReap kin (kin.running_made runs.1))
        (fun _ => rfl)
  | activateProc child => exact free trivial rfl
  | waitSem this => exact free trivial rfl
  | resume this => exact free trivial rfl
  | dispatch index => exact free trivial rfl
  | yield index => exact free trivial rfl
  | sleep index deep => exact free trivial rfl
  | wake index => exact free trivial rfl

end LinkedTree

/-- On the list nodes the calls follow no null link, their loops end, and in every run they do what
the calls of the process tree do. -/
theorem child_lists_linked (links : Links PtNode) {actions : List ProcAction} {sys : LinkedTree}
    (run : Run linkStep (fun _ _ => True) (LinkedTree.initial links) actions sys) :
    (∃ tree, Run procStep (fun _ _ => True) ProcTree.initial actions tree ∧ sys.Shows tree ∧
      ∀ action, LinkedTree.Agrees (linkStep sys action) (procStep tree action)) ∧
    ∀ action, (∀ code, action ≠ .exit rootProc code) →
      linkStep sys action = .error .disabled ∨ ∃ after, linkStep sys action = .ok after := by
  have shown : ∃ tree, Run procStep (fun _ _ => True) ProcTree.initial actions tree ∧
      sys.Shows tree := by
    induction run with
    | start => exact ⟨_, .start, LinkedTree.Shows.initial links⟩
    | @next _ _ _ action _ _ taken ih =>
        obtain ⟨tree, earlier, shows⟩ := ih
        have kin := (ProcTree.Sound.of_reachable earlier.reachable).1
        have agrees := shows.step kin action
        rw [taken] at agrees
        cases went : procStep tree action with
        | error stop =>
            rw [went] at agrees
            cases agrees
        | ok next =>
            rw [went] at agrees
            exact ⟨next, earlier.next trivial went, agrees⟩
  obtain ⟨tree, earlier, shows⟩ := shown
  have sound := ProcTree.Sound.of_reachable earlier.reachable
  refine ⟨⟨tree, earlier, shows, fun action => shows.step sound.1 action⟩, ?_⟩
  intro action allowed
  have agrees := shows.step sound.1 action
  cases own : linkStep sys action with
  | ok after => exact Or.inr ⟨after, rfl⟩
  | error stop =>
      rw [own] at agrees
      rcases sound.step action allowed with stopped | ⟨next, went, -⟩
      · rw [stopped] at agrees
        rw [show stop = .disabled from agrees]
        exact Or.inl rfl
      · rw [went] at agrees
        cases agrees

/-- A child exits and then its parent, whose list goes to `root_proc`, and the child is reaped. -/
theorem child_lists_linked_orphan :
    ∃ (actions : List ProcAction) (sys : LinkedTree) (tree : ProcTree),
      Run linkStep (fun _ _ => True)
        (LinkedTree.initial { prev := fun _ => none, next := fun _ => none }) actions sys ∧
      sys.tree.history.getLast? = some (.reaped 0 2 3 7) ∧
      sys.links.next (.children 0) = some (.ptnode 1) ∧ sys.Shows tree := by
  have run : Run linkStep (fun _ _ => True)
      (LinkedTree.initial { prev := fun _ => none, next := fun _ => none })
      [.dispatch 0, .createProc, .createProc, .startProc 1, .activateProc 1, .wait 0, .waitSem 0,
        .dispatch 1, .setParentToThis 1 2, .startProc 2, .activateProc 2, .dispatch 2, .exit 2 7,
        .exit 1 5, .dispatch 0, .resume 0, .reap 0] _ := Run.of_exec rfl (Guarded.trivial _ _)
  obtain ⟨⟨tree, -, shows, -⟩, -⟩ := child_lists_linked _ run
  exact ⟨_, _, tree, run, rfl, rfl, shows⟩

end LabKernel.Kernel
