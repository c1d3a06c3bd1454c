/-
Killing a process.

`kill` searches the children of `root_proc` for a number. A process further down in the tree is
not found until its parent has exited.
-/

import LabKernel.Kernel.Exit

set_option autoImplicit false

namespace LabKernel.Kernel

open Common Transition

namespace ProcTree

variable {tree after : ProcTree} {index : Nat} {pid : Int}

/-- The processes that hang below `root_proc`. -/
inductive InTree (tree : ProcTree) : Nat → Prop
  | root : InTree tree rootProc
  | child {parent child : Nat} (above : InTree tree parent)
      (listed : child ∈ tree.children parent) : InTree tree child

/-- A process below `root_proc` with this number, which has been started. -/
structure Target (tree : ProcTree) (pid : Int) (index : Nat) : Prop where
  inside : tree.InTree index
  below : index ≠ rootProc
  numbered : tree.pid index = pid
  used : tree.state index ≠ .unused

/-- The killed flag of the process is set and it is alerted. -/
def killed (tree : ProcTree) (index : Nat) : ProcTree :=
  tree.setWaiters (tree.waiters.setProcs
    ((tree.waiters.procs.setKilled index).activate index true))

/-- `kill` finds every process there is with a number, and does nothing if there is none. -/
structure KillFinds (tree : ProcTree) (pid : Int) : Prop where
  found : ∀ index, tree.Target pid index → tree.kill pid = .ok (0, tree.killed index)
  missing : (∀ index, ¬tree.Target pid index) → tree.kill pid = .ok (-1, tree)

/-! ### Numbers -/

/-- The processes are numbered in the order in which they are created. -/
structure Pids (tree : ProcTree) : Prop where
  next : tree.maxPid = tree.made
  given : ∀ index, index < tree.made → tree.pid index = index + 1

theorem Pids.initial : ProcTree.initial.Pids := by
  constructor
  · rfl
  · intro index below
    have same : index = rootProc := Nat.lt_one_iff.mp below
    simp [ProcTree.initial, same, rootProc]

theorem Pids.createProc (pids : tree.Pids) : tree.createProc.Pids := by
  constructor
  · change tree.maxPid + 1 = ((tree.made + 1 : Nat) : Int)
    rw [pids.next]
    rfl
  · intro index below
    change Function.update tree.pid tree.made (tree.maxPid + 1) index = _
    by_cases same : index = tree.made
    · rw [same, Function.update_self, pids.next]
    · rw [Function.update_of_ne same]
      apply pids.given
      change index < tree.made + 1 at below
      omega

theorem Pids.of_same (pids : tree.Pids) (made : after.made = tree.made)
    (pid : after.pid = tree.pid) (next : after.maxPid = tree.maxPid) : after.Pids := by
  constructor
  · rw [next, made, pids.next]
  · rw [made, pid]
    exact pids.given

theorem startProc_numbers (child : Nat) : (tree.startProc child).made = tree.made ∧
    (tree.startProc child).pid = tree.pid ∧ (tree.startProc child).maxPid = tree.maxPid := by
  unfold startProc
  split
  · exact ⟨rfl, rfl, rfl⟩
  · exact ⟨rfl, rfl, rfl⟩

theorem kill_numbers {ret : Int} (called : tree.kill pid = .ok (ret, after)) :
    after.made = tree.made ∧ after.pid = tree.pid ∧ after.maxPid = tree.maxPid := by
  unfold kill at called
  split at called
  · cases called
    exact ⟨rfl, rfl, rfl⟩
  · split at called
    · cases called
    · cases called
      exact ⟨rfl, rfl, rfl⟩

theorem exit_numbers {this : Nat} {code : Int} (called : tree.exit this code = .ok after) :
    after.made = tree.made ∧ after.pid = tree.pid ∧ after.maxPid = tree.maxPid := by
  unfold exit at called
  split at called
  · cases called
  · simp only at called
    split at called
    · cases called
    · split at called
      · cases called
      · split at called
        · cases called
        · cases called
          exact ⟨rfl, rfl, rfl⟩

theorem waitResume_numbers {this : Nat} {up : Bool} (called : tree.waitResume this up = .ok after) :
    after.made = tree.made ∧ after.pid = tree.pid ∧ after.maxPid = tree.maxPid := by
  unfold waitResume at called
  split at called
  · cases called
    exact ⟨rfl, rfl, rfl⟩
  · simp only at called
    split at called
    · cases called
      exact ⟨rfl, rfl, rfl⟩
    · cases called

theorem waitReap_numbers {this : Nat} (called : tree.waitReap this = .ok after) :
    after.made = tree.made ∧ after.pid = tree.pid ∧ after.maxPid = tree.maxPid := by
  unfold waitReap at called
  split at called
  · cases called
  · cases called
    exact ⟨rfl, rfl, rfl⟩

theorem waitCheck_numbers (this : Nat) : (tree.waitCheck this).made = tree.made ∧
    (tree.waitCheck this).pid = tree.pid ∧ (tree.waitCheck this).maxPid = tree.maxPid := by
  unfold waitCheck
  split
  · exact ⟨rfl, rfl, rfl⟩
  · exact ⟨rfl, rfl, rfl⟩

theorem procStep_numbers {action : ProcAction} (taken : procStep tree action = .ok after) :
    after = tree.createProc ∨
      after.made = tree.made ∧ after.pid = tree.pid ∧ after.maxPid = tree.maxPid := by
  cases action with
  | createProc =>
      cases taken
      exact Or.inl rfl
  | setParentToThis this child =>
      simp only [procStep] at taken
      split at taken
      · cases taken
        exact Or.inr ⟨rfl, rfl, rfl⟩
      · cases taken
  | startProc child =>
      simp only [procStep] at taken
      split at taken
      · cases taken
        exact Or.inr (startProc_numbers child)
      · cases taken
  | activateProc child =>
      simp only [procStep] at taken
      split at taken
      · cases taken
        exact Or.inr ⟨rfl, rfl, rfl⟩
      · cases taken
  | kill pid =>
      simp only [procStep] at taken
      cases called : tree.kill pid with
      | error stop =>
          rw [called] at taken
          cases taken
      | ok result =>
          rw [called] at taken
          cases taken
          exact Or.inr (kill_numbers called)
  | exit this code =>
      simp only [procStep] at taken
      split at taken
      · exact Or.inr (exit_numbers taken)
      · cases taken
  | wait this =>
      simp only [procStep] at taken
      split at taken
      · cases taken
        exact Or.inr (waitCheck_numbers this)
      · cases taken
  | waitSem this =>
      simp only [procStep] at taken
      split at taken
      · cases taken
        exact Or.inr ⟨rfl, rfl, rfl⟩
      · cases taken
  | resume this =>
      simp only [procStep] at taken
      split at taken
      · split at taken
        · exact Or.inr (waitResume_numbers taken)
        · cases taken
      · cases taken
  | reap this =>
      simp only [procStep] at taken
      split at taken
      · exact Or.inr (waitReap_numbers taken)
      · cases taken
  | dispatch index =>
      simp only [procStep] at taken
      split at taken
      · cases taken
        exact Or.inr ⟨rfl, rfl, rfl⟩
      · cases taken
  | yield index =>
      simp only [procStep] at taken
      split at taken
      · cases taken
        exact Or.inr ⟨rfl, rfl, rfl⟩
      · cases taken
  | sleep index deep =>
      simp only [procStep] at taken
      split at taken
      · cases taken
        exact Or.inr ⟨rfl, rfl, rfl⟩
      · cases taken
  | wake index =>
      simp only [procStep] at taken
      split at taken
      · cases taken
        exact Or.inr ⟨rfl, rfl, rfl⟩
      · cases taken

theorem Pids.of_reachable (reached : Reachable procStep ProcTree.initial tree) : tree.Pids := by
  apply reached.invariant Pids.initial
  intro before action after pids taken
  rcases procStep_numbers taken with created | ⟨made, pid, next⟩
  · rw [created]
    exact pids.createProc
  · exact pids.of_same made pid next

/-! ### The search -/

theorem Kinship.inTree_made (kin : tree.Kinship) (inside : tree.InTree index) :
    index < tree.made := by
  cases inside with
  | root =>
      by_contra later
      have unborn := (kin.unmade rootProc (Nat.le_of_not_lt later)).1
      rw [kin.root.2.1] at unborn
      cases unborn
  | child _ listed =>
      by_contra later
      have orphan := (kin.unmade index (Nat.le_of_not_lt later)).2.1
      rw [((kin.listed _ _).mp listed).1] at orphan
      cases orphan

theorem Target.unique (pids : tree.Pids) (kin : tree.Kinship) {other : Nat}
    (target : tree.Target pid index) (again : tree.Target pid other) : index = other := by
  have first := pids.given index (kin.inTree_made target.inside)
  have second := pids.given other (kin.inTree_made again.inside)
  rw [target.numbered] at first
  rw [again.numbered] at second
  omega

theorem findChild_target (kin : tree.Kinship) (found : tree.findChild pid = some index) :
    tree.Target pid index ∧ tree.parent index = some rootProc := by
  have listed := List.mem_of_find?_eq_some found
  have test := List.find?_some found
  rw [decide_eq_true_eq] at test
  obtain ⟨adopted, below, -⟩ := (kin.listed _ _).mp listed
  exact ⟨⟨.child .root listed, below, test.1, test.2⟩, adopted⟩

theorem Target.findChild (kin : tree.Kinship) (pids : tree.Pids) (target : tree.Target pid index)
    (adopted : tree.parent index = some rootProc) : tree.findChild pid = some index := by
  have listed : index ∈ tree.children rootProc := by
    have here : tree.reaped index = false := by
      cases target.inside with
      | root => exact kin.root.2.2
      | child _ listed => exact ((kin.listed _ _).mp listed).2.2
    exact (kin.listed _ _).mpr ⟨adopted, target.below, here⟩
  cases found : tree.findChild pid with
  | none =>
      have refused := List.find?_eq_none.mp found index listed
      rw [decide_eq_true_eq] at refused
      exact absurd ⟨target.numbered, target.used⟩ refused
  | some other =>
      rw [target.unique pids kin (findChild_target kin found).1]

theorem kill_found (kin : tree.Kinship) (found : tree.findChild pid = some index) :
    tree.kill pid = .ok (0, tree.killed index) := by
  unfold kill
  simp only [found, if_neg (findChild_target kin found).1.used]
  rfl

theorem kill_missing (none : tree.findChild pid = none) : tree.kill pid = .ok (-1, tree) := by
  unfold kill
  simp only [none]

end ProcTree

/-- `kill` finds the processes with a number exactly when they are children of `root_proc`. -/
theorem kill_finds_iff {tree : ProcTree} (reached : Reachable procStep ProcTree.initial tree)
    (pid : Int) : tree.KillFinds pid ↔
      ∀ index, tree.Target pid index → tree.parent index = some rootProc := by
  have kin := (ProcTree.Sound.of_reachable reached).1
  have pids := ProcTree.Pids.of_reachable reached
  constructor
  · intro finds index target
    have called := finds.found index target
    cases found : tree.findChild pid with
    | none =>
        rw [ProcTree.kill_missing found] at called
        cases called
    | some other =>
        obtain ⟨again, adopted⟩ := ProcTree.findChild_target kin found
        rw [target.unique pids kin again]
        exact adopted
  · intro adopted
    constructor
    · intro index target
      exact ProcTree.kill_found kin (target.findChild kin pids (adopted index target))
    · intro missing
      apply ProcTree.kill_missing
      by_contra some
      obtain ⟨index, found⟩ := Option.ne_none_iff_exists'.mp some
      exact missing index (ProcTree.findChild_target kin found).1

/-- A child of `root_proc` and its own child, both started. -/
def grandchild : List ProcAction :=
  [.dispatch 0, .createProc, .createProc, .startProc 1, .activateProc 1, .dispatch 1,
    .setParentToThis 1 2, .startProc 2, .activateProc 2]

theorem kill_finds_child : ∃ tree, Reachable procStep ProcTree.initial tree ∧
    tree.KillFinds 2 ∧ tree.kill 2 = .ok (0, tree.killed 1) := by
  have reached : Reachable procStep ProcTree.initial _ :=
    ⟨grandchild, Run.of_exec rfl (Guarded.trivial _ _)⟩
  have finds := (kill_finds_iff reached 2).mpr (by
    intro index target
    have given := (ProcTree.Pids.of_reachable reached).given index
      ((ProcTree.Sound.of_reachable reached).1.inTree_made target.inside)
    rw [target.numbered] at given
    have same : index = 1 := by omega
    rw [same]
    rfl)
  exact ⟨_, reached, finds, rfl⟩

/-- The number of the grandchild is not found. -/
theorem kill_misses_grandchild : ∃ tree, Reachable procStep ProcTree.initial tree ∧
    tree.Target 3 2 ∧ tree.kill 3 = .ok (-1, tree) ∧ ¬tree.KillFinds 3 := by
  have reached : Reachable procStep ProcTree.initial _ :=
    ⟨grandchild, Run.of_exec rfl (Guarded.trivial _ _)⟩
  refine ⟨_, reached, ?_, rfl, ?_⟩
  · exact ⟨.child (.child .root (List.mem_singleton_self 1)) (List.mem_singleton_self 2), by decide,
      rfl, by decide⟩
  · intro finds
    have called := finds.found 2 ⟨.child (.child .root (List.mem_singleton_self 1))
      (List.mem_singleton_self 2), by decide, rfl, by decide⟩
    cases called

end LabKernel.Kernel
