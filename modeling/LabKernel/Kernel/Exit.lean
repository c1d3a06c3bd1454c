/-
Exits, and whole runs of the process tree.

A process that exits gives its children and its tokens to `root_proc`, and one token more to
its own parent. So a parent still has one token for each of its children that has exited.
-/

import LabKernel.Kernel.Reaping

set_option autoImplicit false

namespace LabKernel.Kernel

open Common Transition

namespace ProcTree

variable {tree after : ProcTree} {this : Nat}

theorem detachedChildren_perm (tree : ProcTree) (this : Nat) :
    (tree.detachedChildren this).Perm (tree.children this) := by
  unfold detachedChildren
  rcases List.eq_nil_or_concat (tree.children this) with empty | ⟨before, last, listed⟩
  · rw [empty]
    exact List.Perm.nil
  · rw [List.concat_eq_append] at listed
    rw [listed, List.getLast?_concat, List.dropLast_concat]
    exact (List.perm_append_singleton last before).symm

theorem countP_died {before after : Nat → ProcState} (alive : before this ≠ .zombie)
    (died : ∀ index, after index = .zombie ↔ index = this ∨ before index = .zombie)
    {children : List Nat} (distinct : children.Nodup) :
    (children.countP (fun child => after child = .zombie) : Int) =
      children.countP (fun child => before child = .zombie) + if this ∈ children then 1 else 0 := by
  induction children with
  | nil => simp
  | cons child rest ih =>
      rw [List.nodup_cons] at distinct
      have counted := ih distinct.2
      rw [List.countP_cons, List.countP_cons]
      by_cases same : child = this
      · rw [same] at distinct ⊢
        simp only [distinct.1, if_false] at counted
        have dead : after this = .zombie := (died this).mpr (Or.inl rfl)
        simp only [dead, decide_true, alive, decide_false, List.mem_cons, true_or, if_true,
          Bool.false_eq_true, if_false]
        push_cast
        omega
      · have dead := died child
        simp only [same, false_or] at dead
        have member : this ∈ child :: rest ↔ this ∈ rest := by
          rw [List.mem_cons]
          simp [Ne.symm same]
        simp only [dead, member]
        push_cast
        omega

/-! ### The parts of an exit -/

section Parts

variable (tree this) (code : Int)

def exitParent (child : Nat) : Option Nat :=
  if child ∈ tree.detachedChildren this then some rootProc else tree.parent child

def exitChildren : Nat → List Nat :=
  Function.update (Function.update tree.children this []) rootProc
    (tree.detachedChildren this ++ Function.update tree.children this [] rootProc)

end Parts

theorem Kinship.mem_detached (kin : tree.Kinship) {child : Nat} :
    child ∈ tree.detachedChildren this ↔
      tree.parent child = some this ∧ child ≠ rootProc ∧ tree.reaped child = false := by
  rw [(detachedChildren_perm tree this).mem_iff]
  exact kin.listed child this

theorem Kinship.not_own_child (kin : tree.Kinship) (other : this ≠ rootProc) :
    this ∉ tree.detachedChildren this := by
  rw [kin.mem_detached]
  intro own
  exact other (kin.apart this own.1)

theorem exitChildren_root (other : this ≠ rootProc) :
    tree.exitChildren this rootProc =
      tree.detachedChildren this ++ tree.children rootProc := by
  unfold exitChildren
  rw [Function.update_self, Function.update_of_ne (Ne.symm other)]

theorem exitChildren_this (other : this ≠ rootProc) : tree.exitChildren this this = [] := by
  unfold exitChildren
  rw [Function.update_of_ne other, Function.update_self]

theorem exitChildren_other {index : Nat} (first : index ≠ rootProc) (second : index ≠ this) :
    tree.exitChildren this index = tree.children index := by
  unfold exitChildren
  rw [Function.update_of_ne first, Function.update_of_ne second]

theorem Kinship.exit_distinct (kin : tree.Kinship) (other : this ≠ rootProc) (index : Nat) :
    (tree.exitChildren this index).Nodup := by
  by_cases first : index = rootProc
  · rw [first, exitChildren_root other]
    apply List.Nodup.append
    · exact (detachedChildren_perm tree this).nodup_iff.mpr (kin.distinct this)
    · exact kin.distinct rootProc
    · intro child mine its
      rw [kin.mem_detached] at mine
      rw [kin.listed, mine.1] at its
      exact other (Option.some.inj its.1)
  · by_cases second : index = this
    · rw [second, exitChildren_this other]
      exact List.nodup_nil
    · rw [exitChildren_other first second]
      exact kin.distinct index

theorem Kinship.exit_listed (kin : tree.Kinship) (other : this ≠ rootProc) (child owner : Nat) :
    child ∈ tree.exitChildren this owner ↔
      tree.exitParent this child = some owner ∧ child ≠ rootProc ∧ tree.reaped child = false := by
  have moved : child ∈ tree.detachedChildren this ↔
      tree.parent child = some this ∧ child ≠ rootProc ∧ tree.reaped child = false :=
    kin.mem_detached
  unfold exitParent
  by_cases first : owner = rootProc
  · rw [first, exitChildren_root other, List.mem_append, kin.listed child rootProc]
    by_cases mine : child ∈ tree.detachedChildren this
    · simp [mine, (moved.mp mine).2]
    · simp [mine]
  · by_cases second : owner = this
    · rw [second, exitChildren_this other]
      by_cases mine : child ∈ tree.detachedChildren this
      · simp [mine, Ne.symm other]
      · rw [if_neg mine, ← moved]
        simp [mine]
    · rw [exitChildren_other first second, kin.listed]
      by_cases mine : child ∈ tree.detachedChildren this
      · rw [if_pos mine, (moved.mp mine).1]
        simp [Ne.symm first, Ne.symm second]
      · rw [if_neg mine]

theorem Kinship.exit_zombies (kin : tree.Kinship) (other : this ≠ rootProc)
    (alive : tree.state this ≠ .zombie) {notified : Nat}
    (parent : tree.parent this = some notified) {state : Nat → ProcState}
    (died : ∀ index, state index = .zombie ↔ index = this ∨ tree.state index = .zombie)
    (index : Nat) :
    ((tree.exitChildren this index).countP (fun child => state child = .zombie) : Int) =
      tree.zombiesOf index + ((if index = rootProc then tree.zombiesOf this else 0) -
        (if index = this then tree.zombiesOf this else 0)) +
        if index = notified then 1 else 0 := by
  have here : tree.reaped this = false := by
    by_contra gone
    exact alive (kin.dead this (Bool.of_not_eq_false gone))
  have listed : ∀ owner, this ∈ tree.children owner ↔ owner = notified := by
    intro owner
    rw [kin.listed, parent]
    simp [other, here, eq_comm]
  have apart : notified ≠ this := by
    intro same
    rw [same] at parent
    exact other (kin.apart this parent)
  rw [countP_died alive died (kin.exit_distinct other index)]
  have counted : ∀ owner, tree.zombiesOf owner =
      (tree.children owner).countP (fun child => tree.state child = .zombie) := fun _ => rfl
  by_cases first : index = rootProc
  · rw [first, exitChildren_root other, List.countP_append,
      (detachedChildren_perm tree this).countP_eq]
    have member : this ∈ tree.detachedChildren this ++ tree.children rootProc ↔
        rootProc = notified := by
      rw [List.mem_append, listed]
      simp [kin.not_own_child other]
    simp only [member, counted, Ne.symm other, if_true, if_false]
    push_cast
    omega
  · by_cases second : index = this
    · rw [second, exitChildren_this other]
      simp [other, Ne.symm apart]
    · rw [exitChildren_other first second]
      simp only [listed, counted, first, second, if_false]
      omega

/-- What an exit leaves, with what has become of the waiting calls. -/
def exited (tree : ProcTree) (this : Nat) (code : Int) (posted : Waiters) : ProcTree :=
  { tree with
    waiters := posted.setProcs (posted.procs.setState this .zombie)
    exitcode := Function.update tree.exitcode this code
    parent := tree.exitParent this
    children := tree.exitChildren this
    history := tree.history ++ [.exited this code] }

section Exited

variable {posted : Waiters} {gain : Nat → Int} {code : Int} {notified : Nat}

theorem exited_zombie (lives : tree.waiters.procs.SameLives posted.procs) (index : Nat) :
    (tree.exited this code posted).state index = .zombie ↔
      index = this ∨ tree.state index = .zombie := by
  change (posted.procs.setState this .zombie).state index = .zombie ↔ _
  by_cases same : index = this
  · simp [same]
  · rw [Procs.setState_other same, (lives index).1]
    simp [same, state]

theorem Kinship.exited (kin : tree.Kinship) (runs : tree.RunsAt this .outside)
    (other : this ≠ rootProc) (parent : tree.parent this = some notified)
    (done : tree.waiters.Posted posted gain)
    (gains : ∀ index, gain index = (if index = rootProc then tree.zombiesOf this else 0) -
      (if index = this then tree.zombiesOf this else 0) + if index = notified then 1 else 0) :
    (tree.exited this code posted).Kinship := by
  have alive : tree.state this ≠ .zombie := by simp [runs.1]
  have zombie : ∀ index, (tree.exited this code posted).state index = .zombie ↔
      index = this ∨ tree.state index = .zombie := exited_zombie done.lives
  constructor
  · exact done.shaped
  · intro index inside
    change (posted.procs.setState this .zombie).state index ≠ _
    by_cases same : index = this
    · simp [same]
    · rw [Procs.setState_other same]
      intro unused
      apply kin.born index _ ((done.lives index).2.mp unused)
      intro outside
      exact inside ((done.outside index).mpr outside)
  · intro index
    change posted.tokens index = ((tree.exitChildren this index).countP
      (fun child => (tree.exited this code posted).state child = .zombie) : Int)
    rw [kin.exit_zombies other alive parent zombie, done.tokens, kin.tokens, gains]
    omega
  · exact kin.exit_listed other
  · exact kin.exit_distinct other
  · intro child owner mine here dead
    rcases (zombie owner).mp dead with same | before
    · rw [same] at mine
      change (if child ∈ tree.detachedChildren this then some rootProc else tree.parent child) = _
        at mine
      split at mine
      · exact other (Option.some.inj mine).symm
      · rename_i kept
        apply kept
        refine kin.mem_detached.mpr ⟨mine, ?_, here⟩
        intro root
        rw [root, kin.root.1] at mine
        exact other (Option.some.inj mine).symm
    · change (if child ∈ tree.detachedChildren this then some rootProc else tree.parent child) = _
        at mine
      split at mine
      · rw [← Option.some.inj mine] at before
        exact kin.root_alive before
      · exact kin.alive child owner mine here before
  · intro index gone
    exact (zombie index).mpr (Or.inr (kin.dead index gone))
  · intro index old
    change (if index ∈ tree.detachedChildren this then some rootProc else tree.parent index) ≠ none
    split
    · simp
    · exact kin.started index old
  · intro index young
    change (posted.procs.setState this .zombie).state index = _
    have different : index ≠ this := by
      intro same
      rw [same] at young
      have unused := kin.unstarted this young
      rw [runs.1] at unused
      cases unused
    rw [Procs.setState_other different]
    exact (done.lives index).2.mpr (kin.unstarted index young)
  · intro index self
    change (if index ∈ tree.detachedChildren this then some rootProc else tree.parent index) = _
      at self
    split at self
    · exact (Option.some.inj self).symm
    · exact kin.apart index self
  · intro index later
    change tree.made ≤ index at later
    obtain ⟨fresh, orphan, childless, left⟩ := kin.unmade index later
    have stays : index ∉ tree.detachedChildren this := by
      rw [kin.mem_detached, orphan]
      simp
    refine ⟨fresh, ?_, ?_, left⟩
    · change (if index ∈ tree.detachedChildren this then some rootProc else tree.parent index) = _
      rw [if_neg stays]
      exact orphan
    · change tree.exitChildren this index = []
      have first : index ≠ rootProc := by
        have made := kin.root_made
        omega
      by_cases second : index = this
      · rw [second, exitChildren_this other]
      · rw [exitChildren_other first second]
        exact childless
  · refine ⟨?_, kin.root.2⟩
    change (if rootProc ∈ tree.detachedChildren this then some rootProc else _) = _
    split
    · rfl
    · exact kin.root.1

theorem Recorded.exited (recorded : tree.Recorded) (kin : tree.Kinship)
    (alive : tree.state this ≠ .zombie) (other : this ≠ rootProc)
    (lives : tree.waiters.procs.SameLives posted.procs) :
    (tree.exited this code posted).Recorded := by
  have never : ∀ code, ProcEvent.exited this code ∉ tree.history := by
    intro earlier member
    exact alive ((recorded.codes this earlier).mp member).1
  constructor
  · intro index below
    exact List.mem_append_left _ (recorded.pids index below)
  · intro index value
    rw [exited_zombie lives]
    change _ ∈ tree.history ++ [_] ↔ _ ∧ Function.update tree.exitcode this code index = value
    rw [List.mem_append, List.mem_singleton, ProcEvent.exited.injEq]
    by_cases same : index = this
    · rw [same, Function.update_self]
      simp [never, eq_comm]
    · rw [Function.update_of_ne same, recorded.codes]
      simp [same]
  · intro index here
    change parentIn (tree.history ++ [_]) index =
      if index ∈ tree.detachedChildren this then some rootProc else tree.parent index
    rw [parentIn_concat]
    change (if parentIn tree.history index = some this then some rootProc
      else parentIn tree.history index) = _
    rw [recorded.parents index here]
    by_cases mine : tree.parent index = some this
    · have moved : index ∈ tree.detachedChildren this := by
        refine kin.mem_detached.mpr ⟨mine, ?_, here⟩
        intro root
        rw [root, kin.root.1] at mine
        exact other (Option.some.inj mine).symm
      rw [if_pos mine, if_pos moved]
    · have stays : index ∉ tree.detachedChildren this := fun moved =>
        mine (kin.mem_detached.mp moved).1
      rw [if_neg mine, if_neg stays]
  · intro owner index pid value member
    change _ ∈ tree.history ++ [_] at member
    simp only [List.mem_append, List.mem_singleton, reduceCtorEq, or_false] at member
    exact recorded.reaps owner index pid value member
  · exact recorded.proper.concat never

end Exited

theorem Sound.exit (sound : tree.Sound) (runs : tree.RunsAt this .outside)
    (other : this ≠ rootProc) (code : Int) :
    ∃ after, tree.exit this code = .ok after ∧ after.Sound := by
  obtain ⟨kin, recorded⟩ := sound
  have old : tree.birth this = .started := by
    by_contra young
    have unused := kin.unstarted this young
    rw [runs.1] at unused
    cases unused
  obtain ⟨notified, parent⟩ := Option.ne_none_iff_exists'.mp (kin.started this (by simp [old]))
  have born : tree.waiters.Born := by
    intro index sleeps
    exact kin.born index (by simp [sleeps])
  have count : tree.zombiesOf this = (tree.waiters.childexit this).val := by
    have free := ((kin.shaped this).awake (by simp [runs.2])).2
    rw [← kin.tokens this]
    simp only [Waiters.tokens, runs.2, WaitCall.taken, Bool.toNat_false]
    omega
  obtain ⟨passed, went, moved⟩ := Waiters.passTokens_spec other
    ((tree.waiters.childexit this).val.toNat + 1) tree.waiters kin.shaped born runs.2
    (Nat.lt_succ_self _)
  obtain ⟨posted, told, added, -, -⟩ :=
    Waiters.postChildexit_spec moved.shaped (moved.born born) notified
  have done := moved.trans added
  have mine : (if this ∈ tree.detachedChildren this then some rootProc else tree.parent this) =
      some notified := by
    rw [if_neg (kin.not_own_child other)]
    exact parent
  have dies : posted.procs.leave this .zombie = posted.procs.setState this .zombie := by
    simp [Procs.leave]
  refine ⟨tree.exited this code posted, ?_, ?_, ?_⟩
  · unfold ProcTree.exit
    simp only [other, if_false, mine, went, told, dies]
    rfl
  · apply kin.exited runs other parent done
    intro index
    rw [count]
  · exact recorded.exited kin (by simp [runs.1]) other done.lives

/-! ### Runs -/

theorem Sound.kill (sound : tree.Sound) (pid : Int) :
    ∃ ret after, tree.kill pid = .ok (ret, after) ∧ after.Sound := by
  unfold ProcTree.kill
  cases found : tree.findChild pid with
  | none => exact ⟨-1, tree, rfl, sound⟩
  | some child =>
      have chosen := List.find?_some found
      simp only [decide_eq_true_eq] at chosen
      simp only [chosen.2, if_false]
      refine ⟨0, _, rfl, sound.setProcs ?_⟩
      have same : tree.waiters.procs.SameLives (tree.waiters.procs.setKilled child) :=
        Procs.SameLives.refl _
      exact same.trans (Procs.SameLives.activate chosen.2)

theorem Sound.setParentToThis (sound : tree.Sound) {child : Nat} (runs : tree.RunsAt this .outside)
    (made : child < tree.made) (fresh : tree.birth child = .fresh)
    (orphan : tree.parent child = none) : (tree.setProcParent child this).Sound := by
  have unused := sound.1.unstarted child (by simp [fresh])
  refine ⟨?_, sound.2.setProcParent child this⟩
  apply sound.1.setProcParent made orphan
  · by_contra later
    have sleeping := (sound.1.unmade_waiters (Nat.le_of_not_lt later)).1
    rw [runs.1] at sleeping
    cases sleeping
  · simp [runs.1]
  · exact unused
  · intro same
    rw [← same, runs.1] at unused
    cases unused

/-- Every call goes through, unless its caller could not make it; only `root_proc` must not
exit. -/
theorem Sound.step (sound : tree.Sound) (action : ProcAction)
    (allowed : ∀ code, action ≠ .exit rootProc code) :
    procStep tree action = .error .disabled ∨
      ∃ after, procStep tree action = .ok after ∧ after.Sound := by
  cases action with
  | createProc => exact Or.inr ⟨_, rfl, sound.1.createProc, sound.2.createProc sound.1⟩
  | setParentToThis this child =>
      simp only [procStep]
      split
      · rename_i free
        obtain ⟨runs, made, fresh, orphan⟩ := free
        exact Or.inr ⟨_, rfl, sound.setParentToThis runs made fresh orphan⟩
      · exact Or.inl rfl
  | startProc child =>
      simp only [procStep]
      split
      · rename_i free
        exact Or.inr ⟨_, rfl, sound.1.startProc free.1 free.2, sound.2.startProc⟩
      · exact Or.inl rfl
  | activateProc child =>
      simp only [procStep]
      split
      · rename_i starting
        have unused := sound.1.unstarted child (by simp [starting])
        exact Or.inr ⟨_, rfl, sound.1.activateProc starting, sound.2.activateProc unused⟩
      · exact Or.inl rfl
  | kill pid =>
      obtain ⟨ret, after, went, kept⟩ := sound.kill pid
      simp only [procStep, went]
      exact Or.inr ⟨after, rfl, kept⟩
  | exit this code =>
      simp only [procStep]
      split
      · rename_i runs
        have other : this ≠ rootProc := by
          intro same
          exact allowed code (by rw [same])
        exact Or.inr (sound.exit runs other code)
      · exact Or.inl rfl
  | wait this =>
      simp only [procStep]
      split
      · rename_i runs
        exact Or.inr ⟨_, rfl, sound.waitCheck runs⟩
      · exact Or.inl rfl
  | waitSem this =>
      simp only [procStep]
      split
      · rename_i runs
        exact Or.inr ⟨_, rfl, sound.waitChildexit runs⟩
      · exact Or.inl rfl
  | resume this =>
      simp only [procStep]
      split
      · rename_i up inside
        split
        · rename_i running
          exact Or.inr (sound.waitResume inside running)
        · exact Or.inl rfl
      · exact Or.inl rfl
  | reap this =>
      simp only [procStep]
      split
      · rename_i runs
        obtain ⟨child, after, -, -, went, kept, -⟩ := sound.waitReap runs.2
        exact Or.inr ⟨after, went, kept⟩
      · exact Or.inl rfl
  | dispatch index =>
      simp only [procStep]
      split
      · rename_i ready
        refine Or.inr ⟨_, rfl, sound.setProcs ?_⟩
        unfold ProcTree.state at ready
        apply Procs.SameLives.setState <;> simp [ready]
      · exact Or.inl rfl
  | yield index =>
      simp only [procStep]
      split
      · rename_i running
        refine Or.inr ⟨_, rfl, sound.setProcs ?_⟩
        unfold ProcTree.state at running
        apply Procs.SameLives.leave <;> simp [running]
      · exact Or.inl rfl
  | sleep index deep =>
      simp only [procStep]
      split
      · rename_i runs
        refine Or.inr ⟨_, rfl, sound.setProcs ?_⟩
        have running := runs.1
        unfold ProcTree.state at running
        cases deep <;> apply Procs.SameLives.leave <;> simp [running]
      · exact Or.inl rfl
  | wake index =>
      simp only [procStep]
      split
      · rename_i asleep
        refine Or.inr ⟨_, rfl, sound.setProcs (Procs.SameLives.activate ?_)⟩
        unfold ProcTree.state at asleep
        rcases asleep.2 with sleeping | sleeping
        · simp [sleeping]
        · simp [sleeping]
      · exact Or.inl rfl

theorem Sound.of_reachable (reached : Reachable procStep ProcTree.initial tree) : tree.Sound := by
  apply reached.invariant ⟨Kinship.initial, Recorded.initial⟩
  intro before action after sound taken
  have allowed : ∀ code, action ≠ .exit rootProc code := by
    intro code same
    rw [same] at taken
    simp only [procStep] at taken
    split at taken
    · simp [ProcTree.exit] at taken
    · cases taken
  rcases sound.step action allowed with stopped | ⟨final, went, kept⟩
  · rw [stopped] at taken
    cases taken
  · rw [taken] at went
    cases went
    exact kept

end ProcTree

theorem exit_wait_agreement {tree : ProcTree}
    (reached : Reachable procStep ProcTree.initial tree) :
    (∀ child parent, child ≠ rootProc → tree.reaped child = false →
      tree.parent child = some parent →
        (tree.children parent).count child = 1 ∧
        (∀ owner, child ∈ tree.children owner → owner = parent) ∧
        tree.state parent ≠ .zombie) ∧
    (∀ index, max (tree.waiters.childexit index).val 0 +
        (if (tree.waiters.calls index).taken then 1 else 0) =
      ((tree.children index).countP (fun child => tree.state child = .zombie) : Int)) ∧
    (∀ this, tree.RunsAt this .token → ∃ child after,
      procStep tree (.reap this) = .ok after ∧ child ∈ tree.children this ∧
      tree.state child = .zombie ∧
      after.children = Function.update tree.children this ((tree.children this).erase child) ∧
      after.history =
        tree.history ++ [.reaped this child (tree.pid child) (tree.exitcode child)]) ∧
    (∀ before parent child pid code later,
      tree.history = before ++ .reaped parent child pid code :: later →
        .created child pid ∈ before ∧ .exited child code ∈ before ∧
        parentIn before child = some parent ∧
        ∀ other pid' code', .reaped other child pid' code' ∉ before) ∧
    (∀ action, (∀ code, action ≠ .exit rootProc code) →
      procStep tree action = .error .disabled ∨ ∃ after, procStep tree action = .ok after) := by
  have sound := ProcTree.Sound.of_reachable reached
  obtain ⟨kin, recorded⟩ := id sound
  refine ⟨?_, ?_, ?_, ?_, ?_⟩
  · intro child parent other here adopted
    refine ⟨?_, ?_, kin.alive child parent adopted here⟩
    · exact List.count_eq_one_of_mem (kin.distinct parent)
        ((kin.listed child parent).mpr ⟨adopted, other, here⟩)
    · intro owner member
      rw [kin.listed, adopted] at member
      exact (Option.some.inj member.1).symm
  · intro index
    have counted := kin.tokens index
    unfold Waiters.tokens ProcTree.zombiesOf at counted
    cases taken : (tree.waiters.calls index).taken <;> simp [taken] at counted ⊢ <;> omega
  · intro this runs
    obtain ⟨child, after, member, zombie, went, -, history, children⟩ := sound.waitReap runs.2
    exact ⟨child, after, by simp only [procStep, runs, if_true, went], member, zombie, children,
      history⟩
  · intro before parent child pid code later split
    exact recorded.proper before (.reaped parent child pid code) later split
  · intro action allowed
    rcases sound.step action allowed with stopped | ⟨after, went, -⟩
    · exact Or.inl stopped
    · exact Or.inr ⟨after, went⟩

/-- A child exits and then its parent: `root_proc` takes the child over and reaps it alone. -/
theorem exit_wait_agreement_orphan :
    ∃ tree, Reachable procStep ProcTree.initial tree ∧
      tree.history = [.created 0 1, .adopted 0 0, .created 1 2, .created 2 3, .adopted 1 0,
        .adopted 2 1, .exited 2 7, .exited 1 5, .reaped 0 2 3 7] ∧
      max (tree.waiters.childexit 0).val 0 +
        (if (tree.waiters.calls 0).taken then 1 else 0) = 1 := by
  have reached : Reachable procStep ProcTree.initial _ :=
    ⟨[.dispatch 0, .createProc, .createProc, .startProc 1, .activateProc 1, .wait 0, .waitSem 0,
      .dispatch 1, .setParentToThis 1 2, .startProc 2, .activateProc 2, .dispatch 2, .exit 2 7,
      .exit 1 5, .dispatch 0, .resume 0, .reap 0], Run.of_exec rfl (Guarded.trivial _ _)⟩
  exact ⟨_, reached, rfl, (exit_wait_agreement reached).2.1 0⟩

end LabKernel.Kernel
