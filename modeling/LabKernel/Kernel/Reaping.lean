/-
Exiting and waiting.

A process is in the list of its parent until the parent reaps it, and a parent has a token for
each of its children that has exited. So a `wait` that gets a token finds a zombie.
-/

import LabKernel.Kernel.Tokens
import Mathlib.Data.List.Count
import Mathlib.Data.List.Nodup

set_option autoImplicit false

namespace LabKernel.Kernel

open Common Transition

/-! ### What the record says -/

/-- The parents after an event: the children of a process that exits go to `root_proc`. -/
def ProcEvent.move (parents : Nat → Option Nat) : ProcEvent → Nat → Option Nat
  | .adopted child parent => Function.update parents child (some parent)
  | .exited this _ => fun child => if parents child = some this then some rootProc else parents child
  | _ => parents

def parentIn (history : List ProcEvent) : Nat → Option Nat :=
  history.foldl ProcEvent.move (fun _ => none)

@[simp]
theorem parentIn_concat (history : List ProcEvent) (event : ProcEvent) :
    parentIn (history ++ [event]) = event.move (parentIn history) := by
  simp [parentIn]

/-- A process exits once, and is reaped once, by its parent and with its number and its code. -/
def Proper (before : List ProcEvent) : ProcEvent → Prop
  | .exited child _ => ∀ code, .exited child code ∉ before
  | .reaped parent child pid code =>
      .created child pid ∈ before ∧ .exited child code ∈ before ∧
        parentIn before child = some parent ∧
        ∀ other pid' code', .reaped other child pid' code' ∉ before
  | _ => True

/-! ### The tree -/

namespace ProcTree

variable {tree after : ProcTree} {this child : Nat}

def zombiesOf (tree : ProcTree) (index : Nat) : Int :=
  (tree.children index).countP (fun child => tree.state child = .zombie)

/-- The lists of children and the parents agree, and every parent has a token for each of its
children that has exited. -/
structure Kinship (tree : ProcTree) : Prop where
  shaped : tree.waiters.Shaped
  born : ∀ index, tree.waiters.calls index ≠ .outside → tree.state index ≠ .unused
  tokens : ∀ index, tree.waiters.tokens index = tree.zombiesOf index
  listed : ∀ child parent, child ∈ tree.children parent ↔
    tree.parent child = some parent ∧ child ≠ rootProc ∧ tree.reaped child = false
  distinct : ∀ index, (tree.children index).Nodup
  alive : ∀ child parent, tree.parent child = some parent → tree.reaped child = false →
    tree.state parent ≠ .zombie
  dead : ∀ index, tree.reaped index = true → tree.state index = .zombie
  started : ∀ index, tree.birth index ≠ .fresh → tree.parent index ≠ none
  unstarted : ∀ index, tree.birth index ≠ .started → tree.state index = .unused
  apart : ∀ index, tree.parent index = some index → index = rootProc
  unmade : ∀ index, tree.made ≤ index → tree.birth index = .fresh ∧ tree.parent index = none ∧
    tree.children index = [] ∧ tree.reaped index = false
  root : tree.parent rootProc = some rootProc ∧ tree.birth rootProc = .started ∧
    tree.reaped rootProc = false

structure Recorded (tree : ProcTree) : Prop where
  pids : ∀ index, index < tree.made → .created index (tree.pid index) ∈ tree.history
  codes : ∀ index code, .exited index code ∈ tree.history ↔
    tree.state index = .zombie ∧ tree.exitcode index = code
  parents : ∀ index, tree.reaped index = false → parentIn tree.history index = tree.parent index
  reaps : ∀ parent index pid code, .reaped parent index pid code ∈ tree.history →
    tree.reaped index = true
  proper : History.Each Proper tree.history

theorem Kinship.initial : ProcTree.initial.Kinship := by
  constructor
  · intro index
    constructor
    · simp [ProcTree.initial]
    · simp [ProcTree.initial, initSem]
  · simp [ProcTree.initial]
  · intro index
    simp [ProcTree.initial, zombiesOf, Waiters.tokens, initSem, WaitCall.taken]
  · intro child parent
    by_cases same : child = rootProc
    · simp [ProcTree.initial, same]
    · simp [ProcTree.initial, same]
  · simp [ProcTree.initial]
  · intro child parent
    by_cases same : parent = rootProc
    · simp [ProcTree.initial, state, same]
    · simp [ProcTree.initial, state, same]
  · simp [ProcTree.initial]
  · intro index
    by_cases same : index = rootProc
    · simp [ProcTree.initial, same]
    · simp [ProcTree.initial, same]
  · intro index
    by_cases same : index = rootProc
    · simp [ProcTree.initial, same]
    · simp [ProcTree.initial, state, same]
  · intro index
    by_cases same : index = rootProc
    · simp [same]
    · simp [ProcTree.initial, same]
  · intro index later
    have other : index ≠ rootProc := Nat.ne_of_gt later
    simp [ProcTree.initial, other]
  · simp [ProcTree.initial]

theorem Recorded.initial : ProcTree.initial.Recorded := by
  constructor
  · intro index below
    have same : index = rootProc := Nat.lt_one_iff.mp below
    simp [ProcTree.initial, same]
  · intro index code
    by_cases same : index = rootProc
    · simp [ProcTree.initial, state, same]
    · simp [ProcTree.initial, state, same]
  · intro index _
    by_cases same : index = rootProc
    · simp [ProcTree.initial, parentIn, ProcEvent.move, same]
    · simp [ProcTree.initial, parentIn, ProcEvent.move, same]
  · simp [ProcTree.initial]
  · have first : History.Each Proper [ProcEvent.created rootProc 1] := History.Each.nil.concat trivial
    exact first.concat trivial

/-! Steps that only the waiting calls and the scheduler see. -/

theorem zombiesOf_congr (children : ∀ index, after.children index = tree.children index)
    (lives : ∀ index, after.state index = .zombie ↔ tree.state index = .zombie) (index : Nat) :
    after.zombiesOf index = tree.zombiesOf index := by
  unfold zombiesOf
  rw [children]
  simp only [lives]

theorem Kinship.setWaiters (kin : tree.Kinship) {waiters : Waiters} (shaped : waiters.Shaped)
    (born : ∀ index, waiters.calls index ≠ .outside → waiters.procs.state index ≠ .unused)
    (tokens : ∀ index, waiters.tokens index = tree.waiters.tokens index)
    (zombies : ∀ index, waiters.procs.state index = .zombie ↔ tree.state index = .zombie)
    (unused : ∀ index, tree.birth index ≠ .started → waiters.procs.state index = .unused) :
    (tree.setWaiters waiters).Kinship := by
  constructor
  · exact shaped
  · exact born
  · intro index
    change waiters.tokens index = _
    have same : (tree.setWaiters waiters).zombiesOf index = tree.zombiesOf index := by
      apply zombiesOf_congr
      · exact fun _ => rfl
      · exact zombies
    rw [tokens, kin.tokens, same]
  · exact kin.listed
  · exact kin.distinct
  · intro child parent adopted here zombie
    exact kin.alive child parent adopted here ((zombies parent).mp zombie)
  · intro index reaped
    exact (zombies index).mpr (kin.dead index reaped)
  · exact kin.started
  · exact unused
  · exact kin.apart
  · exact kin.unmade
  · exact kin.root

theorem Recorded.setWaiters (recorded : tree.Recorded) {waiters : Waiters}
    (zombies : ∀ index, waiters.procs.state index = .zombie ↔ tree.state index = .zombie) :
    (tree.setWaiters waiters).Recorded := by
  constructor
  · exact recorded.pids
  · intro index code
    rw [show (tree.setWaiters waiters).history = tree.history from rfl, recorded.codes]
    exact and_congr_left (fun _ => (zombies index).symm)
  · exact recorded.parents
  · exact recorded.reaps
  · exact recorded.proper

theorem Kinship.put (kin : tree.Kinship) {sem : Semaphore} {call : WaitCall} {procs : Procs}
    (shape : ShapeAt this sem call)
    (count : max sem.val 0 + call.taken.toNat = tree.waiters.tokens this)
    (lives : tree.waiters.procs.SameLives procs) (born : tree.state this ≠ .unused) :
    (tree.setWaiters (tree.waiters.put this sem call procs)).Kinship := by
  apply kin.setWaiters
  · exact kin.shaped.put shape
  · intro index inside unused
    have before := (lives index).2.mp unused
    by_cases same : index = this
    · rw [same] at before
      exact born before
    · rw [Waiters.put_calls_other same] at inside
      exact kin.born index inside before
  · intro index
    rw [Waiters.tokens_put]
    split
    · rename_i same
      rw [same, count]
    · rfl
  · exact fun index => (lives index).1
  · exact fun index young => (lives index).2.mpr (kin.unstarted index young)

theorem Kinship.setProcs (kin : tree.Kinship) {procs : Procs}
    (lives : tree.waiters.procs.SameLives procs) :
    (tree.setWaiters (tree.waiters.setProcs procs)).Kinship := by
  apply kin.setWaiters
  · exact kin.shaped
  · intro index inside unused
    exact kin.born index inside ((lives index).2.mp unused)
  · exact fun _ => rfl
  · exact fun index => (lives index).1
  · exact fun index young => (lives index).2.mpr (kin.unstarted index young)

theorem Kinship.record (kin : tree.Kinship) (event : ProcEvent) : (tree.record event).Kinship :=
  ⟨kin.shaped, kin.born, kin.tokens, kin.listed, kin.distinct, kin.alive, kin.dead, kin.started,
    kin.unstarted, kin.apart, kin.unmade, kin.root⟩

theorem Recorded.failed (recorded : tree.Recorded) (this : Nat) :
    (tree.record (.failed this)).Recorded := by
  constructor
  · intro index below
    exact List.mem_append_left _ (recorded.pids index below)
  · intro index code
    simp only [ProcTree.record, List.mem_append, List.mem_singleton, reduceCtorEq, or_false]
    exact recorded.codes index code
  · intro index here
    simp only [ProcTree.record, parentIn_concat]
    exact recorded.parents index here
  · intro parent index pid code member
    simp only [ProcTree.record, List.mem_append, List.mem_singleton, reduceCtorEq, or_false] at member
    exact recorded.reaps parent index pid code member
  · exact recorded.proper.concat trivial

/-! New processes. -/

theorem Kinship.unmade_waiters (kin : tree.Kinship) {index : Nat} (later : tree.made ≤ index) :
    tree.state index = .unused ∧ tree.waiters.calls index = .outside ∧
      tree.waiters.childexit index = initSem 0 := by
  obtain ⟨fresh, -, childless, -⟩ := kin.unmade index later
  have unused := kin.unstarted index (by simp [fresh])
  have outside : tree.waiters.calls index = .outside := by
    by_contra inside
    exact kin.born index inside unused
  obtain ⟨empty, free⟩ := (kin.shaped index).awake (by simp [outside])
  have none := kin.tokens index
  simp only [Waiters.tokens, outside, zombiesOf, childless, List.countP_nil, WaitCall.taken] at none
  refine ⟨unused, outside, ?_⟩
  cases sem : tree.waiters.childexit index with
  | mk val sleeplist =>
      rw [sem] at empty free none
      simp only at empty free none
      unfold initSem
      congr 1
      simp at none
      omega

theorem createProc_eq (kin : tree.Kinship) :
    tree.createProc =
      { tree with
        made := tree.made + 1
        waiters := tree.waiters.setProcs { tree.waiters.procs with
          killed := Function.update tree.waiters.procs.killed tree.made false }
        pid := Function.update tree.pid tree.made (tree.maxPid + 1)
        maxPid := tree.maxPid + 1
        exitcode := Function.update tree.exitcode tree.made 0
        history := tree.history ++ [.created tree.made (tree.maxPid + 1)] } := by
  obtain ⟨unused, outside, sem⟩ := kin.unmade_waiters (Nat.le_refl _)
  obtain ⟨fresh, orphan, childless, here⟩ := kin.unmade tree.made (Nat.le_refl _)
  unfold ProcTree.createProc
  unfold ProcTree.state at unused
  congr 1
  · rw [← unused, ← outside, ← sem]
    simp [Waiters.setProcs]
  · rw [← fresh, Function.update_eq_self]
  · rw [← orphan, Function.update_eq_self]
  · rw [← childless, Function.update_eq_self]
  · rw [← here, Function.update_eq_self]

theorem Kinship.createProc (kin : tree.Kinship) : tree.createProc.Kinship := by
  rw [createProc_eq kin]
  constructor
  · exact kin.shaped
  · exact kin.born
  · exact kin.tokens
  · exact kin.listed
  · exact kin.distinct
  · exact kin.alive
  · exact kin.dead
  · exact kin.started
  · exact kin.unstarted
  · exact kin.apart
  · exact fun index later => kin.unmade index (Nat.le_of_succ_le later)
  · exact kin.root

theorem Recorded.createProc (recorded : tree.Recorded) (kin : tree.Kinship) :
    tree.createProc.Recorded := by
  have unused := (kin.unmade_waiters (Nat.le_refl _)).1
  rw [createProc_eq kin]
  constructor
  · intro index below
    change _ ∈ tree.history ++ [ProcEvent.created tree.made (tree.maxPid + 1)]
    change ProcEvent.created index (Function.update tree.pid tree.made (tree.maxPid + 1) index) ∈ _
    by_cases same : index = tree.made
    · rw [same, Function.update_self]
      exact List.mem_append_right _ (List.mem_singleton_self _)
    · rw [Function.update_of_ne same]
      have earlier : index < tree.made := by
        change index < tree.made + 1 at below
        omega
      exact List.mem_append_left _ (recorded.pids index earlier)
  · intro index code
    change _ ∈ tree.history ++ [_] ↔
      tree.state index = .zombie ∧ Function.update tree.exitcode tree.made 0 index = code
    simp only [List.mem_append, List.mem_singleton, reduceCtorEq, or_false]
    rw [recorded.codes]
    by_cases same : index = tree.made
    · rw [same, unused]
      simp
    · rw [Function.update_of_ne same]
  · intro index here
    change parentIn (tree.history ++ [_]) index = _
    rw [parentIn_concat]
    exact recorded.parents index here
  · intro parent index pid code member
    simp only [List.mem_append, List.mem_singleton, reduceCtorEq, or_false] at member
    exact recorded.reaps parent index pid code member
  · exact recorded.proper.concat trivial

/-! Parents. -/

theorem Kinship.setProcParent (kin : tree.Kinship) {parent : Nat}
    (made : child < tree.made) (orphan : tree.parent child = none)
    (known : parent < tree.made) (alive : tree.state parent ≠ .zombie)
    (unused : tree.state child = .unused) (different : parent ≠ child) :
    (tree.setProcParent child parent).Kinship := by
  have other : child ≠ rootProc := by
    intro same
    rw [same, kin.root.1] at orphan
    cases orphan
  have unlisted : ∀ index, child ∉ tree.children index := by
    intro index member
    rw [kin.listed, orphan] at member
    cases member.1
  have here : tree.reaped child = false := by
    by_contra gone
    have zombie := kin.dead child (Bool.of_not_eq_false gone)
    rw [unused] at zombie
    cases zombie
  constructor
  · exact kin.shaped
  · exact kin.born
  · intro index
    change tree.waiters.tokens index =
      ((Function.update tree.children parent (child :: tree.children parent) index).countP
        (fun child => tree.state child = .zombie) : Int)
    rw [kin.tokens]
    unfold zombiesOf
    by_cases same : index = parent
    · rw [same, Function.update_self, List.countP_cons]
      simp [unused]
    · rw [Function.update_of_ne same]
  · intro index owner
    change index ∈ Function.update tree.children parent (child :: tree.children parent) owner ↔
      Function.update tree.parent child (some parent) index = some owner ∧ _
    by_cases same : index = child
    · rw [same, Function.update_self]
      by_cases mine : owner = parent
      · rw [mine, Function.update_self]
        simp [other]
        exact here
      · rw [Function.update_of_ne mine]
        simp [unlisted owner, Ne.symm mine]
    · rw [Function.update_of_ne same]
      by_cases mine : owner = parent
      · rw [mine, Function.update_self, List.mem_cons]
        simp only [same, false_or]
        exact kin.listed index parent
      · rw [Function.update_of_ne mine]
        exact kin.listed index owner
  · intro index
    change (Function.update tree.children parent (child :: tree.children parent) index).Nodup
    by_cases same : index = parent
    · rw [same, Function.update_self]
      exact List.nodup_cons.mpr ⟨unlisted parent, kin.distinct parent⟩
    · rw [Function.update_of_ne same]
      exact kin.distinct index
  · intro index owner adopted still
    change Function.update tree.parent child (some parent) index = some owner at adopted
    by_cases same : index = child
    · rw [same, Function.update_self] at adopted
      rw [← Option.some.inj adopted]
      exact alive
    · rw [Function.update_of_ne same] at adopted
      exact kin.alive index owner adopted still
  · exact kin.dead
  · intro index old
    change Function.update tree.parent child (some parent) index ≠ none
    by_cases same : index = child
    · rw [same, Function.update_self]
      simp
    · rw [Function.update_of_ne same]
      exact kin.started index old
  · exact kin.unstarted
  · intro index self
    change Function.update tree.parent child (some parent) index = some index at self
    by_cases same : index = child
    · rw [same, Function.update_self] at self
      exact absurd (Option.some.inj self) different
    · rw [Function.update_of_ne same] at self
      exact kin.apart index self
  · intro index later
    change tree.made ≤ index at later
    obtain ⟨fresh, none, childless, left⟩ := kin.unmade index later
    refine ⟨fresh, ?_, ?_, left⟩
    · change Function.update tree.parent child (some parent) index = _
      rw [Function.update_of_ne (by omega)]
      exact none
    · change Function.update tree.children parent (child :: tree.children parent) index = _
      rw [Function.update_of_ne (by omega)]
      exact childless
  · refine ⟨?_, kin.root.2⟩
    change Function.update tree.parent child (some parent) rootProc = _
    rw [Function.update_of_ne (Ne.symm other)]
    exact kin.root.1

theorem Recorded.setProcParent (recorded : tree.Recorded) (child parent : Nat) :
    (tree.setProcParent child parent).Recorded := by
  constructor
  · intro index below
    exact List.mem_append_left _ (recorded.pids index below)
  · intro index code
    simp only [ProcTree.setProcParent, List.mem_append, List.mem_singleton, reduceCtorEq, or_false]
    exact recorded.codes index code
  · intro index here
    change parentIn (tree.history ++ [_]) index =
      Function.update tree.parent child (some parent) index
    rw [parentIn_concat]
    change Function.update (parentIn tree.history) child (some parent) index = _
    by_cases same : index = child
    · rw [same, Function.update_self, Function.update_self]
    · rw [Function.update_of_ne same, Function.update_of_ne same]
      exact recorded.parents index here
  · intro owner index pid code member
    simp only [ProcTree.setProcParent, List.mem_append, List.mem_singleton, reduceCtorEq,
      or_false] at member
    exact recorded.reaps owner index pid code member
  · exact recorded.proper.concat trivial

theorem Kinship.setBirth (kin : tree.Kinship) {birth : Birth} (made : child < tree.made)
    (adopted : tree.parent child ≠ none) (unused : tree.state child = .unused)
    (other : child ≠ rootProc) :
    ({ tree with birth := Function.update tree.birth child birth } : ProcTree).Kinship := by
  constructor
  · exact kin.shaped
  · exact kin.born
  · exact kin.tokens
  · exact kin.listed
  · exact kin.distinct
  · exact kin.alive
  · exact kin.dead
  · intro index old
    change Function.update tree.birth child birth index ≠ _ at old
    by_cases same : index = child
    · rw [same]
      exact adopted
    · rw [Function.update_of_ne same] at old
      exact kin.started index old
  · intro index young
    change Function.update tree.birth child birth index ≠ _ at young
    by_cases same : index = child
    · rw [same]
      exact unused
    · rw [Function.update_of_ne same] at young
      exact kin.unstarted index young
  · exact kin.apart
  · intro index later
    change tree.made ≤ index at later
    obtain ⟨fresh, rest⟩ := kin.unmade index later
    refine ⟨?_, rest⟩
    change Function.update tree.birth child birth index = _
    rw [Function.update_of_ne (by omega)]
    exact fresh
  · refine ⟨kin.root.1, ?_, kin.root.2.2⟩
    change Function.update tree.birth child birth rootProc = _
    rw [Function.update_of_ne (Ne.symm other)]
    exact kin.root.2.1

theorem Kinship.not_root (kin : tree.Kinship) (young : tree.birth child ≠ .started) :
    child ≠ rootProc := by
  intro same
  rw [same] at young
  exact young kin.root.2.1

theorem Kinship.root_alive (kin : tree.Kinship) : tree.state rootProc ≠ .zombie :=
  kin.alive rootProc rootProc kin.root.1 kin.root.2.2

theorem Kinship.root_made (kin : tree.Kinship) : rootProc < tree.made := by
  by_contra later
  have orphan := (kin.unmade rootProc (Nat.le_of_not_lt later)).2.1
  rw [kin.root.1] at orphan
  cases orphan

theorem Kinship.startProc (kin : tree.Kinship) (made : child < tree.made)
    (fresh : tree.birth child = .fresh) : (tree.startProc child).Kinship := by
  have young : tree.birth child ≠ .started := by simp [fresh]
  have other := kin.not_root young
  have unused := kin.unstarted child young
  unfold ProcTree.startProc
  by_cases orphan : tree.parent child = none
  · simp only [orphan, if_true]
    have adopted := kin.setProcParent made orphan kin.root_made kin.root_alive unused
      (Ne.symm other)
    apply adopted.setBirth made _ unused other
    change Function.update tree.parent child (some rootProc) child ≠ none
    rw [Function.update_self]
    simp
  · simp only [orphan, if_false]
    exact kin.setBirth made orphan unused other

theorem Recorded.setBirth (recorded : tree.Recorded) {birth : Nat → Birth} :
    ({ tree with birth := birth } : ProcTree).Recorded :=
  ⟨recorded.pids, recorded.codes, recorded.parents, recorded.reaps, recorded.proper⟩

theorem Recorded.startProc (recorded : tree.Recorded) : (tree.startProc child).Recorded := by
  unfold ProcTree.startProc
  by_cases orphan : tree.parent child = none
  · simp only [orphan, if_true]
    exact (recorded.setProcParent child rootProc).setBirth
  · simp only [orphan, if_false]
    exact recorded.setBirth

theorem activate_unused {procs : Procs} (unused : procs.state child = .unused) (index : Nat) :
    (procs.activate child false).state index = .zombie ↔ procs.state index = .zombie := by
  by_cases same : index = child
  · rw [same]
    simp [Procs.activate, unused, ProcState.wakes]
  · rw [Procs.activate_other same]

theorem Kinship.activateProc (kin : tree.Kinship) (starting : tree.birth child = .starting) :
    (tree.activateProc child).Kinship := by
  have young : tree.birth child ≠ .started := by simp [starting]
  have adopted := kin.started child (by simp [starting])
  have unused := kin.unstarted child young
  have made : child < tree.made := by
    by_contra later
    exact adopted (kin.unmade child (Nat.le_of_not_lt later)).2.1
  have woken :
      ({ tree with birth := Function.update tree.birth child .started } : ProcTree).Kinship :=
    kin.setBirth made adopted unused (kin.not_root young)
  apply woken.setWaiters
  · exact kin.shaped
  · intro index inside
    change (tree.waiters.procs.activate child false).state index ≠ _
    by_cases same : index = child
    · rw [same] at inside
      exact absurd unused (kin.born child inside)
    · rw [Procs.activate_other same]
      exact kin.born index inside
  · exact fun _ => rfl
  · exact activate_unused unused
  · intro index still
    change Function.update tree.birth child .started index ≠ _ at still
    change (tree.waiters.procs.activate child false).state index = _
    have different : index ≠ child := by
      intro same
      rw [same, Function.update_self] at still
      exact still rfl
    rw [Function.update_of_ne different] at still
    rw [Procs.activate_other different]
    exact kin.unstarted index still

theorem Recorded.activateProc (recorded : tree.Recorded) (unused : tree.state child = .unused) :
    (tree.activateProc child).Recorded := by
  have woken : (tree.setWaiters
      (tree.waiters.setProcs (tree.waiters.procs.activate child false))).Recorded :=
    recorded.setWaiters (activate_unused unused)
  exact woken.setBirth

/-! The sections of `wait`. -/

/-- What both invariants say of a step. -/
def Sound (tree : ProcTree) : Prop := tree.Kinship ∧ tree.Recorded

theorem Sound.setProcs (sound : tree.Sound) {procs : Procs}
    (lives : tree.waiters.procs.SameLives procs) :
    (tree.setWaiters (tree.waiters.setProcs procs)).Sound :=
  ⟨sound.1.setProcs lives, sound.2.setWaiters (fun index => (lives index).1)⟩

theorem Sound.put (sound : tree.Sound) {sem : Semaphore} {call : WaitCall} {procs : Procs}
    (shape : ShapeAt this sem call)
    (count : max sem.val 0 + call.taken.toNat = tree.waiters.tokens this)
    (lives : tree.waiters.procs.SameLives procs) (born : tree.state this ≠ .unused) :
    (tree.setWaiters (tree.waiters.put this sem call procs)).Sound :=
  ⟨sound.1.put shape count lives born, sound.2.setWaiters (fun index => (lives index).1)⟩

theorem Sound.failed (sound : tree.Sound) (this : Nat) : (tree.record (.failed this)).Sound :=
  ⟨sound.1.record _, sound.2.failed this⟩

theorem Sound.setCall (sound : tree.Sound) {call : WaitCall} (born : tree.state this ≠ .unused)
    (awake : tree.waiters.calls this ≠ .asleep false) (still : call ≠ .asleep false)
    (taken : call.taken = (tree.waiters.calls this).taken) :
    (tree.setWaiters (tree.waiters.setCall this call)).Sound := by
  rw [Waiters.setCall_eq_put]
  apply sound.put
  · exact ⟨fun sleeps => absurd sleeps still, fun _ => (sound.1.shaped this).awake awake⟩
  · rw [taken]
    rfl
  · exact Procs.SameLives.refl _
  · exact born

theorem Sound.waitCheck (sound : tree.Sound) (runs : tree.RunsAt this .outside) :
    (tree.waitCheck this).Sound := by
  obtain ⟨running, outside⟩ := runs
  unfold ProcTree.waitCheck
  split
  · exact sound.failed this
  · apply sound.setCall
    · simp [running]
    · simp [outside]
    · simp
    · simp [outside, WaitCall.taken]

theorem Sound.waitChildexit (sound : tree.Sound) (runs : tree.RunsAt this .checked) :
    (tree.setWaiters (tree.waiters.waitChildexit this)).Sound := by
  obtain ⟨running, checked⟩ := runs
  obtain ⟨empty, free⟩ := (sound.1.shaped this).awake (by simp [checked])
  have count : tree.waiters.tokens this = (tree.waiters.childexit this).val := by
    simp only [Waiters.tokens, checked, WaitCall.taken, Bool.toNat_false]
    omega
  have born : tree.state this ≠ .unused := by simp [running]
  by_cases left : 0 ≤ (tree.waiters.childexit this).val - 1
  · have got : tree.waiters.waitChildexit this = tree.waiters.put this
        { val := (tree.waiters.childexit this).val - 1, sleeplist := [] } .token
          tree.waiters.procs := by
      simp only [Waiters.waitChildexit, waitSem, left, if_true, empty]
      rfl
    rw [got]
    apply sound.put
    · exact ⟨by simp, fun _ => ⟨rfl, left⟩⟩
    · simp only [count, WaitCall.taken, Bool.toNat_true]
      omega
    · exact Procs.SameLives.refl _
    · exact born
  · have none : (tree.waiters.childexit this).val = 0 := by omega
    have slept : tree.waiters.waitChildexit this = tree.waiters.put this
        { val := -1, sleeplist := [this] } (.asleep false)
          (tree.waiters.procs.leave this .sleeping) := by
      simp only [Waiters.waitChildexit, waitSem, empty, none]
      rfl
    rw [slept]
    apply sound.put
    · exact ⟨fun _ => rfl, fun awake => absurd rfl awake⟩
    · simp only [count, none, WaitCall.taken, Bool.toNat_false]
      omega
    · apply Procs.SameLives.leave _ born (by simp) (by simp)
      unfold ProcTree.state at running
      simp [running]
    · exact born

theorem Sound.waitResume (sound : tree.Sound) {up : Bool}
    (inside : tree.waiters.calls this = .asleep up) (running : tree.state this = .running) :
    ∃ after, tree.waitResume this up = .ok after ∧ after.Sound := by
  have born : tree.state this ≠ .unused := by simp [running]
  cases up with
  | true =>
      refine ⟨_, rfl, ?_⟩
      apply sound.setCall born
      · simp [inside]
      · simp
      · simp [inside, WaitCall.taken]
  | false =>
      have sem := (sound.1.shaped this).asleep inside
      unfold ProcTree.waitResume
      rw [sem]
      refine ⟨_, rfl, ?_⟩
      apply Sound.failed
      have back : (tree.setWaiters (tree.waiters.put this { val := 0, sleeplist := [] } .outside
          tree.waiters.procs)).Sound := by
        apply sound.put
        · exact ⟨by simp, fun _ => ⟨rfl, Int.le_refl 0⟩⟩
        · simp [Waiters.tokens, inside, sem, WaitCall.taken]
        · exact Procs.SameLives.refl _
        · exact born
      have same : [this].erase this = [] := by simp
      rw [same]
      exact back

theorem Kinship.child_made (kin : tree.Kinship) {parent : Nat}
    (adopted : tree.parent child = some parent) : child < tree.made := by
  by_contra later
  have orphan := (kin.unmade child (Nat.le_of_not_lt later)).2.1
  rw [adopted] at orphan
  cases orphan

theorem Kinship.zombie_child (kin : tree.Kinship) (token : tree.waiters.calls this = .token) :
    ∃ child, (tree.children this).find? (fun child => tree.state child = .zombie) = some child := by
  have count := kin.tokens this
  unfold Waiters.tokens zombiesOf at count
  rw [token] at count
  have positive : 0 < (tree.children this).countP (fun child => tree.state child = .zombie) := by
    simp only [WaitCall.taken, Bool.toNat_true] at count
    omega
  obtain ⟨child, member, zombie⟩ := List.countP_pos_iff.mp positive
  cases found : (tree.children this).find? (fun child => tree.state child = .zombie) with
  | none =>
      rw [List.find?_eq_none] at found
      exact absurd zombie (found child member)
  | some first => exact ⟨first, rfl⟩

theorem Kinship.reap_tokens (kin : tree.Kinship) (token : tree.waiters.calls this = .token)
    (member : child ∈ tree.children this) (zombie : tree.state child = .zombie) (index : Nat) :
    (tree.waiters.setCall this .outside).tokens index =
      ((Function.update tree.children this ((tree.children this).erase child) index).countP
        (fun child => tree.state child = .zombie) : Int) := by
  have before := kin.tokens index
  rw [Waiters.setCall_eq_put, Waiters.tokens_put]
  by_cases same : index = this
  · rw [if_pos same, same, Function.update_self, List.countP_erase]
    rw [same] at before
    unfold Waiters.tokens zombiesOf at before
    rw [token] at before
    have positive : 0 < (tree.children this).countP (fun child => tree.state child = .zombie) :=
      List.countP_pos_iff.mpr ⟨child, member, by simpa using zombie⟩
    simp only [WaitCall.taken, Bool.toNat_true, Bool.toNat_false, member, zombie, decide_true,
      and_self, if_true] at before ⊢
    omega
  · rw [if_neg same, Function.update_of_ne same]
    exact before

theorem Kinship.reap_listed (kin : tree.Kinship) (adopted : tree.parent child = some this)
    (index owner : Nat) :
    index ∈ Function.update tree.children this ((tree.children this).erase child) owner ↔
      tree.parent index = some owner ∧ index ≠ rootProc ∧
        Function.update tree.reaped child true index = false := by
  by_cases same : index = child
  · rw [same, Function.update_self]
    by_cases mine : owner = this
    · rw [mine, Function.update_self]
      simp [(kin.distinct this).mem_erase_iff]
    · rw [Function.update_of_ne mine, kin.listed, adopted]
      simp [Ne.symm mine]
  · rw [Function.update_of_ne same]
    by_cases mine : owner = this
    · rw [mine, Function.update_self, (kin.distinct this).mem_erase_iff, kin.listed]
      simp [same]
    · rw [Function.update_of_ne mine]
      exact kin.listed index owner

theorem Kinship.reap (kin : tree.Kinship) (token : tree.waiters.calls this = .token)
    (member : child ∈ tree.children this) (zombie : tree.state child = .zombie) :
    ({ tree with
      waiters := tree.waiters.setCall this .outside
      children := Function.update tree.children this ((tree.children this).erase child)
      reaped := Function.update tree.reaped child true } : ProcTree).Kinship := by
  obtain ⟨adopted, other, here⟩ := (kin.listed child this).mp member
  have stays : ∀ {index}, Function.update tree.reaped child true index = false →
      index ≠ child ∧ tree.reaped index = false := by
    intro index still
    have different : index ≠ child := by
      intro same
      rw [same, Function.update_self] at still
      cases still
    rw [Function.update_of_ne different] at still
    exact ⟨different, still⟩
  constructor
  · intro index
    rw [Waiters.setCall_eq_put]
    apply kin.shaped.put
    exact ⟨by simp, fun _ => (kin.shaped this).awake (by simp [token])⟩
  · intro index inside
    change Function.update tree.waiters.calls this .outside index ≠ _ at inside
    by_cases same : index = this
    · rw [same, Function.update_self] at inside
      exact absurd rfl inside
    · rw [Function.update_of_ne same] at inside
      exact kin.born index inside
  · exact kin.reap_tokens token member zombie
  · exact kin.reap_listed adopted
  · intro index
    change (Function.update tree.children this ((tree.children this).erase child) index).Nodup
    by_cases same : index = this
    · rw [same, Function.update_self]
      exact (kin.distinct this).erase child
    · rw [Function.update_of_ne same]
      exact kin.distinct index
  · intro index owner mine still
    exact kin.alive index owner mine (stays still).2
  · intro index gone
    change Function.update tree.reaped child true index = true at gone
    by_cases same : index = child
    · rw [same]
      exact zombie
    · rw [Function.update_of_ne same] at gone
      exact kin.dead index gone
  · exact kin.started
  · exact kin.unstarted
  · exact kin.apart
  · intro index later
    change tree.made ≤ index at later
    obtain ⟨fresh, orphan, childless, left⟩ := kin.unmade index later
    have made := kin.child_made adopted
    refine ⟨fresh, orphan, ?_, ?_⟩
    · change Function.update tree.children this ((tree.children this).erase child) index = _
      have different : index ≠ this := by
        intro same
        rw [← same, childless] at member
        cases member
      rw [Function.update_of_ne different]
      exact childless
    · change Function.update tree.reaped child true index = _
      rw [Function.update_of_ne (by omega)]
      exact left
  · refine ⟨kin.root.1, kin.root.2.1, ?_⟩
    change Function.update tree.reaped child true rootProc = _
    rw [Function.update_of_ne (Ne.symm other)]
    exact kin.root.2.2

theorem Recorded.reap (recorded : tree.Recorded) (kin : tree.Kinship)
    (member : child ∈ tree.children this) (zombie : tree.state child = .zombie) {waiters : Waiters}
    (states : waiters.procs.state = tree.waiters.procs.state) {children : Nat → List Nat} :
    (({ tree with
      waiters := waiters
      children := children
      reaped := Function.update tree.reaped child true } : ProcTree).record
        (.reaped this child (tree.pid child) (tree.exitcode child))).Recorded := by
  obtain ⟨adopted, other, here⟩ := (kin.listed child this).mp member
  constructor
  · intro index below
    exact List.mem_append_left _ (recorded.pids index below)
  · intro index code
    change _ ∈ tree.history ++ [_] ↔ waiters.procs.state index = _ ∧ _
    simp only [List.mem_append, List.mem_singleton, reduceCtorEq, or_false]
    rw [states]
    exact recorded.codes index code
  · intro index still
    change Function.update tree.reaped child true index = false at still
    change parentIn (tree.history ++ [_]) index = _
    rw [parentIn_concat]
    have different : index ≠ child := by
      intro same
      rw [same, Function.update_self] at still
      cases still
    rw [Function.update_of_ne different] at still
    exact recorded.parents index still
  · intro owner index pid code listed
    change _ ∈ tree.history ++ [_] at listed
    change Function.update tree.reaped child true index = true
    by_cases same : index = child
    · rw [same, Function.update_self]
    · rw [Function.update_of_ne same]
      simp only [List.mem_append, List.mem_singleton, ProcEvent.reaped.injEq, same, false_and,
        and_false, or_false] at listed
      exact recorded.reaps owner index pid code listed
  · apply recorded.proper.concat
    refine ⟨recorded.pids child (kin.child_made adopted), ?_, ?_, ?_⟩
    · exact (recorded.codes child _).mpr ⟨zombie, rfl⟩
    · rw [recorded.parents child here]
      exact adopted
    · intro owner pid code earlier
      have gone := recorded.reaps owner child pid code earlier
      rw [here] at gone
      cases gone

theorem Sound.waitReap (sound : tree.Sound) (token : tree.waiters.calls this = .token) :
    ∃ child after, child ∈ tree.children this ∧ tree.state child = .zombie ∧
      tree.waitReap this = .ok after ∧ after.Sound ∧
      after.history =
        tree.history ++ [.reaped this child (tree.pid child) (tree.exitcode child)] ∧
      after.children = Function.update tree.children this ((tree.children this).erase child) := by
  obtain ⟨child, found⟩ := sound.1.zombie_child token
  have member := List.mem_of_find?_eq_some found
  have zombie : tree.state child = .zombie := by
    simpa using List.find?_some found
  unfold ProcTree.waitReap
  rw [found]
  refine ⟨child, _, member, zombie, rfl, ⟨?_, ?_⟩, rfl, rfl⟩
  · exact (sound.1.reap token member zombie).record _
  · apply sound.2.reap sound.1 member zombie
    rfl

end ProcTree

end LabKernel.Kernel
