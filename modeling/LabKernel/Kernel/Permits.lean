/-
The permits of a semaphore.

Any number of processes wait on one semaphore, post it and take its permits, and are killed
while they wait. A call of `_wait_sem` is split where it sleeps; everything else runs under
`sem->lock`. What has happened is recorded, and the permits that were posted are the ones that
were granted and the ones that are still there, as long as an `int` can count them.
-/

import LabKernel.Common.SemInt
import LabKernel.Kernel.Procs
import LabKernel.Lib.History
import LabKernel.Lib.Transition
import Mathlib.Algebra.Ring.Int.Defs
import Mathlib.Data.List.Nodup

set_option autoImplicit false

namespace LabKernel.Kernel

open Common Transition

/-- The `WaitData` of a call that has gone to the sleep list, with the argument of the call. -/
structure WaitData where
  alertable : Bool
  up : Bool
  deriving DecidableEq, Repr

/-- What is recorded: a wait that goes to the sleep list, a wait that gets a permit, a post, a
number of permits that are taken without waiting, and a wait that returns. -/
inductive SemEvent where
  | slept (tid : Tid)
  | granted (tid : Tid)
  | posted
  | got (count : Int)
  | returned (tid : Tid) (alertable ret : Bool)
  deriving DecidableEq, Repr

structure SemSystem where
  procs : Procs
  sem : Semaphore
  waits : Tid → Option WaitData
  history : List SemEvent

def SemSystem.initial (procs : Procs) (val : Int) : SemSystem :=
  { procs := procs, sem := initSem val, waits := fun _ => none, history := [] }

/-! ### The calls -/

namespace SemSystem

variable (sys : SemSystem)

def record (event : SemEvent) : SemSystem := { sys with history := sys.history ++ [event] }

/-- `_wait_sem` until it returns or gives up the CPU. -/
def wait (tid : Tid) (alertable : Bool) : SemSystem :=
  match waitInt tid sys.sem with
  | (true, sem) =>
      (({ sys with sem := sem }.record (.granted tid)).record (.returned tid alertable true))
  | (false, sem) =>
      { procs := sys.procs.leave tid (if alertable then .sleeping else .deepSleeping)
        sem := sem
        waits := Function.update sys.waits tid (some { alertable := alertable, up := false })
        history := sys.history ++ [.slept tid] }

/-- The rest of `_wait_sem`. The callers assert that a wait which is not alertable succeeds. -/
def resume (tid : Tid) (wait : WaitData) : Except Stop SemSystem :=
  let left := { sys with waits := Function.update sys.waits tid none }
  if wait.up then .ok (left.record (.returned tid wait.alertable true))
  else if intWrap (sys.sem.val + 1) ≤ 0 then
    if wait.alertable then
      .ok ({ left with sem :=
        { val := intWrap (sys.sem.val + 1), sleeplist := sys.sem.sleeplist.erase tid } }.record
          (.returned tid wait.alertable false))
    else .error .assertion
  else .error .assertion

/-- `_post_sem` sets `up` in the wait data of the sleeper it takes off the list, and wakes it. -/
def grant (tid : Tid) : SemSystem :=
  { sys with
    procs := sys.procs.activate tid false
    waits := Function.update sys.waits tid
      ((sys.waits tid).map (fun wait => { wait with up := true }))
    history := sys.history ++ [.granted tid] }

def post : Except Stop SemSystem :=
  match postInt sys.sem with
  | none => .error .assertion
  | some (none, sem) => .ok ({ sys with sem := sem }.record .posted)
  | some (some tid, sem) => .ok (({ sys with sem := sem }.record .posted).grant tid)

def get : Bool × SemSystem :=
  match getSem sys.sem with
  | (true, sem) => (true, { sys with sem := sem }.record (.got 1))
  | (false, sem) => (false, { sys with sem := sem })

def getAll : Int × SemSystem :=
  if 0 < sys.sem.val then
    (sys.sem.val, { sys with sem := { sys.sem with val := 0 } }.record (.got sys.sem.val))
  else (0, sys)

/-- The loop of `post_all_sem`. Each round that goes on takes a sleeper off the list. -/
def postAllLoop : Nat → Int → SemSystem → Except Stop (Int × SemSystem)
  | 0, _, _ => .error .endless
  | rounds + 1, ret, sys =>
      match sys.post with
      | .error stop => .error stop
      | .ok posted =>
          match posted.get with
          | (true, after) => .ok (intWrap (ret + 1), after)
          | (false, after) => postAllLoop rounds (intWrap (ret + 1)) after

def postAll : Except Stop (Int × SemSystem) :=
  postAllLoop (sys.sem.sleeplist.length + 1) (-1) sys

end SemSystem

/-! ### The system -/

/-- The calls on the semaphore and what happens to the processes: the killed flag is set, an
alert comes, the scheduler lets a process run or takes the CPU from it, and a process that is
not in a wait sleeps and is woken for other reasons. -/
inductive SemAction where
  | wait (tid : Tid) (alertable : Bool)
  | resume (tid : Tid)
  | post
  | get
  | getAll
  | postAll
  | setKilled (tid : Tid)
  | alert (tid : Tid)
  | dispatch (tid : Tid)
  | yield (tid : Tid)
  | leave (tid : Tid) (newState : ProcState)
  | activate (tid : Tid)
  deriving DecidableEq

def semStep (sys : SemSystem) : SemAction → Except Stop SemSystem
  | .wait tid alertable =>
      if sys.waits tid = none ∧ sys.procs.state tid = .running then .ok (sys.wait tid alertable)
      else .error .disabled
  | .resume tid =>
      match sys.waits tid with
      | none => .error .disabled
      | some wait =>
          if sys.procs.state tid = .running then sys.resume tid wait else .error .disabled
  | .post => sys.post
  | .get => .ok sys.get.2
  | .getAll => .ok sys.getAll.2
  | .postAll => sys.postAll.map Prod.snd
  | .setKilled tid => .ok { sys with procs := sys.procs.setKilled tid }
  | .alert tid => .ok { sys with procs := sys.procs.activate tid true }
  | .dispatch tid =>
      if sys.procs.state tid = .runnable then
        .ok { sys with procs := sys.procs.setState tid .running }
      else .error .disabled
  | .yield tid =>
      if sys.procs.state tid = .running then
        .ok { sys with procs := sys.procs.leave tid .runnable }
      else .error .disabled
  | .leave tid newState =>
      if sys.waits tid = none ∧ sys.procs.state tid = .running then
        .ok { sys with procs := sys.procs.leave tid newState }
      else .error .disabled
  | .activate tid =>
      if sys.waits tid = none then .ok { sys with procs := sys.procs.activate tid false }
      else .error .disabled

/-- The step does not take `val` over an end of `int`. -/
def SemSystem.StaysInt (sys : SemSystem) : SemAction → Prop
  | .wait _ _ => sys.sem.val ≠ intMin
  | .post | .postAll => sys.sem.val ≠ intMax
  | _ => True

instance (sys : SemSystem) (action : SemAction) : Decidable (sys.StaysInt action) :=
  match action with
  | .wait _ _ => inferInstanceAs (Decidable (sys.sem.val ≠ intMin))
  | .post | .postAll => inferInstanceAs (Decidable (sys.sem.val ≠ intMax))
  | .resume _ | .get | .getAll | .setKilled _ | .alert _ | .dispatch _ | .yield _ | .leave _ _
  | .activate _ => isTrue True.intro

/-! ### What the record says -/

namespace SemEvent

def posts : SemEvent → Int
  | .posted => 1
  | _ => 0

def grants : SemEvent → Int
  | .granted _ => 1
  | .got count => count
  | _ => 0

def queue (waiting : List Tid) : SemEvent → List Tid
  | .slept tid => waiting ++ [tid]
  | .granted tid => waiting.erase tid
  | .returned tid _ false => waiting.erase tid
  | _ => waiting

/-- Whether the wait that a process is in has got a permit. -/
def hold (tid : Tid) (held : Bool) : SemEvent → Bool
  | .slept other | .returned other _ _ => if other = tid then false else held
  | .granted other => if other = tid then true else held
  | _ => held

end SemEvent

def postsIn (history : List SemEvent) : Int := (history.map SemEvent.posts).sum

def grantsIn (history : List SemEvent) : Int := (history.map SemEvent.grants).sum

def waitingIn (history : List SemEvent) : List Tid := history.foldl SemEvent.queue []

def heldIn (tid : Tid) (history : List SemEvent) : Bool := history.foldl (SemEvent.hold tid) false

/-- A permit goes to the oldest wait on the sleep list, a wait succeeds exactly when it was
granted a permit, and one that is not alertable does not fail. -/
def Fair (before : List SemEvent) : SemEvent → Prop
  | .granted tid => waitingIn before = [] ∨ (waitingIn before).head? = some tid
  | .returned tid alertable ret =>
      (ret = true ↔ heldIn tid before = true) ∧ (alertable = false → ret = true)
  | _ => True

section Concat

variable (history : List SemEvent) (event : SemEvent) (tid : Tid)

@[simp]
theorem postsIn_concat : postsIn (history ++ [event]) = postsIn history + event.posts := by
  simp [postsIn]

@[simp]
theorem grantsIn_concat : grantsIn (history ++ [event]) = grantsIn history + event.grants := by
  simp [grantsIn]

@[simp]
theorem waitingIn_concat : waitingIn (history ++ [event]) = event.queue (waitingIn history) := by
  simp [waitingIn]

@[simp]
theorem heldIn_concat : heldIn tid (history ++ [event]) = event.hold tid (heldIn tid history) := by
  simp [heldIn]

end Concat

/-! ### Accounting -/

/-- The record and the semaphore agree, for a semaphore that began with `val` permits. -/
structure SemSystem.Accounted (val : Int) (sys : SemSystem) : Prop where
  inside : sys.sem.InInt
  balanced : sys.sem.Balanced
  counted : sys.sem.val =
    val + postsIn sys.history - grantsIn sys.history - sys.sem.sleeplist.length
  waiting : waitingIn sys.history = sys.sem.sleeplist.reverse
  distinct : sys.sem.sleeplist.Nodup
  listed : ∀ tid, tid ∈ sys.sem.sleeplist ↔
    ∃ alertable, sys.waits tid = some { alertable := alertable, up := false }
  held : ∀ tid, heldIn tid sys.history = true ↔
    ∃ alertable, sys.waits tid = some { alertable := alertable, up := true }
  deep : ∀ tid, sys.waits tid = some { alertable := false, up := false } →
    sys.procs.state tid = .deepSleeping
  fair : History.Each Fair sys.history

namespace SemSystem

variable {sys after : SemSystem} {val : Int} {tid : Tid}

theorem Accounted.initial (procs : Procs) (free : 0 ≤ val) (small : val ≤ intMax) :
    (SemSystem.initial procs val).Accounted val := by
  constructor
  · exact ⟨Int.le_trans (by decide) free, small⟩
  · exact Semaphore.Balanced.init free
  · simp [SemSystem.initial, initSem, postsIn, grantsIn]
  · simp [SemSystem.initial, initSem, waitingIn]
  · simp [SemSystem.initial, initSem]
  · simp [SemSystem.initial, initSem]
  · simp [SemSystem.initial, heldIn]
  · simp [SemSystem.initial]
  · exact History.Each.nil

/-- Processes change their state, but no deep sleeper on the list does. -/
theorem Accounted.move (accounted : sys.Accounted val) {procs : Procs}
    (deep : ∀ tid, sys.waits tid = some { alertable := false, up := false } →
      procs.state tid = .deepSleeping) : { sys with procs := procs }.Accounted val :=
  ⟨accounted.inside, accounted.balanced, accounted.counted, accounted.waiting, accounted.distinct,
    accounted.listed, accounted.held, deep, accounted.fair⟩

theorem Accounted.not_held (accounted : sys.Accounted val) (out : sys.waits tid = none) :
    heldIn tid sys.history = false := by
  by_contra other
  obtain ⟨alertable, here⟩ := (accounted.held tid).mp (Bool.of_not_eq_false other)
  rw [out] at here
  cases here

theorem Accounted.not_listed (accounted : sys.Accounted val) (out : sys.waits tid = none) :
    tid ∉ sys.sem.sleeplist := by
  intro member
  obtain ⟨alertable, here⟩ := (accounted.listed tid).mp member
  rw [out] at here
  cases here

/-! The calls. -/

theorem Accounted.wait (accounted : sys.Accounted val) (out : sys.waits tid = none)
    (above : sys.sem.val ≠ intMin) (alertable : Bool) : (sys.wait tid alertable).Accounted val := by
  have balanced := accounted.balanced.wait tid
  have counted := accounted.counted
  have unheld := accounted.not_held out
  have inside : intMin ≤ sys.sem.val - 1 ∧ sys.sem.val - 1 ≤ intMax := by
    obtain ⟨low, high⟩ := accounted.inside
    omega
  unfold SemSystem.wait
  rw [waitInt_eq accounted.inside above]
  unfold waitSem at balanced ⊢
  split at balanced
  · rename_i free
    have empty : sys.sem.sleeplist = [] := by
      have length := accounted.balanced
      unfold Semaphore.Balanced at length
      rw [← List.length_eq_zero_iff]
      omega
    have nobody : waitingIn sys.history = [] := by
      rw [accounted.waiting, empty, List.reverse_nil]
    rw [if_pos free]
    constructor
    · exact inside
    · exact balanced
    · simp only [record, postsIn_concat, grantsIn_concat, SemEvent.posts, SemEvent.grants]
      omega
    · simp only [record, waitingIn_concat, SemEvent.queue, nobody, empty, List.erase_nil,
        List.reverse_nil]
    · exact accounted.distinct
    · exact accounted.listed
    · intro other
      change heldIn other ((sys.history ++ [_]) ++ [_]) = true ↔ _
      rw [heldIn_concat, heldIn_concat]
      change (if tid = other then false else if tid = other then true else _) = true ↔ _
      by_cases same : tid = other
      · rw [if_pos same, ← same]
        simp [record, out]
      · rw [if_neg same, if_neg same]
        exact accounted.held other
    · exact accounted.deep
    · apply History.Each.concat
      · exact accounted.fair.concat (Or.inl nobody)
      · simp [Fair, record, SemEvent.hold]
  · rename_i taken
    rw [if_neg taken]
    constructor
    · exact inside
    · exact balanced
    · simp only [postsIn_concat, grantsIn_concat, SemEvent.posts, SemEvent.grants,
        List.length_cons]
      omega
    · simp [SemEvent.queue, accounted.waiting]
    · exact List.nodup_cons.mpr ⟨accounted.not_listed out, accounted.distinct⟩
    · intro other
      change other ∈ tid :: sys.sem.sleeplist ↔ ∃ flag, Function.update sys.waits tid _ other = _
      by_cases same : other = tid
      · simp [same]
      · rw [Function.update_of_ne same, List.mem_cons, ← accounted.listed other]
        simp [same]
    · intro other
      change heldIn other (sys.history ++ [_]) = true ↔
        ∃ flag, Function.update sys.waits tid _ other = _
      rw [heldIn_concat]
      change (if tid = other then false else _) = true ↔ _
      by_cases same : tid = other
      · simp [same]
      · rw [if_neg same, Function.update_of_ne (Ne.symm same)]
        exact accounted.held other
    · intro other waits
      change Function.update sys.waits tid _ other = _ at waits
      by_cases same : other = tid
      · rw [same, Function.update_self] at waits
        have unalertable : alertable = false := by
          simpa using waits
        simp [same, unalertable, Procs.leave_deepSleeping]
      · rw [Function.update_of_ne same] at waits
        change (sys.procs.leave tid _).state other = _
        rw [Procs.leave_other same]
        exact accounted.deep other waits
    · exact accounted.fair.concat trivial

theorem Accounted.resume (accounted : sys.Accounted val) {wait : WaitData}
    (inside : sys.waits tid = some wait) (running : sys.procs.state tid = .running) :
    ∃ after, sys.resume tid wait = .ok after ∧ after.Accounted val := by
  have heldAfter : ∀ alertable ret other,
      heldIn other (sys.history ++ [.returned tid alertable ret]) = true ↔
        ∃ flag, Function.update sys.waits tid none other =
          some { alertable := flag, up := true } := by
    intro alertable ret other
    rw [heldIn_concat]
    change (if tid = other then false else _) = true ↔ _
    by_cases same : tid = other
    · simp [same]
    · rw [if_neg same, Function.update_of_ne (Ne.symm same)]
      exact accounted.held other
  have deepAfter : ∀ other, Function.update sys.waits tid none other =
      some { alertable := false, up := false } → sys.procs.state other = .deepSleeping := by
    intro other waits
    by_cases same : other = tid
    · rw [same, Function.update_self] at waits
      cases waits
    · rw [Function.update_of_ne same] at waits
      exact accounted.deep other waits
  have counted := accounted.counted
  obtain ⟨low, high⟩ := accounted.inside
  obtain ⟨alertable, up⟩ := wait
  cases up with
  | true =>
      refine ⟨_, rfl, ?_⟩
      constructor
      · exact accounted.inside
      · exact accounted.balanced
      · simp only [record, postsIn_concat, grantsIn_concat, SemEvent.posts, SemEvent.grants]
        omega
      · simp only [record, waitingIn_concat, SemEvent.queue]
        exact accounted.waiting
      · exact accounted.distinct
      · intro other
        change other ∈ sys.sem.sleeplist ↔ ∃ flag, Function.update sys.waits tid none other = _
        rw [accounted.listed]
        by_cases same : other = tid
        · rw [same, Function.update_self, inside]
          simp
        · rw [Function.update_of_ne same]
      · exact heldAfter alertable true
      · exact deepAfter
      · apply accounted.fair.concat
        have granted := (accounted.held tid).mpr ⟨alertable, inside⟩
        simp [Fair, granted]
  | false =>
      have member : tid ∈ sys.sem.sleeplist := (accounted.listed tid).mpr ⟨alertable, inside⟩
      have some : 0 < sys.sem.sleeplist.length := List.length_pos_of_mem member
      have length := accounted.balanced
      unfold Semaphore.Balanced at length
      have negative : sys.sem.val + 1 ≤ 0 := by omega
      have word : intWrap (sys.sem.val + 1) = sys.sem.val + 1 :=
        intWrap_inside (by omega) (Int.le_trans negative (by decide))
      have shorter := List.length_erase_of_mem member
      -- A deep sleeper does not run before it is granted a permit.
      have flag : alertable = true := by
        by_contra deep
        have sleeping := accounted.deep tid (by rw [inside, Bool.of_not_eq_true deep])
        rw [running] at sleeping
        cases sleeping
      have ungranted : heldIn tid sys.history = false := by
        by_contra granted
        obtain ⟨other, here⟩ := (accounted.held tid).mp (Bool.of_not_eq_false granted)
        rw [inside] at here
        cases here
      unfold SemSystem.resume
      simp only [flag, if_true, word, if_pos negative]
      refine ⟨_, rfl, ?_⟩
      constructor
      · exact ⟨by simp only [record]; omega, Int.le_trans negative (by decide)⟩
      · simp only [Semaphore.Balanced, record, shorter]
        omega
      · simp only [record, postsIn_concat, grantsIn_concat, SemEvent.posts, SemEvent.grants, shorter]
        omega
      · simp only [record, waitingIn_concat, SemEvent.queue, accounted.waiting]
        rw [(List.nodup_reverse.mpr accounted.distinct).erase_eq_filter,
          accounted.distinct.erase_eq_filter, List.filter_reverse]
      · exact accounted.distinct.erase tid
      · intro other
        change other ∈ sys.sem.sleeplist.erase tid ↔
          ∃ flag, Function.update sys.waits tid none other = _
        rw [accounted.distinct.mem_erase_iff, accounted.listed]
        by_cases same : other = tid
        · simp [same]
        · rw [Function.update_of_ne same]
          simp [same]
      · exact heldAfter true false
      · exact deepAfter
      · apply accounted.fair.concat
        simp [Fair, ungranted]

theorem Accounted.post (accounted : sys.Accounted val) (below : sys.sem.val ≠ intMax) :
    ∃ after, sys.post = .ok after ∧ after.Accounted val ∧
      after.sem.val = sys.sem.val + 1 ∧
      after.sem.sleeplist.length = sys.sem.sleeplist.length - 1 := by
  have counted := accounted.counted
  have word : intMin ≤ sys.sem.val + 1 ∧ sys.sem.val + 1 ≤ intMax := by
    obtain ⟨low, high⟩ := accounted.inside
    omega
  have length := accounted.balanced
  unfold Semaphore.Balanced at length
  rcases List.eq_nil_or_concat sys.sem.sleeplist with empty | ⟨older, tid, sleepers⟩
  · unfold SemSystem.post
    rw [postInt_eq accounted.inside below, postSem_free accounted.balanced empty]
    rw [empty, List.length_nil] at length counted
    refine ⟨_, rfl, ?_, rfl, ?_⟩
    · constructor
      · exact word
      · simp only [Semaphore.Balanced, record, empty, List.length_nil]
        omega
      · simp only [record, postsIn_concat, grantsIn_concat, SemEvent.posts, SemEvent.grants, empty,
          List.length_nil]
        omega
      · simp only [record, waitingIn_concat, SemEvent.queue]
        exact accounted.waiting
      · exact accounted.distinct
      · exact accounted.listed
      · intro other
        simp only [record, heldIn_concat, SemEvent.hold]
        exact accounted.held other
      · exact accounted.deep
      · exact accounted.fair.concat trivial
    · change sys.sem.sleeplist.length = _
      rw [empty]
      rfl
  · rw [List.concat_eq_append] at sleepers
    have distinct := accounted.distinct
    have waiting := accounted.waiting
    rw [sleepers] at distinct waiting
    rw [List.reverse_append, List.reverse_singleton, List.singleton_append] at waiting
    have outside : tid ∉ older := by
      intro member
      exact (List.nodup_append.mp distinct).2.2 tid member tid (List.mem_singleton_self tid) rfl
    obtain ⟨alertable, inside⟩ := (accounted.listed tid).mp (by rw [sleepers]; simp)
    unfold SemSystem.post
    rw [postInt_eq accounted.inside below, postSem_sleeping accounted.balanced sleepers]
    rw [sleepers, List.length_append, List.length_singleton] at length counted
    refine ⟨_, rfl, ?_, rfl, ?_⟩
    · constructor
      · exact word
      · simp only [Semaphore.Balanced, record, grant]
        omega
      · simp only [record, grant, postsIn_concat, grantsIn_concat, SemEvent.posts, SemEvent.grants]
        omega
      · simp only [record, grant, waitingIn_concat, SemEvent.queue, waiting, List.erase_cons_head]
      · exact (List.nodup_append.mp distinct).1
      · intro other
        change other ∈ older ↔ ∃ flag, Function.update sys.waits tid _ other = _
        by_cases same : other = tid
        · rw [same, Function.update_self]
          simp [outside, record, inside]
        · rw [Function.update_of_ne same, ← accounted.listed, sleepers, List.mem_append]
          simp [same]
      · intro other
        change heldIn other ((sys.history ++ [_]) ++ [_]) = true ↔
          ∃ flag, Function.update sys.waits tid _ other = _
        rw [heldIn_concat, heldIn_concat]
        change (if tid = other then true else _) = true ↔ _
        by_cases same : tid = other
        · rw [if_pos same, ← same, Function.update_self]
          simp [record, inside]
        · rw [if_neg same, Function.update_of_ne (Ne.symm same)]
          exact accounted.held other
      · intro other waits
        change Function.update sys.waits tid _ other = _ at waits
        by_cases same : other = tid
        · rw [same, Function.update_self] at waits
          simp [record, inside] at waits
        · rw [Function.update_of_ne same] at waits
          change (sys.procs.activate tid false).state other = _
          rw [Procs.activate_other same]
          exact accounted.deep other waits
      · apply History.Each.concat
        · exact accounted.fair.concat trivial
        · right
          simp only [record, waitingIn_concat, SemEvent.queue, waiting, List.head?_cons]
    · change older.length = _
      rw [sleepers, List.length_append, List.length_singleton]
      omega

theorem Accounted.take (accounted : sys.Accounted val) {count : Int} (enough : count ≤ sys.sem.val)
    (free : 0 < count) :
    ({ sys with sem := { sys.sem with val := sys.sem.val - count } }.record (.got count)).Accounted
      val := by
  have counted := accounted.counted
  have length := accounted.balanced
  unfold Semaphore.Balanced at length
  obtain ⟨low, high⟩ := accounted.inside
  constructor
  · refine ⟨Int.le_trans (by decide) (Int.sub_nonneg_of_le enough), ?_⟩
    simp only [record]
    omega
  · simp only [Semaphore.Balanced, record]
    omega
  · simp only [record, postsIn_concat, grantsIn_concat, SemEvent.posts, SemEvent.grants]
    omega
  · simp only [record, waitingIn_concat, SemEvent.queue]
    exact accounted.waiting
  · exact accounted.distinct
  · exact accounted.listed
  · intro other
    simp only [record, heldIn_concat, SemEvent.hold]
    exact accounted.held other
  · exact accounted.deep
  · exact accounted.fair.concat trivial

theorem get_cases (sys : SemSystem) :
    (0 < sys.sem.val ∧ sys.get = (true, { sys with sem :=
      { sys.sem with val := sys.sem.val - 1 } }.record (.got 1))) ∨
    (sys.sem.val ≤ 0 ∧ sys.get = (false, sys)) := by
  unfold SemSystem.get getSem
  by_cases free : 0 < sys.sem.val
  · left
    simp [free]
  · right
    simp [free]
    omega

theorem Accounted.get (accounted : sys.Accounted val) : sys.get.2.Accounted val := by
  rcases sys.get_cases with ⟨free, taken⟩ | ⟨-, taken⟩
  · rw [taken]
    exact accounted.take (by omega) Int.one_pos
  · rw [taken]
    exact accounted

theorem Accounted.getAll (accounted : sys.Accounted val) : sys.getAll.2.Accounted val := by
  unfold SemSystem.getAll
  split
  · rename_i free
    have taken := accounted.take (Int.le_refl _) free
    rw [Int.sub_self] at taken
    exact taken
  · exact accounted

theorem Accounted.postAllLoop (rounds : Nat) :
    ∀ (ret : Int) (sys : SemSystem), sys.Accounted val → sys.sem.val ≠ intMax →
      sys.sem.sleeplist.length < rounds →
      ∃ count after, SemSystem.postAllLoop rounds ret sys = .ok (count, after) ∧
        after.Accounted val := by
  induction rounds with
  | zero =>
      intro ret sys _ _ short
      cases short
  | succ rounds ih =>
      intro ret sys accounted below short
      obtain ⟨posted, went, kept, value, length⟩ := accounted.post below
      have balanced := accounted.balanced
      unfold Semaphore.Balanced at balanced
      unfold SemSystem.postAllLoop
      rw [went]
      have later := kept.get
      rcases posted.get_cases with ⟨-, taken⟩ | ⟨none, taken⟩
      · rw [taken] at later
        simp only [taken]
        exact ⟨_, _, rfl, later⟩
      · simp only [taken]
        -- No permit is left, so there was a sleeper to take it.
        have smaller : posted.sem.val ≠ intMax := by
          intro full
          rw [full] at none
          exact absurd none (by decide)
        apply ih (intWrap (ret + 1)) posted kept smaller
        omega

theorem Accounted.postAll (accounted : sys.Accounted val) (below : sys.sem.val ≠ intMax) :
    ∃ count after, sys.postAll = .ok (count, after) ∧ after.Accounted val :=
  Accounted.postAllLoop _ (-1) sys accounted below (Nat.lt_succ_self _)

/-! ### Runs -/

/-- Every call goes through, unless its caller could not make it. -/
theorem Accounted.step (accounted : sys.Accounted val) (action : SemAction)
    (small : sys.StaysInt action) :
    semStep sys action = .error .disabled ∨
      ∃ after, semStep sys action = .ok after ∧ after.Accounted val := by
  have awake : ∀ {tid}, sys.procs.state tid ≠ .deepSleeping → ∀ other,
      sys.waits other = some { alertable := false, up := false } → other ≠ tid := by
    intro tid awake other waits same
    rw [same] at waits
    exact awake (accounted.deep tid waits)
  cases action with
  | wait tid alertable =>
      simp only [semStep]
      split
      · rename_i free
        exact Or.inr ⟨_, rfl, accounted.wait free.1 small alertable⟩
      · exact Or.inl rfl
  | resume tid =>
      simp only [semStep]
      split
      · exact Or.inl rfl
      · rename_i wait inside
        split
        · rename_i running
          exact Or.inr (accounted.resume inside running)
        · exact Or.inl rfl
  | post =>
      obtain ⟨after, went, kept, -⟩ := accounted.post small
      exact Or.inr ⟨after, went, kept⟩
  | get => exact Or.inr ⟨_, rfl, accounted.get⟩
  | getAll => exact Or.inr ⟨_, rfl, accounted.getAll⟩
  | postAll =>
      obtain ⟨count, after, went, kept⟩ := accounted.postAll small
      simp only [semStep, went]
      exact Or.inr ⟨after, rfl, kept⟩
  | setKilled tid => exact Or.inr ⟨_, rfl, accounted.move accounted.deep⟩
  | alert tid =>
      refine Or.inr ⟨_, rfl, accounted.move ?_⟩
      intro other waits
      by_cases same : other = tid
      · rw [same] at waits ⊢
        rw [Procs.alert_deepSleeping (accounted.deep tid waits)]
        exact accounted.deep tid waits
      · rw [Procs.activate_other same]
        exact accounted.deep other waits
  | dispatch tid =>
      simp only [semStep]
      split
      · rename_i ready
        refine Or.inr ⟨_, rfl, accounted.move ?_⟩
        intro other waits
        rw [Procs.setState_other (awake (by simp [ready]) other waits)]
        exact accounted.deep other waits
      · exact Or.inl rfl
  | yield tid =>
      simp only [semStep]
      split
      · rename_i running
        refine Or.inr ⟨_, rfl, accounted.move ?_⟩
        intro other waits
        rw [Procs.leave_other (awake (by simp [running]) other waits)]
        exact accounted.deep other waits
      · exact Or.inl rfl
  | leave tid newState =>
      simp only [semStep]
      split
      · rename_i free
        refine Or.inr ⟨_, rfl, accounted.move ?_⟩
        intro other waits
        rw [Procs.leave_other (awake (by simp [free.2]) other waits)]
        exact accounted.deep other waits
      · exact Or.inl rfl
  | activate tid =>
      simp only [semStep]
      split
      · rename_i free
        refine Or.inr ⟨_, rfl, accounted.move ?_⟩
        intro other waits
        have different : other ≠ tid := by
          intro same
          rw [same, free] at waits
          cases waits
        rw [Procs.activate_other different]
        exact accounted.deep other waits
      · exact Or.inl rfl

theorem Accounted.run (accounted : sys.Accounted val) {actions : List SemAction}
    (run : Run semStep StaysInt sys actions after) : after.Accounted val := by
  apply run.invariant accounted
  intro before action after accounted met taken
  rcases accounted.step action met with stopped | ⟨final, went, kept⟩
  · rw [stopped] at taken
    cases taken
  · rw [taken] at went
    cases went
    exact kept

end SemSystem

/-- In every run that keeps `val` within `int` the sleep list and the value agree with what has
been posted and granted, permits go to the oldest sleeper, a wait succeeds exactly when it was
granted a permit, and no assertion fails. -/
theorem semaphore_accounting (procs : Procs) {val : Int} (free : 0 ≤ val) (small : val ≤ intMax)
    {actions : List SemAction} {sys : SemSystem}
    (run : Run semStep SemSystem.StaysInt (SemSystem.initial procs val) actions sys) :
    (sys.sem.sleeplist.length : Int) = max 0 (-sys.sem.val) ∧
    sys.sem.val = val + postsIn sys.history - grantsIn sys.history - sys.sem.sleeplist.length ∧
    (∀ before tid later, sys.history = before ++ .granted tid :: later →
      waitingIn before = [] ∨ (waitingIn before).head? = some tid) ∧
    (∀ before tid alertable ret later,
      sys.history = before ++ .returned tid alertable ret :: later →
        (ret = true ↔ heldIn tid before = true) ∧ (alertable = false → ret = true)) ∧
    (∀ action, sys.StaysInt action → semStep sys action = .error .disabled ∨
      ∃ after, semStep sys action = .ok after) := by
  have accounted := (SemSystem.Accounted.initial procs free small).run run
  refine ⟨accounted.balanced, accounted.counted, ?_, ?_, ?_⟩
  · intro before tid later split
    exact accounted.fair before (.granted tid) later split
  · intro before tid alertable ret later split
    exact accounted.fair before (.returned tid alertable ret) later split
  · intro action small
    rcases accounted.step action small with stopped | ⟨after, went, -⟩
    · exact Or.inl stopped
    · exact Or.inr ⟨after, went⟩

/-- Of two sleepers the older one is killed, and the permit goes to the other. -/
theorem semaphore_accounting_killed :
    ∃ actions sys, Run semStep SemSystem.StaysInt
        (SemSystem.initial { state := fun _ => .running, killed := fun _ => false } 0) actions sys ∧
      sys.history = [.slept 1, .slept 2, .returned 1 true false, .posted, .granted 2] ∧
      (sys.sem.sleeplist.length : Int) = max 0 (-sys.sem.val) := by
  have run : Run semStep SemSystem.StaysInt
      (SemSystem.initial { state := fun _ => .running, killed := fun _ => false } 0)
      [.wait 1 true, .wait 2 false, .setKilled 1, .alert 1, .dispatch 1, .resume 1, .post] _ :=
    Run.of_exec rfl ⟨by decide, by decide, trivial, trivial, trivial, trivial, by decide, trivial⟩
  exact ⟨_, _, run, rfl, (semaphore_accounting _ (Int.le_refl 0) (by decide) run).1⟩

/-- A post to a semaphore with as many permits as an `int` can count fails its assertion. -/
theorem semaphore_overflows :
    ¬∀ action, semStep (SemSystem.initial { state := fun _ => .running, killed := fun _ => false }
      intMax) action = .error .disabled ∨
        ∃ after, semStep (SemSystem.initial { state := fun _ => .running, killed := fun _ => false }
          intMax) action = .ok after := by
  intro always
  have posted : semStep (SemSystem.initial
      { state := fun _ => .running, killed := fun _ => false } intMax) .post =
        .error .assertion := by
    simp only [semStep, SemSystem.post, SemSystem.initial, initSem]
    rw [postInt_full rfl rfl]
  rcases always .post with stopped | ⟨after, went⟩
  · rw [posted] at stopped
    cases stopped
  · rw [posted] at went
    cases went

end LabKernel.Kernel
