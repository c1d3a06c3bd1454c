/-
What `post_all_sem` does to the processes that sleep on the semaphore.

The loop posts until a permit is left over, which it takes back. Every post before that one goes
to a sleeper, so the loop ends with the sleep list empty and the value the semaphore would have
had without its sleepers. At the ends of `int` there is no room for the permit that is left over,
or for the number of sleepers.
-/

import LabKernel.Kernel.Permits

set_option autoImplicit false

namespace LabKernel.Kernel

open Common Transition

namespace SemSystem

/-- The waits `tids` are granted a permit one after the other, and one more permit is posted and
taken back. -/
structure Wakes (sys : SemSystem) (tids : List Tid) (after : SemSystem) : Prop where
  procs : after.procs = tids.foldl (fun procs tid => procs.activate tid false) sys.procs
  waits : ∀ tid, after.waits tid =
    if tid ∈ tids then (sys.waits tid).map (fun wait => { wait with up := true })
    else sys.waits tid
  history : after.history =
    sys.history ++ (tids.flatMap (fun tid => [.posted, .granted tid]) ++ [.posted, .got 1])

variable {sys after : SemSystem} {tids : List Tid} {tid : Tid}

/-- Without a sleeper the first permit is the one that is taken back. -/
theorem postAllLoop_free (balanced : sys.sem.Balanced) (word : sys.sem.InInt)
    (below : sys.sem.val ≠ intMax) (empty : sys.sem.sleeplist = []) (rounds : Nat) (ret : Int) :
    ∃ after, postAllLoop (rounds + 1) ret sys = .ok (intWrap (ret + 1), after) ∧
      after.sem = { val := max sys.sem.val 0, sleeplist := [] } ∧ sys.Wakes [] after := by
  have nonneg : 0 ≤ sys.sem.val := by
    unfold Semaphore.Balanced at balanced
    rw [empty, List.length_nil] at balanced
    omega
  have posted : sys.post =
      .ok ({ sys with sem := { sys.sem with val := sys.sem.val + 1 } }.record .posted) := by
    unfold post
    rw [postInt_eq word below, postSem_free balanced empty]
  rw [postAllLoop, posted]
  rcases get_cases ({ sys with sem := { sys.sem with val := sys.sem.val + 1 } }.record .posted)
    with ⟨-, taken⟩ | ⟨taken, -⟩
  · simp only [taken]
    refine ⟨_, rfl, ?_, ?_⟩
    · rw [max_eq_left nonneg]
      simp [record, empty]
    · constructor
      · rfl
      · intro tid
        rfl
      · exact List.append_assoc _ _ _
  · change sys.sem.val + 1 ≤ 0 at taken
    omega

theorem postAllLoop_sleeping (balanced : sys.sem.Balanced) (word : sys.sem.InInt)
    (below : sys.sem.val ≠ intMax) {older : List Tid}
    (sleepers : sys.sem.sleeplist = older ++ [tid]) (rounds : Nat) (ret : Int) :
    postAllLoop (rounds + 1) ret sys = postAllLoop rounds (intWrap (ret + 1))
      (({ sys with sem := { val := sys.sem.val + 1, sleeplist := older } }.record
        .posted).grant tid) := by
  have posted : sys.post =
      .ok (({ sys with sem := { val := sys.sem.val + 1, sleeplist := older } }.record
        .posted).grant tid) := by
    unfold post
    rw [postInt_eq word below, postSem_sleeping balanced sleepers]
  rw [postAllLoop, posted]
  rcases get_cases (({ sys with sem := { val := sys.sem.val + 1, sleeplist := older } }.record
    .posted).grant tid) with ⟨free, -⟩ | ⟨-, taken⟩
  · change 0 < sys.sem.val + 1 at free
    unfold Semaphore.Balanced at balanced
    rw [sleepers, List.length_append, List.length_singleton] at balanced
    omega
  · simp only [taken]

/-- What the later rounds grant comes after the first one. -/
theorem Wakes.cons {sem : Semaphore}
    (later : (({ sys with sem := sem }.record .posted).grant tid).Wakes tids after) :
    sys.Wakes (tid :: tids) after := by
  constructor
  · exact later.procs
  · intro other
    rw [later.waits]
    change (if other ∈ tids then (Function.update sys.waits tid _ other).map _
      else Function.update sys.waits tid _ other) = _
    by_cases same : other = tid
    · rw [same, Function.update_self, if_pos List.mem_cons_self]
      change (if tid ∈ tids then ((sys.waits tid).map _).map _ else (sys.waits tid).map _) = _
      split
      · exact Option.map_map _ _ _
      · rfl
    · rw [Function.update_of_ne same]
      simp [same]
  · rw [later.history]
    simp [grant, record]

theorem postAllLoop_wakes (tids : List Tid) :
    ∀ (sys : SemSystem) (rounds : Nat) (ret : Int), sys.sem.Balanced → sys.sem.InInt →
      sys.sem.val ≠ intMax → sys.sem.sleeplist = tids.reverse → tids.length < rounds →
      ∃ after, postAllLoop rounds ret sys = .ok (intWrap (ret + 1 + tids.length), after) ∧
        after.sem = { val := max sys.sem.val 0, sleeplist := [] } ∧ sys.Wakes tids after := by
  induction tids with
  | nil =>
      intro sys rounds ret balanced word below listed enough
      obtain ⟨rounds, rfl⟩ : ∃ rest, rounds = rest + 1 := ⟨rounds - 1, by simp at enough; omega⟩
      obtain ⟨after, ended, sem, wakes⟩ := postAllLoop_free balanced word below listed rounds ret
      refine ⟨after, ?_, sem, wakes⟩
      rw [ended, List.length_nil, Int.natCast_zero, Int.add_zero]
  | cons tid tids ih =>
      intro sys rounds ret balanced word below listed enough
      obtain ⟨rounds, rfl⟩ : ∃ rest, rounds = rest + 1 := ⟨rounds - 1, by simp at enough; omega⟩
      rw [List.reverse_cons] at listed
      have value : sys.sem.val = -((tids.length : Int) + 1) := by
        unfold Semaphore.Balanced at balanced
        rw [listed, List.length_append, List.length_reverse, List.length_singleton] at balanced
        omega
      have remaining : ({ val := sys.sem.val + 1, sleeplist := tids.reverse } :
          Semaphore).Balanced := by
        simp only [Semaphore.Balanced, List.length_reverse]
        omega
      have low := word.1
      have negative : sys.sem.val + 1 ≤ 0 := by omega
      have later : ({ val := sys.sem.val + 1, sleeplist := tids.reverse } : Semaphore).InInt :=
        ⟨Int.le_trans low (Int.le_add_of_nonneg_right Int.one_nonneg),
          Int.le_trans negative (by decide)⟩
      have smaller : sys.sem.val + 1 ≠ intMax := by
        intro full
        rw [full] at negative
        exact absurd negative (by decide)
      obtain ⟨after, ended, sem, wakes⟩ := ih
        (({ sys with sem := { val := sys.sem.val + 1, sleeplist := tids.reverse } }.record
          .posted).grant tid)
        rounds (intWrap (ret + 1)) remaining later smaller rfl (by simp at enough; omega)
      refine ⟨after, ?_, ?_, wakes.cons⟩
      · rw [postAllLoop_sleeping balanced word below listed, ended, List.length_cons,
          Int.add_assoc, intWrap_add]
        congr 3
        omega
      · rw [sem]
        change ({ val := max (sys.sem.val + 1) 0, sleeplist := [] } : Semaphore) = _
        congr 1
        omega

theorem Wakes.state_other (wakes : sys.Wakes tids after) (off : tid ∉ tids) :
    after.procs.state tid = sys.procs.state tid := by
  rw [wakes.procs]
  have folded : ∀ (tids : List Tid) (procs : Procs), tid ∉ tids →
      (tids.foldl (fun procs tid => procs.activate tid false) procs).state tid =
        procs.state tid := by
    intro tids
    induction tids with
    | nil =>
        intro procs _
        rfl
    | cons head tids ih =>
        intro procs off
        rw [List.mem_cons, not_or] at off
        rw [List.foldl_cons, ih _ off.2, Procs.activate_other off.1]
  exact folded tids sys.procs off

/-- Every sleeper is woken, and the number of them comes back as far as an `int` holds it. -/
theorem postAll_eq (balanced : sys.sem.Balanced) (word : sys.sem.InInt)
    (below : sys.sem.val ≠ intMax) :
    ∃ after, sys.postAll = .ok (intWrap sys.sem.sleeplist.length, after) ∧
      after.sem = { val := max sys.sem.val 0, sleeplist := [] } ∧
      sys.Wakes sys.sem.sleeplist.reverse after := by
  obtain ⟨after, ended, sem, wakes⟩ := SemSystem.postAllLoop_wakes sys.sem.sleeplist.reverse sys
    (sys.sem.sleeplist.length + 1) (-1) balanced word below (List.reverse_reverse _).symm
    (by rw [List.length_reverse]; omega)
  refine ⟨after, ?_, sem, wakes⟩
  unfold SemSystem.postAll
  rw [ended, List.length_reverse]
  congr 3
  omega

/-- What `post_all_sem` is for: it returns the number of sleepers, all of them are granted a permit
in the order in which they went to sleep, and nobody else is. -/
structure WakesEverybody (sys after : SemSystem) : Prop where
  went : sys.postAll = .ok ((sys.sem.sleeplist.length : Int), after)
  sem : after.sem = { val := max sys.sem.val 0, sleeplist := [] }
  wakes : sys.Wakes sys.sem.sleeplist.reverse after
  others : ∀ tid, tid ∉ sys.sem.sleeplist →
    after.procs.state tid = sys.procs.state tid ∧ after.waits tid = sys.waits tid

theorem WakesEverybody.of_inside (balanced : sys.sem.Balanced) (word : sys.sem.InInt)
    (below : sys.sem.val ≠ intMax) (above : sys.sem.val ≠ intMin) :
    ∃ after, sys.WakesEverybody after := by
  obtain ⟨after, ended, sem, wakes⟩ := postAll_eq balanced word below
  have count : intWrap sys.sem.sleeplist.length = sys.sem.sleeplist.length := by
    obtain ⟨low, high⟩ := word
    unfold Semaphore.Balanced at balanced
    unfold intMin at low above
    exact intWrap_inside (Int.le_trans (by decide) (Int.natCast_nonneg _))
      (by unfold intMax; omega)
  rw [count] at ended
  refine ⟨after, ended, sem, wakes, ?_⟩
  intro tid off
  have away : tid ∉ sys.sem.sleeplist.reverse := by
    rwa [List.mem_reverse]
  refine ⟨wakes.state_other away, ?_⟩
  rw [wakes.waits, if_neg away]

/-- With no room for a permit more the assertion of the first post fails. -/
theorem postAll_full (balanced : sys.sem.Balanced) (full : sys.sem.val = intMax) :
    sys.postAll = .error .assertion := by
  have empty : sys.sem.sleeplist = [] := by
    unfold Semaphore.Balanced at balanced
    rw [full] at balanced
    exact List.length_eq_zero_iff.mp (Int.natCast_inj.mp (balanced.trans (by decide)))
  unfold postAll postAllLoop post
  rw [postInt_full full empty]

/-- With as many sleepers as an `int` cannot count, a negative number comes back. -/
theorem postAll_least (balanced : sys.sem.Balanced) (least : sys.sem.val = intMin) :
    ∃ after, sys.postAll = .ok (intMin, after) := by
  have word : sys.sem.InInt := by
    rw [Semaphore.InInt, least]
    decide
  have below : sys.sem.val ≠ intMax := by
    rw [least]
    decide
  have count : intWrap sys.sem.sleeplist.length = intMin := by
    unfold Semaphore.Balanced at balanced
    rw [balanced, least]
    decide
  obtain ⟨after, ended, -⟩ := postAll_eq balanced word below
  rw [count] at ended
  exact ⟨after, ended⟩

end SemSystem

/-- `post_all_sem` wakes everybody and nobody else exactly when `val` is at no end of `int`. -/
theorem postAll_wakes_iff {sys : SemSystem} (balanced : sys.sem.Balanced)
    (word : sys.sem.InInt) :
    (∃ after, sys.WakesEverybody after) ↔ sys.sem.val ≠ intMax ∧ sys.sem.val ≠ intMin := by
  constructor
  · rintro ⟨after, woken⟩
    constructor
    · intro full
      have went := woken.went
      rw [SemSystem.postAll_full balanced full] at went
      cases went
    · intro least
      obtain ⟨other, ended⟩ := SemSystem.postAll_least balanced least
      have count := congrArg (Except.map Prod.fst) (ended.symm.trans woken.went)
      have negative : intMin = (sys.sem.sleeplist.length : Int) := Except.ok.inj count
      have nonneg := Int.natCast_nonneg sys.sem.sleeplist.length
      rw [← negative] at nonneg
      exact absurd nonneg (by decide)
  · rintro ⟨below, above⟩
    exact SemSystem.WakesEverybody.of_inside balanced word below above

/-- Two deep sleepers and an alertable one, which are woken in the order they went to sleep. -/
theorem postAll_wakes_three :
    (⟨-3, [3, 2, 1]⟩ : Semaphore).Balanced ∧
    ∃ after, SemSystem.postAll
        { procs := { state := fun _ => .sleeping, killed := fun _ => false }
          sem := ⟨-3, [3, 2, 1]⟩
          waits := fun tid => some { alertable := tid = 2, up := false }
          history := [] } = .ok (3, after) ∧
      after.history = [.posted, .granted 1, .posted, .granted 2, .posted, .granted 3, .posted,
        .got 1] ∧
      after.sem = ⟨0, []⟩ ∧ after.procs.state 4 = .sleeping := by
  have balanced : (⟨-3, [3, 2, 1]⟩ : Semaphore).Balanced := by
    simp [Semaphore.Balanced]
  refine ⟨balanced, ?_⟩
  obtain ⟨after, woken⟩ := (@postAll_wakes_iff
    { procs := { state := fun _ => .sleeping, killed := fun _ => false }
      sem := ⟨-3, [3, 2, 1]⟩
      waits := fun tid => some { alertable := tid = 2, up := false }
      history := [] } balanced (by unfold Semaphore.InInt; decide)).mpr ⟨by decide, by decide⟩
  exact ⟨after, woken.went, woken.wakes.history, woken.sem, (woken.others 4 (by decide)).1⟩

/-- No sleeper, and as many permits as an `int` can count. -/
theorem postAll_full_fails :
    (⟨intMax, []⟩ : Semaphore).Balanced ∧
    ¬∃ after, SemSystem.WakesEverybody
        { procs := { state := fun _ => .running, killed := fun _ => false }
          sem := ⟨intMax, []⟩
          waits := fun _ => none
          history := [] } after := by
  have balanced : (⟨intMax, []⟩ : Semaphore).Balanced := by
    unfold Semaphore.Balanced
    decide
  refine ⟨balanced, ?_⟩
  rintro ⟨after, woken⟩
  have went := woken.went
  rw [SemSystem.postAll_full balanced rfl] at went
  cases went

end LabKernel.Kernel
