/-
When a sync may panic.

A sync looks at the log before it looks for the number. A number that is already listed takes no
slot, but it is refused when the log is full to the last slot. In all other states the guards are
those of the budget of the operation.
-/

import LabKernel.Fs.Checkpoint
import LabKernel.Fs.Reservation

set_option autoImplicit false

namespace LabKernel.Fs

open Common Transition

/-- What is promised of `cache_sync` under an operation: it stops only when the number is new and
the budget is spent, a listed number changes nothing, and a new one takes a slot that is paid for. -/
structure SyncContract (state : OpState) (ctx : CtxId) (number : BlockNo) : Prop where
  stops : ∀ reason, cacheSync state.log state.header (state.rm ctx) number = .error reason →
    ¬state.header.Lists number ∧ state.rm ctx = 0
  listed : state.header.Lists number →
    cacheSync state.log state.header (state.rm ctx) number =
      .ok { log := state.log, header := state.header, rm := state.rm ctx, added := false }
  fresh : ¬state.header.Lists number → 0 < state.rm ctx →
    cacheSync state.log state.header (state.rm ctx) number =
      .ok { log := { state.log with mu := state.log.mu - 1 }, header := state.header.push number
            rm := state.rm ctx - 1, added := true }

variable {sblock : SuperBlock} {blockNo : Fin logMaxSize → BlockNo} {state : OpState}

/-- The log is full and the number is one of those listed. -/
def OpState.Crowded (state : OpState) (number : BlockNo) : Prop :=
  state.header.Lists number ∧ state.log.mx ≤ state.header.numBlocks

theorem Budget.slot (budget : Budget sblock state) {ctx : CtxId} (member : ctx ∈ state.opened)
    (paid : 0 < state.rm ctx) : state.header.numBlocks < state.log.mx := by
  have fits := budget.fits
  have within : state.rm ctx + ((state.opened.erase ctx).map state.rm).sum = state.reserved :=
    List.sum_map_erase state.rm member
  rw [budget.capacity]
  omega

theorem cacheSync_error {log : LogVars} {header : LogHeader} {rm : Nat} {number : BlockNo}
    {reason : Stop} (stopped : cacheSync log header rm number = .error reason)
    (room : header.numBlocks < log.mx) (others : 1 ≤ log.outstanding)
    (inside : header.search number < logMaxSize) : ¬header.Lists number ∧ rm = 0 := by
  unfold cacheSync at stopped
  rw [if_neg (Nat.not_le.mpr room), if_neg (by omega)] at stopped
  simp only [dif_pos inside] at stopped
  by_cases last : header.search number = header.numBlocks
  · rw [if_pos last] at stopped
    by_cases paid : 0 < rm
    · rw [if_pos paid] at stopped
      cases stopped
    · exact ⟨LogHeader.not_lists_of_search last, Nat.eq_zero_of_not_pos paid⟩
  · rw [if_neg last] at stopped
    cases stopped

/-- In every reachable state and for every operation that is running, a sync keeps its promise
exactly when its number is not a listed one in a log that is full to the last slot. -/
theorem sync_contract_iff (reached : Reachable opStep (OpState.initial sblock blockNo) state)
    {ctx : CtxId} (running : state.phase ctx = .running) (number : BlockNo) :
    SyncContract state ctx number ↔ ¬state.Crowded number := by
  obtain ⟨tracked, budget⟩ := Budget.reachable reached
  obtain ⟨_, grouping, _⟩ := checkpoint_reachable reached
  have member : ctx ∈ state.opened := (tracked.running ctx).mpr running
  have others : 1 ≤ state.log.outstanding := by
    have filled : 0 < state.opened.length := List.length_pos_of_mem member
    rw [grouping.outstanding]
    omega
  constructor
  · rintro contract ⟨lists, full⟩
    have done := contract.listed lists
    exact absurd (cacheSync_ok done).2.1 (Nat.not_lt.mpr full)
  · intro quiet
    constructor
    · intro reason stopped
      by_cases full : state.log.mx ≤ state.header.numBlocks
      · have new : ¬state.header.Lists number := fun lists => quiet ⟨lists, full⟩
        refine ⟨new, ?_⟩
        by_contra paid
        have slot := budget.slot member (Nat.pos_of_ne_zero paid)
        omega
      · have room : state.header.numBlocks < state.log.mx := Nat.lt_of_not_le full
        exact cacheSync_error stopped room others (budget.search_lt room number)
    · intro lists
      have room : state.header.numBlocks < state.log.mx :=
        Nat.lt_of_not_le (fun full => quiet ⟨lists, full⟩)
      cases returned : cacheSync state.log state.header (state.rm ctx) number with
      | error reason =>
          exact absurd lists
            (cacheSync_error returned room others (budget.search_lt room number)).1
      | ok synced =>
          obtain ⟨_, _, ⟨_, same⟩ | ⟨new, _⟩⟩ := cacheSync_ok returned
          · rw [same]
          · exact absurd lists new
    · intro new paid
      have room := budget.slot member paid
      cases returned : cacheSync state.log state.header (state.rm ctx) number with
      | error reason =>
          have spent := (cacheSync_error returned room others (budget.search_lt room number)).2
          omega
      | ok synced =>
          obtain ⟨_, _, ⟨lists, _⟩ | ⟨_, _, _, same⟩⟩ := cacheSync_ok returned
          · exact absurd lists new
          · rw [same]

/-- A log of ten slots, as the tests of the cache set one up. -/
def tenSlots : SuperBlock :=
  { numBlocks := 515
    numLogBlocks := 11
    logStart := 2
    bitmapStart := 14
    headerCounted := by decide
    logFits := by decide }

theorem sync_contract_iff_begun : ∃ state : OpState,
    Reachable opStep (OpState.initial tenSlots (fun _ => 0)) state ∧ state.phase 7 = .running ∧
      ¬state.Crowded 100 ∧ SyncContract state 7 100 := by
  have executed : exec opStep (OpState.initial tenSlots (fun _ => 0))
      [.beginOp 0 7, .beginTry 0] = .ok _ := rfl
  have reached := Reachable.of_exec executed
  refine ⟨_, reached, rfl, ?_, (sync_contract_iff reached rfl 100).mpr ?_⟩
  · exact fun crowded => absurd crowded.2 (Nat.not_le.mpr (Nat.zero_lt_succ 9))
  · exact fun crowded => absurd crowded.2 (Nat.not_le.mpr (Nat.zero_lt_succ 9))

/-- An operation that has synced ten blocks cannot sync the first of them once more. -/
theorem sync_contract_broken : ¬∀ state : OpState,
    Reachable opStep (OpState.initial tenSlots (fun _ => 0)) state → ∀ ctx,
      state.phase ctx = .running → ∀ number, SyncContract state ctx number := by
  intro always
  have executed : exec opStep (OpState.initial tenSlots (fun _ => 0))
      [.beginOp 0 7, .beginTry 0, .sync 0 7 100, .sync 0 7 101, .sync 0 7 102, .sync 0 7 103,
        .sync 0 7 104, .sync 0 7 105, .sync 0 7 106, .sync 0 7 107, .sync 0 7 108,
        .sync 0 7 109] = .ok _ := rfl
  have contract := always _ (Reachable.of_exec executed) 7 rfl 100
  have listed := contract.listed ⟨⟨0, by decide⟩, by decide, rfl⟩
  change Except.error Stop.panicLogFull = _ at listed
  cases listed

end LabKernel.Fs
