/-
Reservation of log space.

Every operation that has begun and not ended holds a reserve of log slots. The
reserves are counted once more in `log.mu`, and together with the slots already
listed they never exceed the capacity of the log.
-/

import LabKernel.Fs.Operation
import Mathlib.Algebra.BigOperators.Group.List.Basic

set_option autoImplicit false

namespace LabKernel.Fs

open Common Transition

/-- The sum of `rm` over the operations begun and not ended. -/
def OpState.reserved (state : OpState) : Nat := (state.opened.map state.rm).sum

structure Budget (sblock : SuperBlock) (state : OpState) : Prop where
  capacity : state.log.mx = sblock.logMx
  counted : state.log.mu = (state.reserved : Int)
  fits : state.header.numBlocks + state.reserved ≤ sblock.logMx
  distinct : state.header.Distinct

private theorem sum_map_update_of_notMem {opened : List CtxId} {ctx : CtxId}
    (absent : ctx ∉ opened) (rm : CtxId → Nat) (value : Nat) :
    (opened.map (Function.update rm ctx value)).sum = (opened.map rm).sum := by
  apply congrArg List.sum
  apply List.map_congr_left
  intro other member
  apply Function.update_of_ne
  intro same
  exact absent (same ▸ member)

private theorem sum_map_update_of_mem {opened : List CtxId} {ctx : CtxId}
    (member : ctx ∈ opened) (unrepeated : opened.Nodup) (rm : CtxId → Nat) (value : Nat) :
    (opened.map (Function.update rm ctx value)).sum + rm ctx = (opened.map rm).sum + value := by
  have absent : ctx ∉ opened.erase ctx := unrepeated.not_mem_erase
  have updated := List.sum_map_erase (Function.update rm ctx value) member
  have before := List.sum_map_erase rm member
  rw [Function.update_self, sum_map_update_of_notMem absent] at updated
  omega

namespace Budget

variable {sblock : SuperBlock} {state after : OpState}

/-- A step that leaves the log variables, the header and the reserves alone. -/
theorem frame (budget : Budget sblock state) (mx : after.log.mx = state.log.mx)
    (mu : after.log.mu = state.log.mu) (header : after.header = state.header)
    (rm : after.rm = state.rm) (opened : after.opened = state.opened) : Budget sblock after := by
  have reserved : after.reserved = state.reserved := by
    unfold OpState.reserved
    rw [rm, opened]
  constructor
  · rw [mx]
    exact budget.capacity
  · rw [mu, reserved]
    exact budget.counted
  · rw [header, reserved]
    exact budget.fits
  · rw [header]
    exact budget.distinct

theorem room (budget : Budget sblock state) (free : state.log.full state.header = false) :
    state.header.numBlocks + state.reserved + opMaxNumBlocks ≤ sblock.logMx := by
  have fits := budget.fits
  have small : sblock.logMx ≤ logMaxSize := Nat.min_le_right _ _
  unfold LogVars.full at free
  rw [decide_eq_false_iff_not, budget.capacity, budget.counted] at free
  unfold opMaxNumBlocks at free ⊢
  change sblock.logMx ≤ 63 at small
  omega

theorem begun (budget : Budget sblock state) {ctx : CtxId} (absent : ctx ∉ state.opened)
    (free : state.log.full state.header = false) (log : after.log = state.log.beginOp)
    (header : after.header = state.header)
    (rm : after.rm = Function.update state.rm ctx opMaxNumBlocks)
    (opened : after.opened = ctx :: state.opened) : Budget sblock after := by
  have reserved : after.reserved = opMaxNumBlocks + state.reserved := by
    unfold OpState.reserved
    rw [rm, opened, List.map_cons, List.sum_cons, Function.update_self,
      sum_map_update_of_notMem absent]
  have room := budget.room free
  constructor
  · rw [log]
    exact budget.capacity
  · have counted := budget.counted
    rw [log, reserved]
    change state.log.mu + (opMaxNumBlocks : Int) = _
    omega
  · rw [header, reserved]
    omega
  · rw [header]
    exact budget.distinct

theorem synced (budget : Budget sblock state) {ctx : CtxId} (member : ctx ∈ state.opened)
    (unrepeated : state.opened.Nodup) {blockNo : BlockNo} {synced : Synced}
    (returned : cacheSync state.log state.header (state.rm ctx) blockNo = .ok synced)
    (log : after.log = synced.log) (header : after.header = synced.header)
    (rm : after.rm = Function.update state.rm ctx synced.rm)
    (opened : after.opened = state.opened) : Budget sblock after := by
  have moved : after.reserved + state.rm ctx = state.reserved + synced.rm := by
    unfold OpState.reserved
    rw [rm, opened]
    exact sum_map_update_of_mem member unrepeated state.rm synced.rm
  obtain ⟨_, _, ⟨_, rfl⟩ | ⟨fresh, _, paid, rfl⟩⟩ := cacheSync_ok returned
  · refine budget.frame (congrArg LogVars.mx log) (congrArg LogVars.mu log) header ?_ opened
    rw [rm, Function.update_eq_self]
  · have counted := budget.counted
    have fits := budget.fits
    constructor
    · rw [log]
      exact budget.capacity
    · rw [log]
      change state.log.mu - 1 = _
      simp only at moved
      omega
    · rw [header]
      change state.header.numBlocks + 1 + _ ≤ _
      simp only at moved
      omega
    · rw [header]
      exact budget.distinct.push fresh

theorem ended (budget : Budget sblock state) {ctx : CtxId} (member : ctx ∈ state.opened)
    (mx : after.log.mx = state.log.mx) (mu : after.log.mu = state.log.mu - state.rm ctx)
    (header : after.header = state.header) (rm : after.rm = state.rm)
    (opened : after.opened = state.opened.erase ctx) : Budget sblock after := by
  have given : state.rm ctx + after.reserved = state.reserved := by
    unfold OpState.reserved
    rw [rm, opened]
    exact List.sum_map_erase state.rm member
  have counted := budget.counted
  have fits := budget.fits
  constructor
  · rw [mx]
    exact budget.capacity
  · rw [mu]
    omega
  · rw [header]
    omega
  · rw [header]
    exact budget.distinct

/-- The commit empties the header and leaves the reserves of nobody behind it. -/
theorem cleared (budget : Budget sblock state) (log : after.log = state.log)
    (header : after.header = { state.header with numBlocks := 0 }) (rm : after.rm = state.rm)
    (opened : after.opened = state.opened) : Budget sblock after := by
  have reserved : after.reserved = state.reserved := by
    unfold OpState.reserved
    rw [rm, opened]
  constructor
  · rw [log]
    exact budget.capacity
  · rw [log, reserved]
    exact budget.counted
  · have fits := budget.fits
    rw [header, reserved]
    change 0 + state.reserved ≤ _
    omega
  · rw [header]
    intro left right within
    exact absurd within (Nat.not_lt_zero _)

theorem initial (sblock : SuperBlock) (blockNo : Fin logMaxSize → BlockNo) :
    Budget sblock (OpState.initial sblock blockNo) := by
  constructor
  · rfl
  · rfl
  · exact Nat.zero_le _
  · intro left right within
    exact absurd within (Nat.not_lt_zero _)

theorem step (budget : Budget sblock state) (tracked : Tracked state) {action : OpAction}
    (taken : opStep state action = .ok after) : Budget sblock after := by
  cases action with
  | beginOp thread ctx =>
      obtain ⟨_, _, rfl⟩ := OpState.beginOp_ok taken
      exact budget.frame rfl rfl rfl rfl rfl
  | beginTry thread =>
      obtain ⟨ctx, located, ⟨_, rfl⟩ | ⟨_, free, rfl⟩⟩ := OpState.beginTry_ok taken
      · exact budget.frame rfl rfl rfl rfl rfl
      · have starting := tracked.control.phased thread ctx (congrArg Pc.ctx? located)
        have absent : ctx ∉ state.opened := by
          rw [tracked.running, starting, located]
          intro impossible
          cases impossible
        exact budget.begun absent free rfl rfl rfl rfl
  | beginSleep thread =>
      obtain ⟨_, _, rfl⟩ := OpState.beginSleep_ok taken
      exact budget.frame rfl rfl rfl rfl rfl
  | beginWake thread =>
      obtain ⟨_, _, _, rfl⟩ := OpState.beginWake_ok taken
      exact budget.frame rfl rfl rfl rfl rfl
  | sync thread ctx blockNo =>
      obtain ⟨_, running, synced, returned, rfl⟩ := OpState.sync_ok taken
      exact budget.synced ((tracked.running ctx).mpr running) tracked.unrepeated returned rfl rfl
        rfl rfl
  | endOp thread ctx =>
      obtain ⟨_, running, _, ⟨_, rfl⟩ | ⟨_, _, _, _, _, _, rfl⟩⟩ := OpState.endOp_ok taken
      · exact budget.ended ((tracked.running ctx).mpr running) rfl rfl rfl rfl rfl
      · exact budget.ended ((tracked.running ctx).mpr running) rfl rfl rfl rfl rfl
  | endSleep thread =>
      obtain ⟨_, _, ⟨_, rfl⟩ | ⟨_, rfl⟩⟩ := OpState.endSleep_ok taken
      · exact budget.frame rfl rfl rfl rfl rfl
      · exact budget.frame rfl rfl rfl rfl rfl
  | endWake thread =>
      obtain ⟨_, _, _, rfl⟩ := OpState.endWake_ok taken
      exact budget.frame rfl rfl rfl rfl rfl
  | commitReturn thread =>
      obtain ⟨_, _, rfl⟩ := OpState.commitReturn_ok taken
      exact budget.cleared rfl rfl rfl rfl
  | commitDone thread =>
      obtain ⟨_, _, _, _, _, _, _, _, _, _, _, _, rfl⟩ := OpState.commitDone_ok taken
      exact budget.frame rfl rfl rfl rfl rfl

theorem reachable {blockNo : Fin logMaxSize → BlockNo}
    (reached : Reachable opStep (OpState.initial sblock blockNo) state) :
    Tracked state ∧ Budget sblock state := by
  apply reached.invariant (P := fun state => Tracked state ∧ Budget sblock state)
  · exact ⟨Tracked.initial sblock blockNo, initial sblock blockNo⟩
  · intro state action after holds taken
    exact ⟨holds.1.step taken, holds.2.step holds.1 taken⟩

end Budget

namespace Budget

variable {sblock : SuperBlock} {state : OpState}

/-- Once the guard against a full log has let a sync through, the index it writes is inside
the header. -/
theorem search_lt (budget : Budget sblock state) (notFull : state.header.numBlocks < state.log.mx)
    (blockNo : BlockNo) : state.header.search blockNo < logMaxSize := by
  have small : sblock.logMx ≤ logMaxSize := Nat.min_le_right _ _
  have bound := state.header.search_le blockNo
  have capacity := budget.capacity
  omega

theorem sync_inside (budget : Budget sblock state) (rm : Nat) (blockNo : BlockNo) :
    cacheSync state.log state.header rm blockNo ≠ .error .outOfBounds := by
  intro stopped
  unfold cacheSync at stopped
  split at stopped
  · cases stopped
  · rename_i notFull
    have within := budget.search_lt (Nat.lt_of_not_le notFull) blockNo
    split at stopped
    · cases stopped
    · simp only [dif_pos within] at stopped
      split at stopped
      · split at stopped <;> cases stopped
      · cases stopped

end Budget

/-- In every reachable state the reserves are exactly accounted for, the log has room for
everything listed and reserved, and no number is listed twice. So a sync never writes
behind the header, and the log blocks of a commit are blocks of the log area. -/
theorem log_space_reserved (sblock : SuperBlock) (blockNo : Fin logMaxSize → BlockNo)
    (state : OpState) (reached : Reachable opStep (OpState.initial sblock blockNo) state) :
    state.log.mu = ((state.opened.map state.rm).sum : Nat) ∧
      state.opened.Nodup ∧ (∀ ctx, ctx ∈ state.opened ↔ state.phase ctx = .running) ∧
      0 ≤ state.log.mu ∧
      (state.header.numBlocks : Int) + state.log.mu ≤ state.log.mx ∧
      state.log.mx ≤ min (sblock.numLogBlocks.toNat - 1) logMaxSize ∧
      state.header.Distinct ∧
      (∀ thread ctx number, opStep state (.sync thread ctx number) ≠ .error .outOfBounds) ∧
      (∀ thread ctx number after, opStep state (.sync thread ctx number) = .ok after →
        state.header.search number < logMaxSize) ∧
      ∀ tail, tail < state.header.numBlocks → sblock.InLog (sblock.logBlock tail) := by
  obtain ⟨tracked, budget⟩ := Budget.reachable reached
  have counted := budget.counted
  have fits := budget.fits
  have capacity := budget.capacity
  refine ⟨counted, tracked.unrepeated, tracked.running, by omega, by omega, ?_, budget.distinct,
    ?_, ?_, ?_⟩
  · rw [capacity]
    exact sblock.logMx_le
  · intro thread ctx number stopped
    change state.sync thread ctx number = _ at stopped
    unfold OpState.sync at stopped
    split at stopped
    · split at stopped
      · rename_i reason returned
        cases stopped
        exact budget.sync_inside _ _ returned
      · cases stopped
    · cases stopped
  · intro thread ctx number after taken
    obtain ⟨_, _, synced, returned, _⟩ := OpState.sync_ok taken
    exact budget.search_lt (cacheSync_ok returned).2.1 number
  · intro tail within
    exact SuperBlock.logBlock_inLog (by omega)

/-- One operation has listed block 70 and keeps nine slots in reserve. -/
theorem log_space_reserved_one_op : ∃ state : OpState,
    Reachable opStep (OpState.initial mkfsSuperBlock (fun _ => 0)) state ∧
      state.header.numBlocks = 1 ∧ state.opened = [7] ∧
      state.log.mu = ((state.opened.map state.rm).sum : Nat) := by
  have executed : exec opStep (OpState.initial mkfsSuperBlock (fun _ => 0))
      [.beginOp 0 7, .beginTry 0, .sync 0 7 70] = .ok _ := rfl
  have reached := Reachable.of_exec executed
  exact ⟨_, reached, rfl, rfl, (log_space_reserved mkfsSuperBlock (fun _ => 0) _ reached).1⟩

end LabKernel.Fs
