/-
`sd_read` and `sd_write`: the block device over the request queue.

Their buffers are on the stacks of their callers. Whatever was there before, a read asks for the
block and a write stores the data, and together they are a device that does one transfer at a
time.
-/

import LabKernel.Driver.SdSerial

set_option autoImplicit false

namespace LabKernel.Driver

open Common Rings Transition Serial SdSystem

/-- The buffer that `sd_read` passes to `sdrw`, on a stack with anything on it. -/
def sdReadBuf (blockNo : UInt64) (stack : Buf) : Buf :=
  { stack with
    blockno := blockNo.toUInt32
    flags := 0 }

/-- The buffer that `sd_write` passes to `sdrw`. -/
def sdWriteBuf (blockNo : UInt64) (buffer : Sector) (stack : Buf) : Buf :=
  { stack with
    blockno := blockNo.toUInt32
    flags := bDirty ||| bValid
    data := buffer }

theorem sdReadBuf_transfer (blockNo : UInt64) (stack : Buf) : (sdReadBuf blockNo stack).transfer =
    { write := false, blockno := blockNo.toUInt32, data := stack.data } := by
  have kind : (sdReadBuf blockNo stack).isWrite = false :=
    (by decide : decide ((0 : UInt32) &&& bDirty ≠ 0) = false)
  unfold Buf.transfer
  rw [kind]
  rfl

theorem sdWriteBuf_transfer (blockNo : UInt64) (buffer : Sector) (stack : Buf) :
    (sdWriteBuf blockNo buffer stack).transfer =
      { write := true, blockno := blockNo.toUInt32, data := buffer } := by
  have kind : (sdWriteBuf blockNo buffer stack).isWrite = true :=
    (by decide : decide ((bDirty ||| bValid) &&& bDirty ≠ 0) = true)
  unfold Buf.transfer
  rw [kind]
  rfl

/-- The buffer is filled, and `sdrw` is called for it. -/
def sdCall (proc : Tid) (buffer : BufAddr) (buf : Buf) (prev next : Option BufAddr) :
    List DeviceAction :=
  [.fill buffer buf prev next, .sdrw proc buffer]

def sdRead (proc : Tid) (buffer : BufAddr) (blockNo : UInt64) (stack : Buf)
    (prev next : Option BufAddr) : List DeviceAction :=
  sdCall proc buffer (sdReadBuf blockNo stack) prev next

def sdWrite (proc : Tid) (buffer : BufAddr) (blockNo : UInt64) (words : Sector) (stack : Buf)
    (prev next : Option BufAddr) : List DeviceAction :=
  sdCall proc buffer (sdWriteBuf blockNo words stack) prev next

/-- A process may call `sdrw` for a buffer on its stack. -/
def SdDevice.MayCall (dev : SdDevice) (proc : Tid) (buffer : BufAddr) (blockNo : UInt64) : Prop :=
  dev.sys.place proc = .out ∧
    (∀ other call, (dev.sys.place other).call = some call → call.buffer ≠ buffer) ∧
    dev.sys.card.Reaches blockNo.toUInt32

theorem Serialised.called {dev : SdDevice} {start : UInt32 → Sector} {proc : Tid}
    {buffer : BufAddr} {blockNo : UInt64} (serialised : Serialised start dev)
    (may : dev.MayCall proc buffer blockNo) (buf : Buf) (flags : buf.flags ≠ bValid)
    (number : buf.blockno = blockNo.toUInt32) (prev next : Option BufAddr) :
    ∃ after, Run deviceStep deviceGuard dev (sdCall proc buffer buf prev next) after ∧
      after.history = dev.history ++ [.called buf.transfer] := by
  obtain ⟨out, unused, reaches⟩ := may
  have filled := serialised.fill buf prev next unused
  have same : (dev.sys.fill buffer buf prev next).buf buffer = buf := Function.update_self _ _ _
  have fresh : buffer ∉ dev.sys.pending := by
    intro member
    obtain ⟨other, call, running, equal⟩ := serialised.settled.pending_owner member
    exact unused other call running equal
  obtain ⟨sys, queued, -⟩ := filled.settled.sdrw out (by rw [same]; exact flags) fresh
  have first : Run deviceStep deviceGuard dev [.fill buffer buf prev next]
      { dev with sys := dev.sys.fill buffer buf prev next } := Run.start.next unused rfl
  have allowed : deviceGuard { dev with sys := dev.sys.fill buffer buf prev next }
      (.sdrw proc buffer) := by
    refine ⟨⟨?_, fresh⟩, ?_⟩
    · rw [same]
      exact flags
    · rw [same, number]
      exact reaches
  refine ⟨{ dev with sys := sys, history := dev.history ++ [.called buf.transfer] },
    first.next allowed ?_, rfl⟩
  change SdDevice.sdrw _ proc buffer = _
  unfold SdDevice.sdrw
  simp only [queued, same]

/-! ### Reading what was written -/

theorem replay_last {start : UInt32 → Sector} {ops : List Transfer} {write read : Nat}
    {blockno : UInt32} {words : Sector} (later : write < read)
    (wrote : ops[write]? = some { write := true, blockno := blockno, data := words })
    (between : ∀ index transfer, write < index → index < read → ops[index]? = some transfer →
      transfer.write = true → transfer.blockno ≠ blockno) :
    blockStore.replay start (ops.take read) blockno = words := by
  induction read with
  | zero => exact absurd later (Nat.not_lt_zero write)
  | succ read ih =>
      by_cases last : write = read
      · subst last
        rw [Object.replay_take_succ wrote]
        exact Function.update_self _ _ _
      · have before := ih (by omega) (fun index transfer above below =>
          between index transfer above (Nat.lt_succ_of_lt below))
        cases found : ops[read]? with
        | none =>
            have short : ops.length ≤ read := List.getElem?_eq_none_iff.mp found
            rw [List.take_of_length_le short] at before
            rw [List.take_of_length_le (Nat.le_succ_of_le short)]
            exact before
        | some transfer =>
            rw [Object.replay_take_succ found]
            exact (blockStore_apply_other _
              (between read transfer (by omega) (Nat.lt_succ_self read) found)).trans before

/-! ### Whole runs -/

variable {dev after : SdDevice} {start : UInt32 → Sector}

theorem Serialised.step (serialised : Serialised start dev) {action : DeviceAction}
    (allowed : deviceGuard dev action) (taken : deviceStep dev action = .ok after) :
    Serialised start after := by
  cases action with
  | fill buffer buf prev next =>
      cases taken
      exact serialised.fill buf prev next allowed
  | sdrw proc buffer => exact serialised.sdrw allowed taken
  | wait proc =>
      change dev.lift (dev.sys.wait proc) = .ok after at taken
      unfold SdDevice.lift at taken
      split at taken
      · cases taken
      · rename_i sys stepped
        cases taken
        exact serialised.wait stepped
  | recheck proc =>
      obtain ⟨_, _, _, kept⟩ := serialised.recheck taken
      exact kept
  | complete => exact serialised.complete taken
  | sdIntr =>
      change dev.lift dev.sys.sdIntr = .ok after at taken
      unfold SdDevice.lift at taken
      split at taken
      · cases taken
      · rename_i sys stepped
        cases taken
        exact serialised.sdIntr allowed stepped

/-- Every call that has returned, or is about to, has what a device gives it that does the
transfers one at a time in the order of the calls. -/
structure BlockDevice (start : UInt32 → Sector) (dev : SdDevice) : Prop where
  explained : blockStore.Explains start dev.history
  returns : ∀ proc call, dev.sys.place proc = .woken call →
    blockStore.answerAt start dev.transfers call.ticket = some (dev.sys.buf call.buffer).data
  settles : dev.sys.pending = [] → dev.blocks = blockStore.replay start dev.transfers
  reads : ∀ write read result transfer, .returned read result ∈ dev.history →
    dev.transfers[read]? = some transfer → transfer.write = false → write < read →
    ∀ words, dev.transfers[write]? =
        some { write := true, blockno := transfer.blockno, data := words } →
      (∀ index other, write < index → index < read → dev.transfers[index]? = some other →
        other.write = true → other.blockno ≠ transfer.blockno) → result = words
  readable : ∀ proc buffer blockNo stack prev next, dev.MayCall proc buffer blockNo →
    ∃ after, Run deviceStep deviceGuard dev (sdRead proc buffer blockNo stack prev next) after ∧
      after.history = dev.history ++
        [.called { write := false, blockno := blockNo.toUInt32, data := stack.data }]
  writable : ∀ proc buffer blockNo words stack prev next, dev.MayCall proc buffer blockNo →
    ∃ after, Run deviceStep deviceGuard dev
        (sdWrite proc buffer blockNo words stack prev next) after ∧
      after.history = dev.history ++
        [.called { write := true, blockno := blockNo.toUInt32, data := words }]

theorem Serialised.settles (serialised : Serialised start dev) (empty : dev.sys.pending = []) :
    dev.blocks = blockStore.replay start dev.transfers := by
  have quiet := serialised.settled.quiet empty
  have all : dev.sys.completed = dev.sys.requests.length := by
    have counted := serialised.settled.counted
    have none := congrArg List.length empty
    unfold SdSystem.pending at none
    rw [List.length_drop, List.length_nil] at none
    omega
  have ended : dev.ended = dev.transfers.length := by
    unfold SdDevice.ended
    rw [if_pos quiet, serialised.counted]
    exact all
  rw [serialised.blocks, ended, List.take_length]

/-- However calls of `sd_read` and `sd_write` overlap, they make a block device. -/
theorem sd_calls_serialise {buf : BufAddr → Buf} {links : Links BufAddr} {highCapacity : Bool}
    {data : Sector} {actions : List DeviceAction}
    (run : Run deviceStep deviceGuard (SdDevice.initial buf links highCapacity data start) actions
      dev) : BlockDevice start dev := by
  have serialised : Serialised start dev := by
    apply run.invariant (P := Serialised start)
      (Serialised.initial buf links highCapacity data start)
    intro before action later kept allowed taken
    exact kept.step allowed taken
  constructor
  · exact serialised.explained
  · intro proc call here
    have running : (dev.sys.place proc).call = some call := by
      rw [here]
      rfl
    exact serialised.answered proc call running (serialised.settled.recheck here).1
  · exact serialised.settles
  · intro write read result transfer member found kind later words wrote between
    have answer := serialised.explained.answer member
    change blockStore.answerAt start dev.transfers read = some result at answer
    rw [Object.answerAt_eq found] at answer
    have last : blockStore.replay start (dev.transfers.take read) transfer.blockno = words :=
      replay_last later wrote between
    have content : blockStore.answer (blockStore.replay start (dev.transfers.take read)) transfer =
        words := by
      rw [← last]
      exact if_neg (by rw [Bool.not_eq_true]; exact kind)
    exact (Option.some.inj answer).symm.trans content
  · intro proc buffer blockNo stack prev next may
    rw [← sdReadBuf_transfer]
    exact serialised.called may (sdReadBuf blockNo stack)
      (by decide : (0 : UInt32) ≠ bValid) rfl prev next
  · intro proc buffer blockNo words stack prev next may
    rw [← sdWriteBuf_transfer blockNo words stack]
    exact serialised.called may (sdWriteBuf blockNo words stack)
      (by decide : (bDirty ||| bValid) ≠ bValid) rfl prev next

/-- The buffer at 10 is for a write of block 7, and the one at 20 for a read of it. -/
def twoBuffers : SdDevice :=
  SdDevice.initial
    (fun buffer => if buffer = 10 then sdWriteBuf 7 (fun _ => 5) (stackBuf 0)
      else sdReadBuf 7 (stackBuf 0))
    { prev := fun _ => none, next := fun _ => none } false (fun _ => 0) (fun _ _ => 0)

/-- The second call comes while the card writes, and returns first. -/
def writeAndRead : List DeviceAction :=
  [.sdrw 1 10, .sdrw 2 20, .wait 2, .complete, .sdIntr, .complete, .sdIntr, .recheck 2, .wait 1,
    .recheck 1]

/-- `deviceGuard` for these calls, as a check. -/
def deviceAllowed (dev : SdDevice) : DeviceAction → Bool
  | .fill _ _ _ _ => false
  | .sdrw _ buffer => ((dev.sys.buf buffer).flags ≠ bValid ∧ buffer ∉ dev.sys.pending) ∧
      (dev.sys.buf buffer).blockno.toNat < 2 ^ 23
  | .sdIntr => queueEmpty dev.sys.sdque ∨ dev.sys.card.interrupt ≠ 0
  | _ => true

theorem sd_calls_serialise_two :
    ∃ dev, Run deviceStep deviceGuard twoBuffers writeAndRead dev ∧
      BlockDevice (fun _ _ => 0) dev ∧ dev.transfers.length = 2 ∧
      (dev.sys.buf 20).data 3 = 5 := by
  have passed : checkRun deviceStep deviceAllowed
      (fun dev => dev.transfers.length = 2 ∧ (dev.sys.buf 20).data 3 = 5) twoBuffers
      writeAndRead = true := by
    decide +kernel
  obtain ⟨dev, run, checked⟩ := Run.of_checkRun (fun state action allowed =>
    show deviceGuard state action by
    cases action with
    | fill buffer buf prev next => cases allowed
    | sdrw proc buffer =>
        simp only [deviceAllowed, decide_eq_true_eq] at allowed
        exact ⟨allowed.1, Or.inr allowed.2⟩
    | wait proc => trivial
    | recheck proc => trivial
    | complete => trivial
    | sdIntr =>
        intro busy
        simp only [deviceAllowed, decide_eq_true_eq] at allowed
        rcases allowed with empty | raised
        · rw [busy] at empty
          cases empty
        · exact raised) passed
  exact ⟨dev, run, sd_calls_serialise run, of_decide_eq_true checked⟩

end LabKernel.Driver
