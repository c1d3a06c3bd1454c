/-
The message calls with `msg_ids.lock`, each from its entry to its return or its sleep.

A call that fails comes to its return over one of the labels behind its section. Where it has
taken the lock it gives it back there, and a send frees the message it has loaded.
-/

import LabKernel.Ipc.Custody
import LabKernel.Ipc.Identifiers

set_option autoImplicit false

namespace LabKernel.Ipc

open Common Transition

/-- How a call ends: it returns a number, or has given up the CPU. -/
inductive Ended where
  | returned (ret : Int)
  | asleep
  deriving DecidableEq, Repr

structure Locked where
  sys : System
  lock : Bool

namespace Locked

variable (kernel : Locked)

def acquire : Except Stop Locked :=
  if kernel.lock then .error .spins else .ok { kernel with lock := true }

def release : Locked := { kernel with lock := false }

/-- `return`. -/
def ret (proc : Tid) (value : Int) : Ended × Locked :=
  (.returned value, { kernel with sys := kernel.sys.ret proc value })

def sysMsgget (proc : Tid) (key : Int) (msgflg : UInt32) (allocated : Bool) :
    Except Stop (Ended × Locked) :=
  match kernel.acquire with
  | .error reason => .error reason
  | .ok held =>
      let (value, ids) := Ipc.sysMsgget held.sys.ids key msgflg allocated
      .ok (({ held with sys := { held.sys with ids := ids } }.release).ret proc value)

/-- `free_obj` of `sys_msgsnd`. -/
def freeObj (proc : Tid) (letter : Letter) (err : Int) : Ended × Locked :=
  let released := kernel.release
  { released with
    sys := { released.sys with pool := freeMsg letter.toMsg released.sys.pool } }.ret proc err

/-- `sys_msgsnd` from `retry` on. -/
def retry (proc : Tid) (call : SendCall) : Except Stop (Ended × Locked) :=
  match kernel.acquire with
  | .error reason => .error reason
  | .ok held =>
      match getMsgq held.sys.ids call.msgid with
      | .error reason => .error reason
      | .ok none => .ok (held.freeObj proc call.letter eidrm)
      | .ok (some slot) =>
          match held.sys.ids.entries slot with
          | none => .error .outOfBounds
          | some msgq =>
              if msgq.maxMsg < msgq.sumMsg + 1 then
                if call.msgflg &&& ipcNowait ≠ 0 then .ok (held.freeObj proc call.letter eagain)
                else
                  let listed :=
                    held.sys.setEntry slot (some { msgq with qSender := msgq.qSender ++ [proc] })
                  .ok (.asleep,
                    { held with sys := listed.goto proc (.sending call false) }.release)
              else
                match acceptMsg held.sys proc slot msgq call.letter with
                | .error reason => .error reason
                | .ok sys => .ok (.returned 0, { held with sys := sys }.release)

def sysMsgsnd (proc : Tid) (msgid : Int) (msgp : Option MsgBuf) (msgsz : Int) (msgflg : UInt32) :
    Except Stop (Ended × Locked) :=
  match msgp with
  | none => .ok (kernel.ret proc einval)
  | some msgp =>
      if msgsz < 0 ∨ msgp.mtype < 1 then .ok (kernel.ret proc einval)
      else
        match loadMsg kernel.sys.pool msgp.mtype msgp.data msgsz.toNat with
        | (none, pool) =>
            .ok ({ kernel with sys := { kernel.sys with pool := pool } }.ret proc enomem)
        | (some msg, pool) =>
            let call : SendCall :=
              { msgid := msgid, msgflg := msgflg,
                letter := { msg with serial := kernel.sys.calls } }
            let loaded := { kernel.sys with pool := pool, calls := kernel.sys.calls + 1 }
            { kernel with sys := loaded.goto proc (.sending call true) }.retry proc call

/-- `out_lock` of `sys_msgrcv`. -/
def outLock (proc : Tid) (err : Int) : Ended × Locked := kernel.release.ret proc err

/-- `sys_msgrcv`, up to its return or its sleep. -/
def sysMsgrcv (proc : Tid) (msgid : Int) (msgp : Option MsgBuf) (msgsz mtype : Int)
    (msgflg : UInt32) : Except Stop (Ended × Locked) :=
  match msgp with
  | none => .ok (kernel.ret proc einval)
  | some msgp =>
      if msgsz < 0 then .ok (kernel.ret proc einval)
      else
        match kernel.acquire with
        | .error reason => .error reason
        | .ok held =>
            match getMsgq held.sys.ids msgid with
            | .error reason => .error reason
            | .ok none => .ok (held.outLock proc eidrm)
            | .ok (some slot) =>
                match held.sys.ids.entries slot with
                | none => .error .outOfBounds
                | some msgq =>
                    match searchLoop mtype msgq.qMessage none with
                    | some found =>
                        if msgsz.toNat < found.size then .ok (held.outLock proc e2big)
                        else
                          let left :=
                            { msgq with
                              qMessage :=
                                msgq.qMessage.eraseP (fun msg => msg.serial = found.serial)
                              sumMsg := msgq.sumMsg - 1
                              qSender := [] }
                          let woken :=
                            (ssWakeup (held.sys.setEntry slot (some left)) msgq.qSender).record
                              [.handed slot proc mtype found.serial]
                          let released := { held with sys := woken }.release
                          match deliver msgp found.toMsg msgsz.toNat woken.pool with
                          | none => .error .nullSegment
                          | some (value, _, pool) =>
                              .ok (.returned value,
                                { released with
                                  sys :=
                                    ({ woken with pool := pool }.goto proc .running).record
                                      [.received proc mtype found.serial, .returned proc value] })
                    | none =>
                        if msgflg &&& ipcNowait ≠ 0 then .ok (held.outLock proc enomsg)
                        else
                          let rcver : Receiver :=
                            { proc := proc, mtype := mtype, size := msgsz.toNat }
                          let call : ReceiveCall :=
                            { msgid := msgid, msgp := msgp, msgsz := msgsz.toNat, mtype := mtype }
                          let listed := held.sys.setEntry slot
                            (some { msgq with qReceiver := msgq.qReceiver ++ [rcver] })
                          .ok (.asleep,
                            { held with
                              sys := listed.goto proc (.receiving call .unassigned false) }.release)

end Locked

/-! ### The sections below -/

section Sections

variable {kernel after held : Locked} {proc : Tid} {ended : Ended}

theorem Locked.acquire_ok (acquired : kernel.acquire = .ok held) :
    kernel.lock = false ∧ held = { kernel with lock := true } := by
  unfold Locked.acquire at acquired
  split at acquired
  · cases acquired
  · rename_i free
    cases acquired
    exact ⟨Bool.of_not_eq_true free, rfl⟩

theorem Locked.sysMsgget_section {key : Int} {msgflg : UInt32} {allocated : Bool}
    (idle : kernel.sys.proc proc = .running)
    (called : kernel.sysMsgget proc key msgflg allocated = .ok (ended, after)) :
    msgget kernel.sys proc key msgflg allocated = .ok after.sys := by
  unfold Locked.sysMsgget at called
  split at called
  · cases called
  · rename_i acquired
    obtain ⟨-, rfl⟩ := Locked.acquire_ok acquired
    cases called
    unfold msgget
    simp only [idle]
    rfl

theorem Locked.retry_section {call : SendCall} (located : kernel.sys.proc proc = .sending call true)
    (called : kernel.retry proc call = .ok (ended, after)) :
    sendSection kernel.sys proc = .ok after.sys := by
  unfold Locked.retry at called
  unfold sendSection
  simp only [located]
  split at called
  · cases called
  · rename_i acquired
    obtain ⟨-, rfl⟩ := Locked.acquire_ok acquired
    simp only at called
    cases addressed : getMsgq kernel.sys.ids call.msgid with
    | error reason =>
        rw [addressed] at called
        cases called
    | ok found =>
        rw [addressed] at called
        cases found with
        | none =>
            cases called
            rfl
        | some slot =>
            simp only at called ⊢
            cases live : kernel.sys.ids.entries slot with
            | none =>
                rw [live] at called
                cases called
            | some msgq =>
                rw [live] at called
                simp only at called ⊢
                split at called
                · rename_i full
                  rw [if_pos full]
                  split at called
                  · rename_i nowait
                    rw [if_pos nowait]
                    cases called
                    rfl
                  · rename_i waits
                    rw [if_neg waits]
                    cases called
                    rfl
                · rename_i room
                  rw [if_neg room]
                  split at called
                  · cases called
                  · rename_i sys accepted
                    cases called
                    exact accepted

theorem Locked.sysMsgsnd_section {msgid msgsz : Int} {msgp : Option MsgBuf} {msgflg : UInt32}
    (idle : kernel.sys.proc proc = .running)
    (called : kernel.sysMsgsnd proc msgid msgp msgsz msgflg = .ok (ended, after)) :
    msgsnd kernel.sys proc msgid msgp msgsz msgflg = .ok after.sys ∨
      ∃ loaded, msgsnd kernel.sys proc msgid msgp msgsz msgflg = .ok loaded ∧
        sendSection loaded proc = .ok after.sys := by
  unfold Locked.sysMsgsnd at called
  unfold msgsnd
  simp only [idle]
  cases msgp with
  | none =>
      cases called
      exact Or.inl rfl
  | some buffer =>
      simp only at called ⊢
      split at called
      · rename_i invalid
        rw [if_pos invalid]
        cases called
        exact Or.inl rfl
      · rename_i valid
        rw [if_neg valid]
        cases loaded : loadMsg kernel.sys.pool buffer.mtype buffer.data msgsz.toNat with
        | mk msg pool =>
            rw [loaded] at called
            cases msg with
            | none =>
                cases called
                exact Or.inl rfl
            | some msg =>
                exact Or.inr ⟨_, rfl, Locked.retry_section (Function.update_self _ _ _) called⟩

theorem Locked.sysMsgrcv_section {msgid msgsz mtype : Int} {msgp : Option MsgBuf}
    {msgflg : UInt32} (idle : kernel.sys.proc proc = .running)
    (called : kernel.sysMsgrcv proc msgid msgp msgsz mtype msgflg = .ok (ended, after)) :
    msgrcv kernel.sys proc msgid msgp msgsz mtype msgflg = .ok after.sys := by
  unfold Locked.sysMsgrcv at called
  unfold msgrcv
  simp only [idle]
  cases msgp with
  | none =>
      cases called
      rfl
  | some buffer =>
      simp only at called ⊢
      split at called
      · rename_i invalid
        rw [if_pos invalid]
        cases called
        rfl
      · rename_i valid
        rw [if_neg valid]
        split at called
        · cases called
        · rename_i acquired
          obtain ⟨-, rfl⟩ := Locked.acquire_ok acquired
          simp only at called
          cases addressed : getMsgq kernel.sys.ids msgid with
          | error reason =>
              rw [addressed] at called
              cases called
          | ok found =>
              rw [addressed] at called
              cases found with
              | none =>
                  cases called
                  rfl
              | some slot =>
                  simp only at called ⊢
                  cases live : kernel.sys.ids.entries slot with
                  | none =>
                      rw [live] at called
                      cases called
                  | some msgq =>
                      rw [live] at called
                      simp only at called ⊢
                      cases hit : searchLoop mtype msgq.qMessage none with
                      | none =>
                          rw [hit] at called
                          simp only at called ⊢
                          split at called
                          · rename_i nowait
                            rw [if_pos nowait]
                            cases called
                            rfl
                          · rename_i waits
                            rw [if_neg waits]
                            cases called
                            rfl
                      | some found =>
                          rw [hit] at called
                          simp only at called ⊢
                          split at called
                          · rename_i small
                            rw [if_pos small]
                            cases called
                            rfl
                          · rename_i room
                            rw [if_neg room]
                            unfold takeMsg
                            split at called
                            · cases called
                            · rename_i delivered
                              simp only [delivered]
                              cases called
                              rfl

/-- A call is one section or two, so it keeps the lists and the pages. -/
theorem Locked.custody (seated : Seated kernel.sys) (custody : Custody kernel.sys)
    (idle : kernel.sys.proc proc = .running) :
    (∀ key msgflg allocated, kernel.sysMsgget proc key msgflg allocated = .ok (ended, after) →
      Seated after.sys ∧ Custody after.sys) ∧
    (∀ msgid msgp msgsz msgflg, kernel.sysMsgsnd proc msgid msgp msgsz msgflg = .ok (ended, after) →
      Seated after.sys ∧ Custody after.sys) ∧
    (∀ msgid msgp msgsz mtype msgflg,
      kernel.sysMsgrcv proc msgid msgp msgsz mtype msgflg = .ok (ended, after) →
        Seated after.sys ∧ Custody after.sys) := by
  have kept : ∀ {before next : System} (action : Action), Seated before → Custody before →
      ipcStep before action = .ok next → Seated next ∧ Custody next :=
    fun _ seated custody taken =>
      ⟨seated.step (ipcStep_outcome taken), custody.step seated (ipcStep_outcome taken)⟩
  refine ⟨?_, ?_, ?_⟩
  · intro key msgflg allocated called
    exact kept (.msgget proc key msgflg allocated) seated custody
      (Locked.sysMsgget_section idle called)
  · intro msgid msgp msgsz msgflg called
    rcases Locked.sysMsgsnd_section idle called with sent | ⟨loaded, sent, tried⟩
    · exact kept (.msgsnd proc msgid msgp msgsz msgflg) seated custody sent
    · obtain ⟨seated, custody⟩ :=
        kept (.msgsnd proc msgid msgp msgsz msgflg) seated custody sent
      exact kept (.sendSection proc) seated custody tried
  · intro msgid msgp msgsz mtype msgflg called
    exact kept (.msgrcv proc msgid msgp msgsz mtype msgflg) seated custody
      (Locked.sysMsgrcv_section idle called)

end Sections

/-! ### Failing -/

/-- The message holds the pages that were taken from the front of the free list, and each of them
has been freed once. -/
structure Undone (before after : List Page) (msg : Msg) (rest : List Page) : Prop where
  linked : ((msg.page :: msg.segs) ++ rest).map Page.number = before.map Page.number
  freed : after = msg.pages.reverse ++ rest
  once : (msg.pages.map Page.number).Nodup

/-- The call has left the table with its queues, the processes and the set of the free pages
alone, and nobody holds the lock. -/
structure Locked.NoTrace (kernel after : Locked) : Prop where
  ids : after.sys.ids = kernel.sys.ids
  procs : after.sys.proc = kernel.sys.proc
  pages : (after.sys.pool.map Page.number).Perm (kernel.sys.pool.map Page.number)
  lock : after.lock = false

section

variable {kernel after : Locked} {proc : Tid} {err : Int} {before free rest : List Page} {msg : Msg}

theorem Undone.perm (undone : Undone before free msg rest) :
    (free.map Page.number).Perm (before.map Page.number) := by
  rw [undone.freed, ← undone.linked, List.map_append, List.map_append]
  apply List.Perm.append_right
  apply List.Perm.map
  exact (List.reverse_perm _).trans (List.perm_append_singleton _ _)

theorem Undone.of_linked (distinct : (before.map Page.number).Nodup)
    (linked : ((msg.page :: msg.segs) ++ rest).map Page.number = before.map Page.number) :
    Undone before (freeMsg msg rest) msg rest := by
  refine ⟨linked, rfl, ?_⟩
  rw [← linked, List.map_append] at distinct
  have perm : (msg.pages.map Page.number).Perm ((msg.page :: msg.segs).map Page.number) :=
    (List.perm_append_singleton _ _).map _
  rw [perm.nodup_iff]
  exact (List.nodup_append.mp distinct).1

theorem loadMsg_failed {mtype : Int} {src : Bytes} {len : Nat}
    (distinct : (before.map Page.number).Nodup)
    (failed : loadMsg before mtype src len = (none, free)) :
    free = before ∨ ∃ msg rest, Undone before free msg rest := by
  unfold loadMsg at failed
  split at failed
  · cases failed
    exact Or.inl rfl
  · rename_i page pool
    have split := loadLoop_pages src pool (min msgMsgSz (len - min msgMsgSz len))
      (len - min msgMsgSz len)
    simp only at failed
    split at failed
    · cases failed
    · cases failed
      refine Or.inr ⟨_, _, Undone.of_linked distinct ?_⟩
      rw [List.cons_append, List.map_cons, List.map_append, split, List.map_cons]

theorem loadMsg_undone {mtype : Int} {src : Bytes} {len : Nat}
    (distinct : (before.map Page.number).Nodup)
    (loaded : loadMsg before mtype src len = (some msg, free)) :
    Undone before (freeMsg msg free) msg free := by
  unfold loadMsg at loaded
  split at loaded
  · cases loaded
  · rename_i page pool
    have split := loadLoop_pages src pool (min msgMsgSz (len - min msgMsgSz len))
      (len - min msgMsgSz len)
    simp only at loaded
    split at loaded
    · cases loaded
      apply Undone.of_linked distinct
      rw [List.cons_append, List.map_cons, List.map_append, split, List.map_cons]
    · cases loaded

/-- The return of a process that is outside the calls changes nothing. -/
theorem Locked.NoTrace.ret (idle : kernel.sys.proc proc = .running) {pool : List Page}
    (pages : (pool.map Page.number).Perm (kernel.sys.pool.map Page.number)) (value : Int) :
    kernel.NoTrace { sys := { kernel.sys with pool := pool }.ret proc value, lock := false } := by
  constructor
  · rfl
  · change Function.update kernel.sys.proc proc .running = _
    rw [← idle, Function.update_eq_self]
  · exact pages
  · rfl

/-! The calls. -/

theorem sysMsgget_failed {ids : IpcIds} {key : Int} {msgflg : UInt32} {allocated : Bool}
    (failed : (sysMsgget ids key msgflg allocated).1 < 0) :
    (sysMsgget ids key msgflg allocated).2 = ids := by
  rcases sysMsgget_cases ids key msgflg allocated with same | ⟨slot, -, value, -⟩
  · exact same
  · rw [value] at failed
    have nonneg := ipcBuildin_nonneg slot ids.seq
    omega

theorem Locked.sysMsgget_noTrace (idle : kernel.sys.proc proc = .running) (failed : err < 0)
    {key : Int} {msgflg : UInt32} {allocated : Bool}
    (called : kernel.sysMsgget proc key msgflg allocated = .ok (.returned err, after)) :
    kernel.NoTrace after ∧ after.sys.pool = kernel.sys.pool := by
  unfold Locked.sysMsgget at called
  split at called
  · cases called
  · rename_i acquired
    obtain ⟨-, rfl⟩ := Locked.acquire_ok acquired
    cases called
    have same := sysMsgget_failed failed
    refine ⟨?_, rfl⟩
    have trace := Locked.NoTrace.ret idle (List.Perm.refl _)
      (Ipc.sysMsgget kernel.sys.ids key msgflg allocated).1
    constructor
    · exact same
    · exact trace.procs
    · exact List.Perm.refl _
    · rfl

theorem Locked.retry_refused {call : SendCall}
    (failed : err < 0) (called : kernel.retry proc call = .ok (.returned err, after)) :
    after = { sys := refuse kernel.sys proc call.letter err, lock := false } := by
  unfold Locked.retry at called
  split at called
  · cases called
  · rename_i acquired
    obtain ⟨-, rfl⟩ := Locked.acquire_ok acquired
    split at called
    · cases called
    · cases called
      rfl
    · split at called
      · cases called
      · split at called
        · split at called
          · cases called
            rfl
          · cases called
        · split at called
          · cases called
          · cases called
            cases failed

theorem Locked.sysMsgsnd_noTrace (distinct : (kernel.sys.pool.map Page.number).Nodup)
    (idle : kernel.sys.proc proc = .running) (free : kernel.lock = false) (failed : err < 0)
    {msgid msgsz : Int} {msgp : Option MsgBuf} {msgflg : UInt32}
    (called : kernel.sysMsgsnd proc msgid msgp msgsz msgflg = .ok (.returned err, after)) :
    kernel.NoTrace after ∧ (after.sys.pool = kernel.sys.pool ∨
      ∃ msg rest, Undone kernel.sys.pool after.sys.pool msg rest) := by
  have unchanged : kernel.NoTrace (kernel.ret proc einval).2 := by
    have trace := Locked.NoTrace.ret idle (List.Perm.refl _) einval
    rw [← free] at trace
    exact trace
  unfold Locked.sysMsgsnd at called
  split at called
  · cases called
    exact ⟨unchanged, Or.inl rfl⟩
  · split at called
    · cases called
      exact ⟨unchanged, Or.inl rfl⟩
    · split at called
      · rename_i pool loaded
        cases called
        have undone := loadMsg_failed distinct loaded
        have pages : (pool.map Page.number).Perm (kernel.sys.pool.map Page.number) := by
          rcases undone with same | ⟨msg, rest, undone⟩
          · rw [same]
          · exact undone.perm
        have trace := Locked.NoTrace.ret idle pages enomem
        rw [← free] at trace
        exact ⟨trace, undone⟩
      · rename_i msg pool loaded
        have undone := loadMsg_undone distinct loaded
        rw [Locked.retry_refused failed called]
        refine ⟨?_, Or.inr ⟨msg, pool, undone⟩⟩
        constructor
        · rfl
        · change Function.update (Function.update kernel.sys.proc proc _) proc .running = _
          rw [Function.update_idem, ← idle, Function.update_eq_self]
        · exact undone.perm
        · rfl

theorem Locked.sysMsgrcv_noTrace (idle : kernel.sys.proc proc = .running)
    (free : kernel.lock = false) (failed : err < 0) {msgid msgsz mtype : Int}
    {msgp : Option MsgBuf} {msgflg : UInt32}
    (called : kernel.sysMsgrcv proc msgid msgp msgsz mtype msgflg = .ok (.returned err, after)) :
    kernel.NoTrace after ∧ after.sys.pool = kernel.sys.pool := by
  have trace : ∀ value, kernel.NoTrace { sys := kernel.sys.ret proc value, lock := false } :=
    fun value => Locked.NoTrace.ret idle (List.Perm.refl _) value
  have unchanged : kernel.NoTrace (kernel.ret proc einval).2 := by
    have ended := trace einval
    rw [← free] at ended
    exact ended
  unfold Locked.sysMsgrcv at called
  split at called
  · cases called
    exact ⟨unchanged, rfl⟩
  · split at called
    · cases called
      exact ⟨unchanged, rfl⟩
    · split at called
      · cases called
      · rename_i acquired
        obtain ⟨-, rfl⟩ := Locked.acquire_ok acquired
        split at called
        · cases called
        · cases called
          exact ⟨trace eidrm, rfl⟩
        · split at called
          · cases called
          · split at called
            · split at called
              · cases called
                exact ⟨trace e2big, rfl⟩
              · simp only at called
                split at called
                · cases called
                · cases called
                  exact absurd failed (Int.not_lt.mpr (Int.natCast_nonneg _))
            · split at called
              · cases called
                exact ⟨trace enomsg, rfl⟩
              · cases called

theorem Custody.pool_nodup {state : System} (custody : Custody state) :
    (state.pool.map Page.number).Nodup := by
  have once := custody.exclusive.once .free
  apply List.Nodup.of_map Token.page
  rw [List.map_map]
  exact once

end

/-- A message call that fails without sleeping leaves no trace, in every state in which no page is
in two places. -/
theorem failed_calls_leave_no_trace {kernel after : Locked} (custody : Custody kernel.sys)
    (free : kernel.lock = false) {proc : Tid} (idle : kernel.sys.proc proc = .running) {err : Int}
    (failed : err < 0) :
    (∀ key msgflg allocated,
      kernel.sysMsgget proc key msgflg allocated = .ok (.returned err, after) →
        kernel.NoTrace after ∧ after.sys.pool = kernel.sys.pool) ∧
    (∀ msgid msgp msgsz msgflg,
      kernel.sysMsgsnd proc msgid msgp msgsz msgflg = .ok (.returned err, after) →
        kernel.NoTrace after ∧ (after.sys.pool = kernel.sys.pool ∨
          ∃ msg rest, Undone kernel.sys.pool after.sys.pool msg rest)) ∧
    (∀ msgid msgp msgsz mtype msgflg,
      kernel.sysMsgrcv proc msgid msgp msgsz mtype msgflg = .ok (.returned err, after) →
        kernel.NoTrace after ∧ after.sys.pool = kernel.sys.pool) := by
  have distinct := custody.pool_nodup
  refine ⟨?_, ?_, ?_⟩
  · intro key msgflg allocated called
    exact Locked.sysMsgget_noTrace idle failed called
  · intro msgid msgp msgsz msgflg called
    exact Locked.sysMsgsnd_noTrace distinct idle free failed called
  · intro msgid msgp msgsz mtype msgflg called
    exact Locked.sysMsgrcv_noTrace idle free failed called

/-- A message of two pages, and one free page, when a queue has been made. -/
theorem failed_calls_leave_no_trace_short :
    ∃ kernel made after : Locked, kernel.sysMsgget 1 5 ipcCreate true = .ok (.returned 0, made) ∧
      made.sys.pool.map Page.number = [7] ∧
      made.sysMsgsnd 1 0 (some { mtype := 1, data := fun _ => 0 }) 5000 0 =
        .ok (.returned enomem, after) ∧
      made.NoTrace after := by
  have distinct : ([{ number := 7, data := fun _ => 0 }].map Page.number).Nodup := by
    decide
  obtain ⟨made, got, ⟨after, called⟩, pool, idle, free⟩ :
      ∃ made, Locked.sysMsgget
          { sys := System.initial [{ number := 7, data := fun _ => 0 }], lock := false } 1 5
          ipcCreate true = .ok (.returned 0, made) ∧
        (∃ after, made.sysMsgsnd 1 0 (some { mtype := 1, data := fun _ => 0 }) 5000 0 =
          .ok (.returned enomem, after)) ∧
        made.sys.pool.map Page.number = [7] ∧ made.sys.proc 1 = .running ∧ made.lock = false :=
    ⟨_, rfl, ⟨_, rfl⟩, rfl, rfl, rfl⟩
  have custody :=
    ((Locked.custody (Seated.initial _) (Custody.initial distinct) rfl).1 _ _ _ got).2
  have noTrace := (failed_calls_leave_no_trace custody free idle (by decide)).2.1 _ _ _ _ called
  exact ⟨_, made, after, got, pool, called, noTrace.1⟩

end LabKernel.Ipc
