/-
The linked waiting lists refine the list-level system.

As long as no process is woken by `kill` in a message call, a run with the rings in memory is a
run of the system whose queues hold their waiting lists themselves, and `kill` changes nothing
in it.
-/

import LabKernel.Ipc.Rows

set_option autoImplicit false

namespace LabKernel.Ipc

open Common Transition Rings

/-! ### Leaving out the lists -/

def MsgQueue.bare (msgq : MsgQueue) : MsgQueue := { msgq with qSender := [], qReceiver := [] }

def MsgQueue.waiting (msgq : MsgQueue) : WaitKind → List Tid
  | .sender => msgq.qSender
  | .receiver => msgq.qReceiver.map Receiver.proc

def IpcIds.bare (ids : IpcIds) : IpcIds :=
  { ids with entries := fun slot => (ids.entries slot).map MsgQueue.bare }

namespace System

variable (state : System)

/-- The system without the lists of its queues. -/
def bare : System := { state with ids := state.ids.bare }

def lists : Lists := fun kind slot =>
  match state.ids.entries slot with
  | none => []
  | some msgq => msgq.waiting kind

variable {state} {after : System} {slot : Fin seqMultiplier} {old new : MsgQueue}

theorem lists_live (live : state.ids.entries slot = some old) (kind : WaitKind) :
    state.lists kind slot = old.waiting kind := by
  unfold lists
  rw [live]

theorem lists_congr (ids : after.ids = state.ids) : after.lists = state.lists := by
  unfold lists
  rw [ids]

theorem lists_replaced (kind : WaitKind) (live : state.ids.entries slot = some old)
    (entries : after.ids.entries = Function.update state.ids.entries slot (some new))
    (rest : ∀ own, own ≠ kind → new.waiting own = old.waiting own) :
    after.lists = state.lists.set kind slot (new.waiting kind) := by
  funext own other
  by_cases here : other = slot
  · subst here
    have now : after.ids.entries other = some new := by
      rw [entries, Function.update_self]
    rw [lists_live now]
    by_cases same : own = kind
    · rw [same, Lists.set_self]
    · rw [Lists.set_other (fun both => same both.1), lists_live live, rest own same]
  · rw [Lists.set_other (fun both => here both.2)]
    unfold lists
    rw [entries, Function.update_of_ne here]

theorem lists_kept (live : state.ids.entries slot = some old)
    (entries : after.ids.entries = Function.update state.ids.entries slot (some new))
    (same : ∀ kind, new.waiting kind = old.waiting kind) : after.lists = state.lists := by
  funext kind other
  by_cases here : other = slot
  · subst here
    have now : after.ids.entries other = some new := by
      rw [entries, Function.update_self]
    rw [lists_live now, lists_live live, same]
  · unfold lists
    rw [entries, Function.update_of_ne here]

theorem live_replaced {entry : Option MsgQueue} (live : state.ids.entries slot = some old)
    (entries : after.ids.entries = Function.update state.ids.entries slot entry) :
    ∀ other, (after.ids.entries other).isSome → (state.ids.entries other).isSome := by
  intro other alive
  by_cases here : other = slot
  · rw [here, live]
    rfl
  · rw [entries, Function.update_of_ne here] at alive
    exact alive

/-- A queue that is created has empty lists, like the free entry it is put into. -/
theorem lists_msgget {proc : Tid} {key : Int} {msgflg : UInt32} {allocated : Bool}
    (outcome : Outcome state (.msgget proc key msgflg allocated) after) :
    after.lists = state.lists := by
  cases outcome with
  | returned proc value pool idle kept => rfl
  | created proc slot idle free =>
      funext kind other
      by_cases here : other = slot
      · subst here
        unfold lists
        rw [free]
        change (match Function.update state.ids.entries other _ other with
          | none => [] | some msgq => msgq.waiting kind) = []
        rw [Function.update_self]
        cases kind with
        | sender => rfl
        | receiver => rfl
      · unfold lists
        change (match Function.update state.ids.entries slot _ other with
          | none => [] | some msgq => msgq.waiting kind) = _
        rw [Function.update_of_ne here]

theorem bare_setEntry (entry : Option MsgQueue) :
    (state.setEntry slot entry).bare = state.bare.setEntry slot (entry.map MsgQueue.bare) := by
  have entries : (fun other => (Function.update state.ids.entries slot entry other).map
      MsgQueue.bare) = Function.update (fun other => (state.ids.entries other).map MsgQueue.bare)
        slot (entry.map MsgQueue.bare) := by
    funext other
    by_cases here : other = slot
    · rw [here, Function.update_self, Function.update_self]
    · rw [Function.update_of_ne here, Function.update_of_ne here]
  unfold setEntry IpcIds.setEntry bare IpcIds.bare
  simp only [entries]

/-- Replacing a queue by one that differs in its lists is not seen without them. -/
theorem bare_relisted (live : state.ids.entries slot = some old) (same : new.bare = old.bare) :
    (state.setEntry slot (some new)).bare = state.bare := by
  have here : (state.ids.entries slot).map MsgQueue.bare = some new.bare := by
    rw [live, same]
    rfl
  rw [bare_setEntry, Option.map_some, ← here]
  unfold setEntry IpcIds.setEntry bare IpcIds.bare
  simp only [Function.update_eq_self]

theorem bare_entry {bareq : MsgQueue} (entry : state.bare.ids.entries slot = some bareq) :
    ∃ msgq, state.ids.entries slot = some msgq ∧ msgq.bare = bareq :=
  Option.map_eq_some_iff.mp entry

theorem bare_ssWakeup (procs : List Tid) :
    (ssWakeup state procs).bare = ssWakeup state.bare procs := by
  unfold ssWakeup
  induction procs generalizing state with
  | nil => rfl
  | cons proc procs ih =>
      rw [List.foldl_cons, List.foldl_cons, ih]
      rfl

end System

theorem getMsgq_bare (ids : IpcIds) (msgid : Int) : getMsgq ids.bare msgid = getMsgq ids msgid := by
  unfold getMsgq
  simp only
  split
  · rfl
  · split
    · rename_i within
      change (match (ids.entries ⟨_, within⟩).map MsgQueue.bare with | none => _ | some que => _) = _
      cases ids.entries ⟨(msgid.tmod seqMultiplier).toNat, within⟩ with
      | none => rfl
      | some que => rfl
    · rfl

namespace IpcIds

variable (ids : IpcIds) (key : Int)

theorem bare_firstSlot {test : Option MsgQueue → Bool}
    (same : ∀ entry : Option MsgQueue, test (entry.map MsgQueue.bare) = test entry) :
    ids.bare.firstSlot test = ids.firstSlot test := by
  unfold firstSlot bare
  simp only [same]

theorem bare_newque (allocated : Bool) : newque ids.bare key allocated =
    ((newque ids key allocated).1, (newque ids key allocated).2.bare) := by
  unfold newque
  rw [bare_firstSlot ids (fun entry => by rw [Option.isNone_map])]
  cases allocated with
  | false => rfl
  | true =>
      simp only [if_true]
      split
      · rfl
      · rename_i slot _
        have entries : ∀ que : MsgQueue, que.bare = que →
            Function.update ids.bare.entries slot (some que) =
              fun other => (Function.update ids.entries slot (some que) other).map MsgQueue.bare := by
          intro que same
          funext other
          by_cases here : other = slot
          · rw [here, Function.update_self, Function.update_self, Option.map_some, same]
          · rw [Function.update_of_ne here, Function.update_of_ne here]
            rfl
        rw [entries _ rfl]
        rfl

theorem bare_sysMsgget (msgflg : UInt32) (allocated : Bool) :
    sysMsgget ids.bare key msgflg allocated =
      ((sysMsgget ids key msgflg allocated).1, (sysMsgget ids key msgflg allocated).2.bare) := by
  have keys : ipcFindkey ids.bare key = ipcFindkey ids key := by
    apply bare_firstSlot
    intro entry
    cases entry with
    | none => rfl
    | some que => rfl
  unfold sysMsgget
  rw [keys, bare_newque]
  split
  · rfl
  · split
    · split
      · rfl
      · rfl
    · rename_i slot _
      split
      · rfl
      · change (match (ids.entries slot).map MsgQueue.bare with | none => _ | some que => _) = _
        cases ids.entries slot with
        | none => rfl
        | some que => rfl

end IpcIds

/-! ### The two walks of `pipeline_send` -/

theorem pipelineLoop_nobody {msg : Msg} {rest : List Receiver}
    (nobody : ∀ rcver ∈ rest, testmsg rcver.mtype msg.mtype = false)
    (passed beyond : List Receiver) :
    pipelineLoop msg (rest.length + 1) [] passed (.listed rest) beyond =
      some { refused := [], taker := none, waiting := passed ++ rest } := by
  induction rest generalizing passed with
  | nil =>
      rw [List.append_nil]
      rfl
  | cons head rest ih =>
      have unwanted := nobody head List.mem_cons_self
      rw [List.length_cons]
      unfold pipelineLoop
      simp only [unwanted, Bool.false_eq_true, if_false]
      rw [ih (fun rcver member => nobody rcver (List.mem_cons_of_mem head member)),
        List.append_assoc, List.singleton_append]

theorem pipelineLoop_taker {msg : Msg} {before behind : List Receiver} {rcver : Receiver}
    (nobody : ∀ other ∈ before, testmsg other.mtype msg.mtype = false)
    (wanted : testmsg rcver.mtype msg.mtype = true) (large : msg.size ≤ rcver.size)
    (passed beyond : List Receiver) :
    pipelineLoop msg ((before ++ rcver :: behind).length + 1) [] passed
      (.listed (before ++ rcver :: behind)) beyond =
        some { refused := [], taker := some rcver, waiting := passed ++ before ++ behind } := by
  induction before generalizing passed with
  | nil =>
      rw [List.nil_append, List.append_nil]
      unfold pipelineLoop
      simp only [wanted, if_true]
      rw [if_neg (Nat.not_lt.mpr large)]
  | cons head before ih =>
      have unwanted := nobody head List.mem_cons_self
      rw [List.cons_append, List.length_cons]
      unfold pipelineLoop
      simp only [unwanted, Bool.false_eq_true, if_false]
      rw [ih (fun other member => nobody other (List.mem_cons_of_mem head member)),
        List.append_assoc passed, List.singleton_append]

theorem pipelineWalk_eq {wired : Wired} {slot : Fin seqMultiplier} {start : WaitNode} {msg : Msg}
    {rounds : Nat} {rest : List Receiver} {taker : Option Receiver}
    (seats : ∀ rcver ∈ rest, wired.sys.SeatedReceiver slot rcver)
    (path : Path wired.links start ((rest.map Receiver.proc).map (.wait .receiver))
      (.head .receiver slot))
    (walked : pipelineWalk wired (.head .receiver slot) msg rounds (wired.links.next start) =
      .ok taker) :
    (taker = none ∧ ∀ rcver ∈ rest, testmsg rcver.mtype msg.mtype = false) ∨
      ∃ before rcver behind, taker = some rcver ∧ rest = before ++ rcver :: behind ∧
        testmsg rcver.mtype msg.mtype = true ∧ msg.size ≤ rcver.size ∧
        ∀ other ∈ before, testmsg other.mtype msg.mtype = false := by
  induction rounds generalizing start rest with
  | zero => cases walked
  | succ rounds ih =>
      cases rest with
      | nil =>
          rw [path.1] at walked
          unfold pipelineWalk at walked
          rw [if_pos rfl] at walked
          cases walked
          exact Or.inl ⟨rfl, fun _ member => nomatch member⟩
      | cons head rest =>
          obtain ⟨call, located, _, mtype, size⟩ := seats head List.mem_cons_self
          rw [path.1.1] at walked
          unfold pipelineWalk at walked
          simp only [reduceCtorEq, if_false, located, ← mtype, ← size] at walked
          cases wanted : testmsg head.mtype msg.mtype with
          | true =>
              simp only [wanted, if_true] at walked
              split at walked
              · cases walked
              · rename_i large
                cases walked
                exact Or.inr ⟨[], head, rest, rfl, rfl, wanted, Nat.le_of_not_lt large,
                  fun _ member => nomatch member⟩
          | false =>
              simp only [wanted, Bool.false_eq_true, if_false] at walked
              rcases ih (fun rcver member => seats rcver (List.mem_cons_of_mem head member)) path.2
                walked with ⟨rfl, nobody⟩ | ⟨before, rcver, behind, rfl, rfl, found, large, nobody⟩
              · exact Or.inl ⟨rfl, List.forall_mem_cons.mpr ⟨wanted, nobody⟩⟩
              · exact Or.inr ⟨head :: before, rcver, behind, rfl, rfl, found, large,
                  List.forall_mem_cons.mpr ⟨wanted, nobody⟩⟩

/-! ### Sections -/

/-- The same processes, and the lists of the queues are in the links. -/
structure Wired.Refines (wired : Wired) (state : System) : Prop where
  sys : wired.sys = state.bare
  listed : wired.Listed state.lists

namespace Wired.Refines

variable {state next : System} {links : Links WaitNode} {killed : Tid → Bool} {rounds : Nat}
  {proc : Tid} {after : Wired}

theorem live_bare {slot : Fin seqMultiplier} :
    Wired.Live ⟨state.bare, links, killed⟩ slot ↔ (state.ids.entries slot).isSome := by
  unfold Live
  change ((state.ids.entries slot).map MsgQueue.bare).isSome = true ↔ _
  rw [Option.isSome_map]

theorem live {slot : Fin seqMultiplier} {msgq : MsgQueue}
    (entry : state.ids.entries slot = some msgq) :
    Wired.Live ⟨state.bare, links, killed⟩ slot := by
  apply live_bare.mpr
  rw [entry]
  rfl

theorem moved (listed : Wired.Listed ⟨state.bare, links, killed⟩ state.lists) {place : ProcState}
    (roused : ¬(state.proc proc).Asleep) (ready : place.Assigned)
    (lists : next.lists = state.lists)
    (lives : ∀ slot, (next.ids.entries slot).isSome → (state.ids.entries slot).isSome)
    (states : next.proc = Function.update state.proc proc place) (sys : after.sys = next.bare)
    (same : after.links = links) : after.Refines next := by
  obtain ⟨_, left, dead⟩ := after
  change left = links at same
  subst sys
  subst same
  constructor
  · rfl
  · rw [lists]
    refine listed.awake ?_ ?_ roused ready ?_
    · rfl
    · exact states
    · intro slot alive
      exact live_bare.mpr (lives slot (live_bare.mp alive))

/-- A process that is awake goes on, and no queue changes. -/
theorem returned (listed : Wired.Listed ⟨state.bare, links, killed⟩ state.lists)
    {place : ProcState} (roused : ¬(state.proc proc).Asleep) (ready : place.Assigned)
    (ids : next.ids = state.ids) (states : next.proc = Function.update state.proc proc place)
    (sys : after.sys = next.bare) (same : after.links = links) : after.Refines next := by
  apply moved listed roused ready (System.lists_congr ids) _ states sys same
  rw [ids]
  exact fun _ => id

theorem msgsnd (listed : Wired.Listed ⟨state.bare, links, killed⟩ state.lists) {msgid : Int}
    {msgp : Option MsgBuf} {msgsz : Int} {msgflg : UInt32} {sys : System}
    (taken : Ipc.msgsnd state.bare proc msgid msgp msgsz msgflg = .ok sys) :
    ∃ next, Ipc.msgsnd state proc msgid msgp msgsz msgflg = .ok next ∧
      Wired.Refines ⟨sys, links, killed⟩ next := by
  unfold Ipc.msgsnd at taken ⊢
  split at taken
  · rename_i idle
    change state.proc proc = _ at idle
    have roused : ¬(state.proc proc).Asleep := Seated.not_asleep idle id
    simp only [idle]
    split at taken
    · cases taken
      exact ⟨_, rfl, returned listed roused ProcState.Assigned.running rfl rfl rfl rfl⟩
    · rename_i buffer
      split at taken
      · rename_i invalid
        cases taken
        rw [if_pos invalid]
        exact ⟨_, rfl, returned listed roused ProcState.Assigned.running rfl rfl rfl rfl⟩
      · rename_i valid
        rw [if_neg valid]
        have pool : state.bare.pool = state.pool := rfl
        rw [pool] at taken
        cases loaded : loadMsg state.pool buffer.mtype buffer.data msgsz.toNat with
        | mk msg pool =>
            rw [loaded] at taken
            cases msg with
            | none =>
                cases taken
                exact ⟨_, rfl, returned listed roused ProcState.Assigned.running rfl rfl rfl rfl⟩
            | some msg =>
                cases taken
                exact ⟨_, rfl, returned listed roused (ProcState.Assigned.sending _ _) rfl rfl rfl
                  rfl⟩
  · cases taken

theorem takeMsg {call : ReceiveCall} {letter : Letter} {sys : System}
    (taken : Ipc.takeMsg state.bare proc call letter = .ok sys) :
    ∃ next, Ipc.takeMsg state proc call letter = .ok next ∧ sys = next.bare ∧
      next.ids = state.ids ∧ next.proc = Function.update state.proc proc .running := by
  unfold Ipc.takeMsg at taken ⊢
  have pool : state.bare.pool = state.pool := rfl
  rw [pool] at taken
  cases delivered : deliver call.msgp letter.toMsg call.msgsz state.pool with
  | none =>
      rw [delivered] at taken
      cases taken
  | some stored =>
      obtain ⟨value, stored, pool⟩ := stored
      rw [delivered] at taken
      cases taken
      exact ⟨_, rfl, rfl, rfl, rfl⟩

theorem resume (listed : Wired.Listed ⟨state.bare, links, killed⟩ state.lists) {sys : System}
    (taken : Ipc.resume state.bare proc = .ok sys) :
    ∃ next, Ipc.resume state proc = .ok next ∧ Wired.Refines ⟨sys, links, killed⟩ next := by
  unfold Ipc.resume at taken ⊢
  split at taken
  · rename_i call letter located
    change state.proc proc = _ at located
    obtain ⟨next, received, sys, ids, states⟩ := takeMsg taken
    simp only [located]
    exact ⟨next, received, returned listed (Seated.not_asleep located nofun)
      ProcState.Assigned.running ids states sys rfl⟩
  · rename_i call located
    change state.proc proc = _ at located
    cases taken
    simp only [located]
    exact ⟨_, rfl, returned listed (Seated.not_asleep located nofun)
      ProcState.Assigned.running rfl rfl rfl rfl⟩
  · cases taken
  · cases taken

theorem acceptMsg (listed : Wired.Listed ⟨state.bare, links, killed⟩ state.lists)
    (seated : Seated state) {slot : Fin seqMultiplier} {msgq : MsgQueue} {call : SendCall}
    (entry : state.ids.entries slot = some msgq)
    (located : state.proc proc = .sending call true)
    (taken : Wired.acceptMsg rounds ⟨state.bare, links, killed⟩ proc slot msgq.bare call.letter =
      .ok after) :
    ∃ next, Ipc.acceptMsg state proc slot msgq call.letter = .ok next ∧ after.Refines next := by
  have roused : ¬(state.proc proc).Asleep := Seated.not_asleep located nofun
  have row := listed.rows slot (live entry) .receiver
  rw [System.lists_live entry] at row
  have seats := seated.receivers slot msgq entry
  unfold Wired.acceptMsg at taken
  unfold Ipc.acceptMsg pipelineSend
  split at taken
  · cases taken
  · rename_i walked
    rcases pipelineWalk_eq seats row.ring.path walked with ⟨_, nobody⟩ | ⟨_, _, _, impossible, _⟩
    · cases taken
      rw [pipelineLoop_nobody nobody]
      have queued : (state.setEntry slot (some { msgq with
            qMessage := msgq.qMessage ++ [call.letter]
            sumMsg := msgq.sumMsg + 1 })).bare =
          state.bare.setEntry slot (some { msgq.bare with
            qMessage := msgq.bare.qMessage ++ [call.letter]
            sumMsg := msgq.bare.sumMsg + 1 }) := System.bare_setEntry _
      refine ⟨_, rfl, moved listed roused ProcState.Assigned.running
        (System.lists_kept entry rfl fun kind => ?_) (System.live_replaced entry rfl) rfl ?_ rfl⟩
      · cases kind with
        | sender => rfl
        | receiver => rfl
      · simp only [← queued]
        rfl
    · cases impossible
  · rename_i rcver walked
    split at taken
    · cases taken
    · rename_i left detached
      rcases pipelineWalk_eq seats row.ring.path walked with
        ⟨impossible, _⟩ | ⟨before, taker, behind, same, waiting, wanted, large, nobody⟩
      · cases impossible
      · cases same
        cases taken
        have member : rcver ∈ msgq.qReceiver := by
          rw [waiting]
          exact List.mem_append_right _ List.mem_cons_self
        obtain ⟨receive, asleep, _⟩ := seats rcver member
        have different : rcver.proc ≠ proc := by
          intro same
          rw [same, located] at asleep
          cases asleep
        have handed : ((state.bare.goto proc .running).hand (.message call.letter) rcver.proc).proc =
            Function.update (Function.update state.proc proc .running) rcver.proc
              (.receiving receive (.message call.letter) true) := by
          simp only [System.hand, System.goto, Function.update_of_ne different, System.bare,
            asleep, ProcState.assign, ProcState.activate]
        have relisted : (state.setEntry slot
            (some { msgq with qReceiver := before ++ behind })).bare = state.bare :=
          System.bare_relisted entry rfl
        simp only [waiting, pipelineLoop_taker nobody wanted large, List.nil_append]
        refine ⟨_, rfl, ?_, ?_⟩
        · simp only [← relisted]
          rfl
        · rw [System.lists_replaced .receiver entry rfl]
          · change Wired.Listed _
              (state.lists.set .receiver slot ((before ++ behind).map Receiver.proc))
            rw [List.map_append]
            apply listed.served (live entry) _ roused detached handed
            · intro again given equal
              cases equal
              exact Slot.noConfusion
            · exact fun _ => id
            · rw [System.lists_live entry]
              change msgq.qReceiver.map Receiver.proc = _
              rw [waiting, List.map_append, List.map_cons]
          · intro own apart
            cases own with
            | sender => rfl
            | receiver => exact absurd rfl apart

theorem slept (kind : WaitKind) (listed : Wired.Listed ⟨state.bare, links, killed⟩ state.lists)
    {slot : Fin seqMultiplier} {old new : MsgQueue} {place : Bool → ProcState}
    (entry : state.ids.entries slot = some old) (roused : ¬(state.proc proc).Asleep)
    (spared : killed proc = false) (sits : (place false).Sits slot kind)
    (relisted : new.bare = old.bare) (waiting : new.waiting kind = old.waiting kind ++ [proc])
    (rest : ∀ own, own ≠ kind → new.waiting own = old.waiting own)
    (lain : Wired.sleepOn ⟨state.bare, links, killed⟩ kind slot proc place = .ok after) :
    after.Refines ((state.setEntry slot (some new)).goto proc (place false)) := by
  have lists : ((state.setEntry slot (some new)).goto proc (place false)).lists =
      state.lists.set kind slot (state.lists kind slot ++ [proc]) := by
    rw [System.lists_replaced kind entry rfl rest, waiting, System.lists_live entry]
  constructor
  · change _ = ((state.setEntry slot (some new)).bare).goto proc (place false)
    rw [System.bare_relisted entry relisted]
    unfold sleepOn at lain
    split at lain
    · cases lain
    · cases lain
      simp only [spared]
  · rw [lists]
    exact listed.sleepOn (live entry) roused spared sits lain

theorem sendSection (listed : Wired.Listed ⟨state.bare, links, killed⟩ state.lists)
    (seated : Seated state)
    (spared : killed proc = true →
      ¬Wired.Blocks ⟨state.bare, links, killed⟩ (.sendSection proc))
    (taken : Wired.sendSection rounds ⟨state.bare, links, killed⟩ proc = .ok after) :
    ∃ next, Ipc.sendSection state proc = .ok next ∧ after.Refines next := by
  unfold Wired.sendSection at taken
  unfold Ipc.sendSection
  split at taken
  · rename_i call located
    change state.proc proc = _ at located
    have roused : ¬(state.proc proc).Asleep := Seated.not_asleep located nofun
    have refuses : ∀ err, Wired.Refines
        ⟨refuse state.bare proc call.letter err, links, killed⟩ (refuse state proc call.letter err) :=
      fun err => returned listed roused ProcState.Assigned.running rfl rfl rfl rfl
    simp only [located]
    have addressing : getMsgq state.bare.ids call.msgid = getMsgq state.ids call.msgid :=
      getMsgq_bare _ _
    rw [addressing] at taken
    cases addressed : getMsgq state.ids call.msgid with
    | error reason =>
        rw [addressed] at taken
        cases taken
    | ok found =>
        rw [addressed] at taken
        cases found with
        | none =>
            cases taken
            exact ⟨_, rfl, refuses eidrm⟩
        | some slot =>
            simp only at taken ⊢
            split at taken
            · cases taken
            · rename_i bareq found
              obtain ⟨msgq, entry, rfl⟩ := System.bare_entry found
              simp only [entry]
              split at taken
              · rename_i full
                change msgq.maxMsg < msgq.sumMsg + 1 at full
                rw [if_pos full]
                split at taken
                · rename_i nowait
                  cases taken
                  rw [if_pos nowait]
                  exact ⟨_, rfl, refuses eagain⟩
                · rename_i waits
                  rw [if_neg waits]
                  have sleeps : killed proc = false := by
                    rw [← Bool.not_eq_true]
                    intro dead
                    apply spared dead
                    exact ⟨call, slot, msgq.bare, located, (getMsgq_bare _ _).trans addressed, found,
                      full, not_not.mp waits⟩
                  refine ⟨_, rfl, slept .sender listed entry roused sleeps
                    ⟨call, rfl, (getMsgq_some addressed).1⟩ rfl rfl ?_ taken⟩
                  intro own apart
                  cases own with
                  | sender => exact absurd rfl apart
                  | receiver => rfl
              · rename_i room
                change ¬msgq.maxMsg < msgq.sumMsg + 1 at room
                rw [if_neg room]
                exact acceptMsg listed seated entry located taken
  · cases taken

/-- A receive takes a message from the queue and wakes the senders. -/
theorem takeFound (listed : Wired.Listed ⟨state.bare, links, killed⟩ state.lists)
    {slot : Fin seqMultiplier} {msgq : MsgQueue} {call : ReceiveCall} {found : Letter}
    (entry : state.ids.entries slot = some msgq) (idle : state.proc proc = .running)
    (taken : Wired.takeFound rounds ⟨state.bare, links, killed⟩ proc slot msgq.bare call found =
      .ok after) :
    ∃ next, Ipc.takeMsg ((ssWakeup (state.setEntry slot (some { msgq with
        qMessage := msgq.qMessage.eraseP (fun msg => msg.serial = found.serial)
        sumMsg := msgq.sumMsg - 1
        qSender := [] })) msgq.qSender).record [.handed slot proc call.mtype found.serial]) proc call
          found = .ok next ∧ after.Refines next := by
  have row := listed.rows slot (live entry) .sender
  rw [System.lists_live entry] at row
  unfold Wired.takeFound at taken
  simp only at taken
  split at taken
  · cases taken
  · rename_i drained left ran
    obtain ⟨rfl, empty, outside⟩ := drainLoop_ring row.ring ran
    generalize woken : (ssWakeup (state.setEntry slot (some { msgq with
        qMessage := msgq.qMessage.eraseP (fun msg => msg.serial = found.serial)
        sumMsg := msgq.sumMsg - 1
        qSender := [] })) msgq.qSender).record [.handed slot proc call.mtype found.serial] = middle
    have bare : middle.bare = (ssWakeup (state.bare.setEntry slot (some { msgq.bare with
        qMessage := msgq.bare.qMessage.eraseP (fun msg => msg.serial = found.serial)
        sumMsg := msgq.bare.sumMsg - 1 })) (msgq.waiting .sender)).record
          [.handed slot proc call.mtype found.serial] := by
      rw [← woken]
      change (ssWakeup _ msgq.qSender).bare.record _ = _
      rw [System.bare_ssWakeup, System.bare_setEntry]
      rfl
    split at taken
    · cases taken
    · rename_i sys delivered
      cases taken
      simp only [← bare] at delivered
      obtain ⟨next, received, rfl, ids, states⟩ := takeMsg delivered
      have entries : next.ids.entries = Function.update state.ids.entries slot (some { msgq with
          qMessage := msgq.qMessage.eraseP (fun msg => msg.serial = found.serial)
          sumMsg := msgq.sumMsg - 1
          qSender := [] }) := by
        rw [ids, ← woken]
        change (ssWakeup _ msgq.qSender).ids.entries = _
        rw [ssWakeup_ids]
        rfl
      refine ⟨next, received, rfl, ?_⟩
      rw [System.lists_replaced .sender entry entries]
      · apply listed.drained (live entry) (Seated.not_asleep idle id) empty
        · rw [System.lists_live entry]
          exact outside
        · rw [System.lists_live entry]
          change next.proc = _
          rw [states, ← woken]
          change Function.update (ssWakeup _ msgq.qSender).proc proc .running = _
          rw [Seated.ssWakeup_procs]
          rfl
        · intro place alive
          exact live_bare.mpr (System.live_replaced entry entries place (live_bare.mp alive))
      · intro own apart
        cases own with
        | sender => exact absurd rfl apart
        | receiver => rfl

theorem msgrcv (listed : Wired.Listed ⟨state.bare, links, killed⟩ state.lists)
    {msgid msgsz mtype : Int} {msgp : Option MsgBuf} {msgflg : UInt32}
    (spared : killed proc = true →
      ¬Wired.Blocks ⟨state.bare, links, killed⟩ (.msgrcv proc msgid msgp msgsz mtype msgflg))
    (taken : Wired.msgrcv rounds ⟨state.bare, links, killed⟩ proc msgid msgp msgsz mtype msgflg =
      .ok after) :
    ∃ next, Ipc.msgrcv state proc msgid msgp msgsz mtype msgflg = .ok next ∧
      after.Refines next := by
  unfold Wired.msgrcv at taken
  unfold Ipc.msgrcv
  split at taken
  · rename_i idle
    change state.proc proc = _ at idle
    have roused : ¬(state.proc proc).Asleep := Seated.not_asleep idle id
    have returns : ∀ value, Wired.Refines ⟨state.bare.ret proc value, links, killed⟩
        (state.ret proc value) :=
      fun value => returned listed roused ProcState.Assigned.running rfl rfl rfl rfl
    simp only [idle]
    split at taken
    · cases taken
      exact ⟨_, rfl, returns einval⟩
    · rename_i buffer
      split at taken
      · rename_i negative
        cases taken
        simp only [negative, if_true]
        exact ⟨_, rfl, returns einval⟩
      · rename_i positive
        simp only [positive, if_false]
        have addressing : getMsgq state.bare.ids msgid = getMsgq state.ids msgid :=
          getMsgq_bare _ _
        rw [addressing] at taken
        cases addressed : getMsgq state.ids msgid with
        | error reason =>
            rw [addressed] at taken
            cases taken
        | ok found =>
            rw [addressed] at taken
            cases found with
            | none =>
                cases taken
                exact ⟨_, rfl, returns eidrm⟩
            | some slot =>
                simp only at taken ⊢
                split at taken
                · cases taken
                · rename_i bareq there
                  obtain ⟨msgq, entry, rfl⟩ := System.bare_entry there
                  simp only [entry]
                  have messages : msgq.bare.qMessage = msgq.qMessage := rfl
                  rw [messages] at taken
                  cases hit : searchLoop mtype msgq.qMessage none with
                  | some found =>
                      rw [hit] at taken
                      simp only at taken ⊢
                      split at taken
                      · rename_i small
                        cases taken
                        rw [if_pos small]
                        exact ⟨_, rfl, returns e2big⟩
                      · rename_i large
                        rw [if_neg large]
                        exact takeFound listed entry idle taken
                  | none =>
                      rw [hit] at taken
                      simp only at taken ⊢
                      split at taken
                      · rename_i nowait
                        cases taken
                        rw [if_pos nowait]
                        exact ⟨_, rfl, returns enomsg⟩
                      · rename_i waits
                        rw [if_neg waits]
                        have sleeps : killed proc = false := by
                          rw [← Bool.not_eq_true]
                          intro dead
                          apply spared dead
                          exact ⟨slot, msgq.bare, Option.some_ne_none buffer,
                            Int.not_lt.mp positive, (getMsgq_bare _ _).trans addressed, there, hit,
                            not_not.mp waits⟩
                        refine ⟨_, rfl, slept .receiver listed entry roused sleeps
                          ⟨_, rfl, (getMsgq_some addressed).1⟩ rfl ?_ ?_ taken⟩
                        · exact List.map_append
                        · intro own apart
                          cases own with
                          | sender => rfl
                          | receiver => exact absurd rfl apart
  · cases taken

theorem msgget (listed : Wired.Listed ⟨state.bare, links, killed⟩ state.lists) {key : Int}
    {msgflg : UInt32} {allocated : Bool} {sys : System}
    (taken : Ipc.msgget state.bare proc key msgflg allocated = .ok sys) :
    ∃ next, Ipc.msgget state proc key msgflg allocated = .ok next ∧
      Wired.Refines ⟨sys, initLists state.bare.ids sys.ids links, killed⟩ next := by
  unfold Ipc.msgget at taken
  split at taken
  · rename_i idle
    change state.proc proc = _ at idle
    cases taken
    have made : Ipc.msgget state proc key msgflg allocated = .ok
        ({ state with ids := (sysMsgget state.ids key msgflg allocated).2 }.ret proc
          (sysMsgget state.ids key msgflg allocated).1) := by
      unfold Ipc.msgget
      simp only [idle]
    have roused : ¬(state.proc proc).Asleep := Seated.not_asleep idle id
    refine ⟨_, made, ?_, ?_⟩
    · have bare := IpcIds.bare_sysMsgget state.ids key msgflg allocated
      change ({ state.bare with ids := (sysMsgget state.ids.bare key msgflg allocated).2 }.ret proc
        (sysMsgget state.ids.bare key msgflg allocated).1) = _
      rw [bare]
      rfl
    · rw [System.lists_msgget (Outcome.ofMsgget made)]
      rcases sysMsgget_cases state.bare.ids key msgflg allocated with
        same | ⟨slot, searched, _, new⟩
      · refine listed.awake ?_ ?_ roused ProcState.Assigned.running ?_
        · change initLists _ (sysMsgget state.bare.ids key msgflg allocated).2 _ = _
          rw [same]
          exact initLists_same _ _
        · rfl
        · intro slot alive
          unfold Live at alive ⊢
          rw [← same]
          exact alive
      · apply listed.added searched new rfl rfl roused
        intro kind
        have free : state.bare.ids.entries slot = none := by
          have empty := List.find?_some searched
          exact Option.isNone_iff_eq_none.mp empty
        unfold System.lists
        rw [Option.map_eq_none_iff.mp free]
  · cases taken

theorem unwaited {kind : WaitKind} {slot : Fin seqMultiplier} {procs : List Tid}
    (ring : IsRing links (.head kind slot) (procs.map (.wait kind)))
    (vacant : links.next (.head kind slot) = some (.head kind slot)) : procs = [] := by
  cases procs with
  | nil => rfl
  | cons proc procs =>
      have first := ring.path.1.1
      rw [vacant] at first
      cases first

theorem freeMsgq {slot : Fin seqMultiplier} {msgq : MsgQueue} (nobody : msgq.qReceiver = [])
    (vacant : links.next (.head .receiver slot) = some (.head .receiver slot))
    (freed : Wired.freeMsgq rounds ⟨state.bare, links, killed⟩ slot msgq.bare = .ok after) :
    after = ⟨(Ipc.freeMsgq state slot msgq).1.bare, links, killed⟩ ∧
      (Ipc.freeMsgq state slot msgq).1.proc = state.proc := by
  cases rounds with
  | zero => cases freed
  | succ rounds =>
      have drained : drainLoop (.head .receiver slot) (rounds + 1) links = .ok ([], links) := by
        unfold drainLoop
        rw [vacant]
        exact if_pos rfl
      have unlinked : (state.setEntry slot none).bare = state.bare.setEntry slot none :=
        System.bare_setEntry none
      unfold Wired.freeMsgq at freed
      simp only [drained] at freed
      cases freed
      unfold Ipc.freeMsgq
      simp only [nobody, ← unlinked]
      exact ⟨rfl, rfl⟩

theorem msgctl (listed : Wired.Listed ⟨state.bare, links, killed⟩ state.lists) {msgid cmd : Int}
    (vacant : cmd = ipcRmid → ∀ slot, getMsgq state.bare.ids msgid = .ok (some slot) →
      links.next (.head .receiver slot) = some (.head .receiver slot))
    (taken : Wired.msgctl rounds ⟨state.bare, links, killed⟩ proc msgid cmd = .ok after) :
    ∃ next, Ipc.msgctl state proc msgid cmd = .ok next ∧ after.Refines next := by
  unfold Wired.msgctl at taken
  unfold Ipc.msgctl freeque
  split at taken
  · rename_i idle
    change state.proc proc = _ at idle
    have roused : ¬(state.proc proc).Asleep := Seated.not_asleep idle id
    have returns : ∀ value, Wired.Refines ⟨state.bare.ret proc value, links, killed⟩
        (state.ret proc value) :=
      fun value => returned listed roused ProcState.Assigned.running rfl rfl rfl rfl
    simp only [idle]
    split at taken
    · rename_i removal
      rw [if_pos removal]
      have addressing : getMsgq state.bare.ids msgid = getMsgq state.ids msgid :=
        getMsgq_bare _ _
      rw [addressing] at taken
      cases addressed : getMsgq state.ids msgid with
      | error reason =>
          rw [addressed] at taken
          cases taken
      | ok found =>
          rw [addressed] at taken
          cases found with
          | none =>
              cases taken
              exact ⟨_, rfl, returns 0⟩
          | some slot =>
              simp only at taken ⊢
              split at taken
              · cases taken
              · rename_i bareq there
                obtain ⟨msgq, entry, rfl⟩ := System.bare_entry there
                simp only [entry]
                split at taken
                · cases taken
                · rename_i removed freed
                  cases taken
                  have nobody := unwaited (listed.rows slot (live entry) .receiver).ring
                    (vacant removal slot ((getMsgq_bare _ _).trans addressed))
                  rw [System.lists_live entry] at nobody
                  obtain ⟨rfl, states⟩ := freeMsgq (List.map_eq_nil_iff.mp nobody)
                    (vacant removal slot ((getMsgq_bare _ _).trans addressed)) freed
                  have entries := freeMsgq_entries state slot msgq
                  refine ⟨_, rfl, rfl, ?_⟩
                  apply Wired.Listed.agree
                  · refine listed.awake ?_ ?_ roused ProcState.Assigned.running ?_
                    · rfl
                    · change Function.update (Ipc.freeMsgq state slot msgq).1.proc proc .running = _
                      rw [states]
                      rfl
                    · intro place alive
                      change Wired.Live ⟨(Ipc.freeMsgq state slot msgq).1.bare, links, killed⟩ place
                        at alive
                      exact live_bare.mpr
                        (System.live_replaced entry entries place (live_bare.mp alive))
                  · intro place alive kind
                    change Wired.Live ⟨(Ipc.freeMsgq state slot msgq).1.bare, links, killed⟩ place
                      at alive
                    have apart : place ≠ slot := by
                      intro same
                      have still := live_bare.mp alive
                      rw [entries, same, Function.update_self] at still
                      cases still
                    unfold System.lists
                    change (match (Ipc.freeMsgq state slot msgq).1.ids.entries place with
                      | none => [] | some msgq => msgq.waiting kind) = _
                    rw [entries, Function.update_of_ne apart]
    · rename_i other
      cases taken
      rw [if_neg other]
      exact ⟨_, rfl, returns einval⟩
  · cases taken

/-- A kill of a process that is awake is not seen by the message calls. -/
theorem kill (listed : Wired.Listed ⟨state.bare, links, killed⟩ state.lists)
    (roused : ¬(state.proc proc).Asleep) :
    (Wired.kill ⟨state.bare, links, killed⟩ proc).Refines state := by
  have unmoved : state.bare.activate proc = state.bare := by
    unfold System.activate System.goto
    change { state.bare with
      proc := Function.update state.proc proc (state.proc proc).activate } = _
    rw [ProcState.activate_of_awake roused, Function.update_eq_self]
    rfl
  constructor
  · exact unmoved
  · have ready : (state.proc proc).activate.Assigned := by
      rw [ProcState.activate_of_awake roused]
      exact listed.assigned proc
    refine listed.awake ?_ ?_ roused ready (fun _ alive => alive)
    · rfl
    · rfl

end Wired.Refines

def WiredAction.calls : WiredAction → List Action
  | .call action => [action]
  | .kill _ => []

theorem Wired.Refines.step {wired after : Wired} {state : System} {rounds : Nat}
    {action : WiredAction} (refines : wired.Refines state) (seated : Seated state)
    (met : wired.Undisturbed action) (taken : wiredStep rounds wired action = .ok after) :
    ∃ next, Run ipcStep (fun _ _ => True) state action.calls next ∧ after.Refines next := by
  obtain ⟨sys, links, killed⟩ := wired
  obtain ⟨same, listed⟩ := refines
  change sys = state.bare at same
  subst same
  have one : ∀ {action : Action} {next : System}, ipcStep state action = .ok next →
      Run ipcStep (fun _ _ => True) state [action] next :=
    fun made => Run.start.next True.intro made
  cases action with
  | kill proc =>
      cases taken
      exact ⟨state, .start, kill listed met⟩
  | call action =>
      cases action with
      | msgget proc key msgflg allocated =>
          simp only [wiredStep] at taken
          split at taken
          · cases taken
          · rename_i sys made
            cases taken
            obtain ⟨next, made, refines⟩ := msgget listed made
            exact ⟨next, one made, refines⟩
      | msgsnd proc msgid msgp msgsz msgflg =>
          simp only [wiredStep] at taken
          split at taken
          · cases taken
          · rename_i sys loaded
            cases taken
            obtain ⟨next, loaded, refines⟩ := msgsnd listed loaded
            exact ⟨next, one loaded, refines⟩
      | sendSection proc =>
          obtain ⟨next, sent, refines⟩ := sendSection listed seated met taken
          exact ⟨next, one sent, refines⟩
      | msgrcv proc msgid msgp msgsz mtype msgflg =>
          obtain ⟨next, received, refines⟩ := msgrcv listed met taken
          exact ⟨next, one received, refines⟩
      | resume proc =>
          simp only [wiredStep] at taken
          split at taken
          · cases taken
          · rename_i sys gone
            cases taken
            obtain ⟨next, gone, refines⟩ := resume listed gone
            exact ⟨next, one gone, refines⟩
      | msgctl proc msgid cmd =>
          obtain ⟨next, controlled, refines⟩ := msgctl listed met taken
          exact ⟨next, one controlled, refines⟩

theorem Wired.Refines.initial (pool : List Page) :
    (Wired.initial pool).Refines (System.initial pool) :=
  ⟨rfl, Listed.initial pool _⟩

end LabKernel.Ipc
