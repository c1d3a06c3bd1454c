/-
The message lists in every run that removes no queue under a receiver.

While nobody is woken with nothing assigned, the pages hold what the lists of the queues say, and
so the rings in the pages are balanced as the lists are. A receiver that is woken by a removal goes
on with the leftover of an earlier call, and frees a message that is queued.
-/

import LabKernel.Ipc.Lookup
import LabKernel.Ipc.PagedSections

set_option autoImplicit false

namespace LabKernel.Ipc

open Common Transition Rings

/-- A sender has an identifier in the table, and a receiver that is awake has its slot assigned. -/
def ProcState.Ready : ProcState → Prop
  | .running => True
  | .sending call _ => 0 ≤ call.msgid.tmod seqMultiplier
  | .receiving _ slot awake => awake = true → slot ≠ .unassigned

/-- What the lists keep in a run where no queue is removed under a receiver and no identifier has a
negative remainder. -/
structure Calm (state : System) : Prop where
  seated : Seated state
  custody : Custody state
  balanced : state.ids.Balanced
  ready : ∀ proc, (state.proc proc).Ready

/-- The same of the lists as of the pages. -/
def System.Undisturbed (state : System) : Action → Prop
  | .msgget _ _ _ _ | .resume _ | .sendSection _ => True
  | .msgsnd _ msgid _ _ _ | .msgrcv _ msgid _ _ _ _ => 0 ≤ msgid.tmod seqMultiplier
  | .msgctl _ msgid cmd => cmd = ipcRmid → 0 ≤ msgid.tmod seqMultiplier ∧
      ∀ slot, getMsgq state.ids msgid = .ok (some slot) →
        ∀ msgq ∈ state.ids.entries slot, msgq.qReceiver = []

section

variable {paged after : Paged} {state next : System} {action : Action} {proc : Tid}
  {slot : Fin seqMultiplier} {msgq : MsgQueue} {rounds : Nat} {msgid cmd : Int}

theorem Depicts.undisturbed (depicts : Depicts paged state) (guarded : paged.Undisturbed action) :
    state.Undisturbed action := by
  cases action with
  | msgget proc key msgflg allocated => exact guarded
  | msgsnd proc msgid msgp msgsz msgflg => exact guarded
  | sendSection proc => exact guarded
  | msgrcv proc msgid msgp msgsz mtype msgflg => exact guarded
  | resume proc => exact guarded
  | msgctl proc msgid cmd =>
      intro removal
      obtain ⟨inside, empty⟩ := guarded removal
      refine ⟨inside, ?_⟩
      intro slot found msgq live
      rw [← depicts.getMsgq_eq] at found
      have there := depicts.entry slot
      rw [live] at there
      exact empty slot found msgq.hidden there

namespace Calm

theorem initial {pool : List Page} (distinct : (pool.map Page.number).Nodup) :
    Calm (System.initial pool) := by
  constructor
  · exact Seated.initial pool
  · exact Custody.initial distinct
  · exact nofun
  · exact fun _ => True.intro

theorem ready_update (calm : Calm state) (current : ProcState)
    (moved : next.proc = Function.update state.proc proc current) (ready : current.Ready) :
    ∀ other, (next.proc other).Ready := by
  intro other
  rw [moved]
  by_cases same : other = proc
  · rw [same, Function.update_self]
    exact ready
  · rw [Function.update_of_ne same]
    exact calm.ready other

theorem ready_woken (calm : Calm state) (live : state.ids.entries slot = some msgq) (other : Tid) :
    (if other ∈ msgq.qSender then (state.proc other).activate else state.proc other).Ready := by
  have ready := calm.ready other
  split
  · rename_i listed
    obtain ⟨sent, located, -⟩ := calm.seated.senders slot msgq live other listed
    rw [located] at ready ⊢
    exact ready
  · exact ready

theorem ready_step (calm : Calm state) (guarded : state.Undisturbed action)
    (outcome : Outcome state action next) : ∀ proc, (next.proc proc).Ready := by
  cases outcome with
  | returned proc value pool idle kept => exact calm.ready_update .running rfl True.intro
  | created proc slot idle free => exact calm.ready_update .running rfl True.intro
  | loaded proc call pool idle numbered taken =>
      exact calm.ready_update (.sending call true) rfl guarded
  | refused proc call err located => exact calm.ready_update .running rfl True.intro
  | slept proc call slot msgq located addressed live full =>
      have inside := calm.ready proc
      rw [located] at inside
      exact calm.ready_update (.sending call false) rfl inside
  | queued proc call slot msgq located addressed live room nobody =>
      exact calm.ready_update .running rfl True.intro
  | piped proc call slot msgq before after rcver located addressed live room waiting wanted fits =>
      have member : rcver ∈ msgq.qReceiver := by
        rw [waiting]
        exact List.mem_append_right _ List.mem_cons_self
      obtain ⟨receive, asleep, -⟩ := calm.seated.receivers slot msgq live rcver member
      have different : rcver.proc ≠ proc := by
        intro same
        rw [same, located] at asleep
        cases asleep
      have others : ∀ other, ((state.goto proc .running).proc other).Ready :=
        calm.ready_update .running rfl True.intro
      intro other
      change (Function.update (Function.update state.proc proc .running) rcver.proc _ other).Ready
      by_cases served : other = rcver.proc
      · rw [served, Function.update_self]
        simp only [System.goto, System.setEntry, Function.update_of_ne different, asleep,
          ProcState.assign, ProcState.activate]
        intro _ impossible
        cases impossible
      · rw [Function.update_of_ne served]
        exact others other
  | taken proc slot msgq found pool value idle addressed live hit freed =>
      intro other
      change (Function.update (ssWakeup _ msgq.qSender).proc proc .running other).Ready
      by_cases same : other = proc
      · rw [same, Function.update_self]
        exact True.intro
      · rw [Function.update_of_ne same, ssWakeup_proc]
        exact calm.ready_woken live other
  | waited proc slot msgq call idle addressed live nothing =>
      exact calm.ready_update (.receiving call .unassigned false) rfl
        (fun awake => absurd awake Bool.false_ne_true)
  | resumed proc call letter pool value located freed =>
      exact calm.ready_update .running rfl True.intro
  | dismissed proc call located => exact calm.ready_update .running rfl True.intro
  | removed proc slot msgq idle addressed live =>
      -- Nobody waits on the queue, so nobody is woken.
      have empty := (guarded rfl).2 slot addressed msgq live
      obtain ⟨-, -, -, procs⟩ := freeMsgq_frame state slot msgq
      have unmoved : (freeMsgq state slot msgq).1.proc = state.proc := by
        funext another
        rw [procs, empty, List.map_nil, if_neg List.not_mem_nil]
      have moved : ((freeMsgq state slot msgq).1.ret proc 0).proc =
          Function.update state.proc proc .running := by
        rw [← unmoved]
        rfl
      exact calm.ready_update .running moved True.intro

theorem step (calm : Calm state) (guarded : state.Undisturbed action)
    (outcome : Outcome state action next) : Calm next := by
  constructor
  · exact calm.seated.step outcome
  · exact calm.custody.step calm.seated outcome
  · exact calm.balanced.step outcome
  · exact calm.ready_step guarded outcome

theorem assigned (calm : Calm state) (proc : Tid) (call : ReceiveCall) :
    state.proc proc ≠ .receiving call .unassigned true := by
  intro located
  have ready := calm.ready proc
  rw [located] at ready
  exact ready rfl rfl

/-! ### No section reads what is not there -/

/-- A section ends in a state, or for none of these two reasons. -/
def Defined : Except Stop System → Prop
  | .ok _ => True
  | .error reason => reason ≠ .uninitialised ∧ reason ≠ .outOfBounds

theorem getMsgq_inside (ids : IpcIds) {msgid : Int} (inside : 0 ≤ msgid.tmod seqMultiplier) :
    ∃ target, getMsgq ids msgid = .ok target :=
  getMsgq_inside_iff.mpr (tmod_nonneg_iff.mp inside)

theorem takeMsg_defined (state : System) (proc : Tid) (call : ReceiveCall) (letter : Letter) :
    Defined (takeMsg state proc call letter) := by
  unfold takeMsg
  cases deliver call.msgp letter.toMsg call.msgsz state.pool with
  | none => exact ⟨nofun, nofun⟩
  | some delivered => exact True.intro

theorem blocks_defined : Defined (.error .blocks) := ⟨nofun, nofun⟩

theorem acceptMsg_defined (state : System) (proc : Tid) (slot : Fin seqMultiplier)
    (msgq : MsgQueue) (letter : Letter) : Defined (acceptMsg state proc slot msgq letter) := by
  unfold acceptMsg
  cases pipelineSend msgq.qReceiver letter.toMsg with
  | none => exact ⟨nofun, nofun⟩
  | some piped =>
      simp only
      split
      · exact True.intro
      · exact True.intro

theorem sendSection_defined (calm : Calm state) (proc : Tid) :
    Defined (sendSection state proc) := by
  have ready := calm.ready proc
  unfold sendSection
  split
  · rename_i call located
    rw [located] at ready
    obtain ⟨target, found⟩ := getMsgq_inside state.ids ready
    rw [found]
    cases target with
    | none => exact True.intro
    | some slot =>
        obtain ⟨-, msgq, live, -⟩ := getMsgq_some found
        simp only [live]
        split
        · split
          · exact True.intro
          · exact True.intro
        · exact acceptMsg_defined state proc slot msgq call.letter
  · exact blocks_defined

theorem msgrcv_defined (state : System) (proc : Tid) {msgid : Int} (msgp : Option MsgBuf)
    (msgsz mtype : Int) (msgflg : UInt32) (inside : 0 ≤ msgid.tmod seqMultiplier) :
    Defined (msgrcv state proc msgid msgp msgsz mtype msgflg) := by
  obtain ⟨target, found⟩ := getMsgq_inside state.ids inside
  unfold msgrcv
  split
  · cases msgp with
    | none => exact True.intro
    | some msgp =>
        simp only [found]
        split
        · exact True.intro
        · cases target with
          | none => exact True.intro
          | some slot =>
              obtain ⟨-, msgq, live, -⟩ := getMsgq_some found
              simp only [live]
              split
              · split
                · exact True.intro
                · exact takeMsg_defined _ _ _ _
              · split
                · exact True.intro
                · exact True.intro
  · exact blocks_defined

theorem resume_defined (calm : Calm state) (proc : Tid) : Defined (resume state proc) := by
  unfold resume
  split
  · exact takeMsg_defined _ _ _ _
  · exact True.intro
  · rename_i call located
    exact absurd located (calm.assigned proc call)
  · exact blocks_defined

theorem msgctl_defined (guarded : state.Undisturbed (.msgctl proc msgid cmd)) :
    Defined (msgctl state proc msgid cmd) := by
  unfold msgctl freeque
  split
  · split
    · rename_i removal
      obtain ⟨target, found⟩ := getMsgq_inside state.ids (guarded removal).1
      rw [found]
      cases target with
      | none => exact True.intro
      | some slot =>
          obtain ⟨-, msgq, live, -⟩ := getMsgq_some found
          simp only [live]
          exact True.intro
    · exact True.intro
  · exact blocks_defined

theorem ipcStep_defined (calm : Calm state) (guarded : state.Undisturbed action) :
    Defined (ipcStep state action) := by
  cases action with
  | msgget proc key msgflg allocated =>
      change Defined (msgget state proc key msgflg allocated)
      unfold msgget
      split
      · exact True.intro
      · exact blocks_defined
  | msgsnd proc msgid msgp msgsz msgflg =>
      change Defined (msgsnd state proc msgid msgp msgsz msgflg)
      unfold msgsnd
      split
      · split
        · exact True.intro
        · split
          · exact True.intro
          · split
            · exact True.intro
            · exact True.intro
      · exact blocks_defined
  | sendSection proc => exact calm.sendSection_defined proc
  | msgrcv proc msgid msgp msgsz mtype msgflg =>
      exact msgrcv_defined state proc msgp msgsz mtype msgflg guarded
  | resume proc => exact calm.resume_defined proc
  | msgctl proc msgid cmd => exact msgctl_defined guarded

end Calm

/-! ### Whole runs -/

/-- The pages and links with which the calls start hold no message. -/
theorem Depicts.initial (pool : List Page) : Depicts (Paged.initial pool) (System.initial pool) := by
  constructor
  · rfl
  · exact nofun
  · rintro letter ⟨place, member⟩
    cases place <;> cases member

theorem Paged.depicted {pool : List Page} (distinct : (pool.map Page.number).Nodup)
    {actions : List Action}
    (run : Run (pagedStep rounds) Paged.Undisturbed (Paged.initial pool) actions paged) :
    ∃ state, Depicts paged state ∧ Calm state := by
  refine run.invariant (P := fun paged => ∃ state, Depicts paged state ∧ Calm state) ?_ ?_
  · exact ⟨System.initial pool, Depicts.initial pool, Calm.initial distinct⟩
  · rintro paged action after ⟨state, depicts, calm⟩ guarded taken
    have agrees := depicts.step calm.custody calm.assigned rounds action
    rw [taken] at agrees
    cases stepped : ipcStep state action with
    | error reason =>
        rw [stepped] at agrees
        cases agrees
    | ok next =>
        rw [stepped] at agrees
        exact ⟨next, agrees, calm.step (depicts.undisturbed guarded) (ipcStep_outcome stepped)⟩

theorem Depicts.queueOk (depicts : Depicts paged state) (balanced : state.ids.Balanced)
    (live : paged.sys.ids.entries slot = some msgq) : paged.QueueOk slot msgq := by
  rw [depicts.entry] at live
  obtain ⟨listed, there, rfl⟩ := Option.map_eq_some_iff.mp live
  obtain ⟨counted, bounded, full, unmatched⟩ := balanced slot listed there
  refine ⟨⟨listed.qMessage, depicts.rings slot listed there, ?_, counted, unmatched⟩, bounded, full⟩
  exact fun letter queued =>
    depicts.text letter (owns_queued there letter queued) _ Letter.page_mem_numbers

theorem Agrees.reason {reason : Stop} {called : Except Stop System}
    (agrees : Agrees (.error reason) called) : reason = .spins ∨ called = .error reason := by
  cases called with
  | ok next => cases reason <;> first | exact Or.inl rfl | exact absurd agrees id
  | error other =>
      cases reason <;> first | exact Or.inl rfl | exact Or.inr (congrArg Except.error agrees.symm)

theorem Depicts.defined (depicts : Depicts paged state) (calm : Calm state)
    (guarded : paged.Undisturbed action) (reason : Stop)
    (stopped : pagedStep rounds paged action = .error reason) :
    reason ≠ .uninitialised ∧ reason ≠ .outOfBounds := by
  have agrees := depicts.step calm.custody calm.assigned rounds action
  have defined := calm.ipcStep_defined (depicts.undisturbed guarded)
  rw [stopped] at agrees
  rcases agrees.reason with spins | same
  · rw [spins]
    exact ⟨nofun, nofun⟩
  · rw [same] at defined
    exact defined

/-- In every run in which no call gets an identifier with a negative remainder and no queue is removed
under a receiver that waits, the count of every live queue is right and within its bound, senders
wait only when it is full and no queued message is for a receiver that waits; and no section
reads outside the table or what nobody has written. -/
theorem nobody_waits_in_vain (rounds : Nat) (pool : List Page)
    (distinct : (pool.map Page.number).Nodup) (actions : List Action) (paged : Paged)
    (run : Run (pagedStep rounds) Paged.Undisturbed (Paged.initial pool) actions paged) :
    (∀ slot msgq, paged.sys.ids.entries slot = some msgq → paged.QueueOk slot msgq) ∧
      ∀ action, paged.Undisturbed action → ∀ reason,
        pagedStep rounds paged action = .error reason →
          reason ≠ .uninitialised ∧ reason ≠ .outOfBounds := by
  obtain ⟨state, depicts, calm⟩ := Paged.depicted distinct run
  constructor
  · exact fun slot msgq live => depicts.queueOk calm.balanced live
  · exact fun action guarded => depicts.defined calm guarded

end

def emptyBuf (mtype : Int) : MsgBuf := { mtype := mtype, data := fun _ => 0 }

/-- A receiver waits for type 4, 257 messages of type 3 are sent, and a queue that holds a message
is removed. -/
def fillingCalls : List Action :=
  [.msgget 0 5 ipcCreate true, .msgrcv 1 0 (some (emptyBuf 0)) 8 4 0] ++
    (List.range 257).flatMap (fun _ => [.msgsnd 0 0 (some (emptyBuf 3)) 0 0, .sendSection 0]) ++
    [.msgget 2 6 ipcCreate true, .msgsnd 2 17 (some (emptyBuf 3)) 0 0, .sendSection 2,
      .msgctl 2 17 ipcRmid]

/-- The last sender waits in front of the full queue, and the receiver behind it. -/
theorem nobody_waits_in_vain_filled : ∃ (paged : Paged) (msgq : MsgQueue),
    Run (pagedStep 400) Paged.Undisturbed
      (Paged.initial ((List.range 258).map fun number => { number := number, data := fun _ => 0 }))
      fillingCalls paged ∧
      paged.sys.ids.entries ⟨0, by decide⟩ = some msgq ∧ msgq.qSender = [0] ∧
      msgq.qReceiver = [{ proc := 1, mtype := 4, size := 8 }] ∧ msgq.sumMsg = msgq.maxMsg ∧
      paged.QueueOk ⟨0, by decide⟩ msgq := by
  have passed : checkRun (pagedStep 400) (fun paged action => decide (paged.Undisturbed action))
      (fun paged => (paged.sys.ids.entries ⟨0, by decide⟩).any fun msgq =>
        decide (msgq.qSender = [0] ∧ msgq.qReceiver = [{ proc := 1, mtype := 4, size := 8 }]))
      (Paged.initial ((List.range 258).map fun number => { number := number, data := fun _ => 0 }))
      fillingCalls = true := by
    decide +kernel
  obtain ⟨paged, run, checked⟩ := Run.of_checkRun (fun _ _ => of_decide_eq_true) passed
  obtain ⟨msgq, live, waiting⟩ := (Option.any_eq_true _ _).mp checked
  obtain ⟨sender, receiver⟩ := of_decide_eq_true waiting
  have distinct : (((List.range 258).map fun number =>
      ({ number := number, data := fun _ => 0 } : Page)).map Page.number).Nodup := by
    decide +kernel
  have ok := (nobody_waits_in_vain 400 _ distinct _ paged run).1 ⟨0, by decide⟩ msgq live
  have blocked : msgq.qSender ≠ [] := by
    rw [sender]
    exact nofun
  exact ⟨paged, msgq, run, live, sender, receiver, ok.full blocked, ok⟩

/-- A receiver that has been handed a message before waits again, on a queue that is removed, and
goes on when the page of that message is in another queue. -/
def removingCalls : List Action :=
  [.msgget 0 5 ipcCreate true, .msgget 0 6 ipcCreate true,
    .msgrcv 1 0 (some (emptyBuf 0)) 8 0 0, .msgsnd 0 0 (some (emptyBuf 3)) 4 0, .sendSection 0,
    .resume 1, .msgrcv 1 0 (some (emptyBuf 0)) 8 0 0, .msgctl 0 0 ipcRmid,
    .msgsnd 0 17 (some (emptyBuf 3)) 4 0, .sendSection 0, .resume 1,
    .msgsnd 0 17 (some (emptyBuf 3)) 4 0, .sendSection 0]

/-- The other queue counts two messages, and its list is one page that leads to itself. -/
theorem removal_breaks_another_queue : ∃ (paged : Paged) (msgq : MsgQueue),
    Reachable (pagedStep 8) (Paged.initial [{ number := 7, data := fun _ => 0 }]) paged ∧
      paged.sys.ids.entries ⟨1, by decide⟩ = some msgq ∧
      ¬paged.QueueOk ⟨1, by decide⟩ msgq := by
  have passed : checkRun (pagedStep 8) (fun _ _ => true) (fun paged =>
      decide (paged.links.next (.head ⟨1, by decide⟩) = some (.page 7) ∧
        paged.links.next (.page 7) = some (.page 7)) &&
      (paged.sys.ids.entries ⟨1, by decide⟩).any fun msgq => decide (msgq.sumMsg = 2))
      (Paged.initial [{ number := 7, data := fun _ => 0 }]) removingCalls = true := by
    decide +kernel
  obtain ⟨paged, reached, checked⟩ := Reachable.of_checkRun passed
  obtain ⟨links, counted⟩ := (Bool.and_eq_true _ _).mp checked
  obtain ⟨first, again⟩ := of_decide_eq_true links
  obtain ⟨msgq, live, two⟩ := (Option.any_eq_true _ _).mp counted
  refine ⟨paged, msgq, reached, live, ?_⟩
  intro ok
  obtain ⟨letters, ring, -, length, -⟩ := ok.listed
  have nodes : (letters.map Letter.node).length < 3 := by
    have same := of_decide_eq_true two
    rw [List.length_map]
    omega
  -- From the head on there are always more pages.
  have walked := congrArg List.length (ring.walk_eq nodes)
  simp only [Links.walk, first, again, reduceCtorEq, if_false, List.length_cons] at walked
  omega

end LabKernel.Ipc
