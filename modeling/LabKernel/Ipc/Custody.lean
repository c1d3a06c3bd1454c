/-
Where messages are.

A message, with its pages, is at one place at a time: in the hands of its sender, on a
queue, in the slot of a receiver, or returned; a page that belongs to no message is
free.
-/

import LabKernel.Ipc.Seats
import LabKernel.Lib.Ownership

set_option autoImplicit false

namespace LabKernel.Ipc

open Common Transition Ownership

/-! ### Places of messages and pages -/

inductive Token where
  | page (number : Nat)
  | serial (number : Nat)
  deriving DecidableEq, Repr

inductive Place where
  | free
  | queue (slot : Fin seqMultiplier)
  | hand (proc : Tid)
  | slot (proc : Tid)
  | returned
  deriving DecidableEq, Repr

def pageTokens (pages : List Page) : List Token := pages.map (fun page => .page page.number)

def Letter.tokens (letter : Letter) : List Token :=
  .serial letter.serial :: pageTokens letter.pages

/-- The message a send has not given away. -/
def ProcState.inHand : ProcState → List Letter
  | .sending call _ => [call.letter]
  | _ => []

/-- The message a receive has been handed. -/
def ProcState.inSlot : ProcState → List Letter
  | .receiving _ (.message letter) _ => [letter]
  | _ => []

def queuedOn : Option MsgQueue → List Letter
  | none => []
  | some msgq => msgq.qMessage

def Event.received? : Event → Option Nat
  | .received _ _ serial => some serial
  | _ => none

def System.holds (state : System) : Place → List Token
  | .free => pageTokens state.pool
  | .queue slot => (queuedOn (state.ids.entries slot)).flatMap Letter.tokens
  | .hand proc => (state.proc proc).inHand.flatMap Letter.tokens
  | .slot proc => (state.proc proc).inSlot.flatMap Letter.tokens
  | .returned => (state.history.filterMap Event.received?).map .serial

structure Custody (state : System) : Prop where
  exclusive : Exclusive state.holds
  numbered : ∀ place serial, .serial serial ∈ state.holds place → serial < state.calls

theorem ProcState.inHand_activate (current : ProcState) :
    current.activate.inHand = current.inHand := by
  cases current <;> rfl

theorem ProcState.inSlot_activate (current : ProcState) :
    current.activate.inSlot = current.inSlot := by
  cases current with
  | running => rfl
  | sending call awake => rfl
  | receiving call slot awake => cases slot <;> rfl

section

variable (token : Token)

theorem count_tokens (letter : Letter) :
    letter.tokens.count token =
      (pageTokens letter.pages).count token + [Token.serial letter.serial].count token := by
  unfold Letter.tokens
  rw [← List.singleton_append, List.count_append]
  omega

theorem count_freeMsg (msg : Msg) (pool : List Page) :
    (pageTokens (freeMsg msg pool)).count token =
      (pageTokens msg.pages).count token + (pageTokens pool).count token := by
  unfold pageTokens freeMsg
  rw [List.map_append, List.count_append, List.map_reverse, List.count_reverse]

theorem count_freeAll (letters : List Letter) (pool : List Page) :
    (pageTokens (letters.foldl (fun pool letter => freeMsg letter.toMsg pool) pool)).count token ≤
      (letters.flatMap Letter.tokens).count token + (pageTokens pool).count token := by
  induction letters generalizing pool with
  | nil => exact Nat.le_add_left _ _
  | cons letter letters ih =>
      have rest := ih (freeMsg letter.toMsg pool)
      rw [count_freeMsg] at rest
      have here := count_tokens token letter
      rw [List.foldl_cons, List.flatMap_cons, List.count_append]
      omega

/-- The first message with a number is the one that has it, where numbers are not repeated. -/
theorem eraseP_split {letters : List Letter} {found : Letter} (member : found ∈ letters)
    (unrepeated : (letters.flatMap Letter.tokens).Nodup) : ∃ before behind,
      letters = before ++ found :: behind ∧
        letters.eraseP (fun msg => msg.serial = found.serial) = before ++ behind := by
  obtain ⟨first, before, later, _, hit, split, erased⟩ :=
    List.exists_of_eraseP (p := fun msg => decide (msg.serial = found.serial)) member
      (decide_eq_true rfl)
  have same : found = first := by
    rw [split, List.mem_append, List.mem_cons] at member
    rw [split, List.flatMap_append, List.flatMap_cons] at unrepeated
    have serial : Token.serial found.serial ∈ first.tokens := by
      rw [← of_decide_eq_true hit]
      exact List.mem_cons_self
    have own : Token.serial found.serial ∈ found.tokens := List.mem_cons_self
    rcases member with earlier | same | after
    · exact absurd (List.mem_append_left _ serial)
        (List.disjoint_of_nodup_append unrepeated (List.mem_flatMap.mpr ⟨found, earlier, own⟩))
    · exact same
    · exact absurd (List.mem_flatMap.mpr ⟨found, after, own⟩)
        (List.disjoint_of_nodup_append (List.Nodup.of_append_right unrepeated) serial)
  rw [← same] at split
  exact ⟨before, later, split, erased⟩

theorem count_eraseP {letters : List Letter} {found : Letter} (member : found ∈ letters)
    (unrepeated : (letters.flatMap Letter.tokens).Nodup) :
    ((letters.eraseP (fun msg => msg.serial = found.serial)).flatMap Letter.tokens).count token +
      found.tokens.count token = (letters.flatMap Letter.tokens).count token := by
  obtain ⟨before, later, split, erased⟩ := eraseP_split member unrepeated
  rw [erased, split]
  simp only [List.flatMap_append, List.flatMap_cons, List.count_append]
  omega

end

namespace Custody

variable {state after : System}

/-- A step moves messages and pages among the free pages, one queue, one sender, one slot and
what has been returned, and holds none of them twice. -/
theorem move (custody : Custody state) (slot : Fin seqMultiplier) (sender receiver : Tid)
    (entries : ∀ other, other ≠ slot →
      queuedOn (after.ids.entries other) = queuedOn (state.ids.entries other))
    (hands : ∀ other, other ≠ sender → (after.proc other).inHand = (state.proc other).inHand)
    (slots : ∀ other, other ≠ receiver → (after.proc other).inSlot = (state.proc other).inSlot)
    (calls : state.calls ≤ after.calls)
    (shared : ∀ token, (after.holds .free).count token + (after.holds (.queue slot)).count token +
        (after.holds (.hand sender)).count token + (after.holds (.slot receiver)).count token +
        (after.holds .returned).count token ≤
      (state.holds .free).count token + (state.holds (.queue slot)).count token +
        (state.holds (.hand sender)).count token + (state.holds (.slot receiver)).count token +
        (state.holds .returned).count token) : Custody after := by
  have others : ∀ place, place ∉ [Place.free, .queue slot, .hand sender, .slot receiver,
      .returned] → after.holds place = state.holds place := by
    intro place outside
    simp only [List.mem_cons, List.not_mem_nil, or_false, not_or] at outside
    cases place with
    | free => exact absurd rfl outside.1
    | queue other =>
        have elsewhere : other ≠ slot := fun same => outside.2.1 (congrArg Place.queue same)
        simp only [System.holds, entries other elsewhere]
    | hand other =>
        have elsewhere : other ≠ sender := fun same => outside.2.2.1 (congrArg Place.hand same)
        simp only [System.holds, hands other elsewhere]
    | slot other =>
        have elsewhere : other ≠ receiver := fun same => outside.2.2.2.1 (congrArg Place.slot same)
        simp only [System.holds, slots other elsewhere]
    | returned => exact absurd rfl outside.2.2.2.2
  have subperm : ([Place.free, .queue slot, .hand sender, .slot receiver, .returned].flatMap
      after.holds).Subperm ([Place.free, .queue slot, .hand sender, .slot receiver,
      .returned].flatMap state.holds) := by
    rw [List.subperm_ext_iff]
    intro token _
    have bound := shared token
    simp only [List.flatMap_cons, List.flatMap_nil, List.count_append, List.count_nil]
    omega
  constructor
  · exact custody.exclusive.redistribute _ (by simp) others subperm
  · intro place serial held
    by_cases inside : place ∈ [Place.free, .queue slot, .hand sender, .slot receiver, .returned]
    · obtain ⟨before, _, there⟩ := List.mem_flatMap.mp
        (subperm.subset (List.mem_flatMap.mpr ⟨place, inside, held⟩))
      exact Nat.lt_of_lt_of_le (custody.numbered before serial there) calls
    · rw [others place inside] at held
      exact Nat.lt_of_lt_of_le (custody.numbered place serial held) calls

theorem count_pages {left right : List Page} (token : Token)
    (perm : (left.map Page.number).Perm (right.map Page.number)) :
    (pageTokens left).count token = (pageTokens right).count token := by
  have tokens := (perm.map Token.page).count_eq token
  rw [List.map_map, List.map_map] at tokens
  exact tokens

theorem inHand_update {procs : Tid → ProcState} {proc : Tid} {next : ProcState} :
    ∀ other, other ≠ proc → (Function.update procs proc next other).inHand = (procs other).inHand := by
  intro other different
  rw [Function.update_of_ne different]

theorem inSlot_update {procs : Tid → ProcState} {proc : Tid} {next : ProcState} :
    ∀ other, other ≠ proc → (Function.update procs proc next other).inSlot = (procs other).inSlot := by
  intro other different
  rw [Function.update_of_ne different]

theorem queuedOn_update {entries : Fin seqMultiplier → Option MsgQueue} {slot : Fin seqMultiplier}
    {entry : Option MsgQueue} :
    ∀ other, other ≠ slot →
      queuedOn (Function.update entries slot entry other) = queuedOn (entries other) := by
  intro other different
  rw [Function.update_of_ne different]

theorem queuedOn_replaced {entries : Fin seqMultiplier → Option MsgQueue}
    {slot : Fin seqMultiplier} {entry : Option MsgQueue}
    (same : queuedOn entry = queuedOn (entries slot)) :
    ∀ other, queuedOn (Function.update entries slot entry other) = queuedOn (entries other) := by
  intro other
  by_cases here : other = slot
  · rw [here, Function.update_self, same]
  · exact queuedOn_update other here

/-- A process moves without a message, and nothing else does. -/
theorem quiet (custody : Custody state) {proc : Tid} {next : ProcState}
    (procs : after.proc = Function.update state.proc proc next)
    (hand : next.inHand = (state.proc proc).inHand) (slot : next.inSlot = (state.proc proc).inSlot)
    (entries : ∀ other, queuedOn (after.ids.entries other) = queuedOn (state.ids.entries other))
    (pool : (after.pool.map Page.number).Perm (state.pool.map Page.number))
    (calls : after.calls = state.calls)
    (history : after.history.filterMap Event.received? =
      state.history.filterMap Event.received?) : Custody after := by
  refine custody.move ⟨0, by decide⟩ proc proc (fun other _ => entries other) ?_ ?_
    (Nat.le_of_eq calls.symm) ?_
  · rw [procs]
    exact inHand_update
  · rw [procs]
    exact inSlot_update
  · intro token
    have pages := count_pages token pool
    simp only [System.holds, procs, Function.update_self, hand, slot, entries, history]
    omega

/-- A fresh number and some free pages make a message in the hands of its sender. -/
theorem loaded (custody : Custody state) {proc : Tid} {call : SendCall}
    (idle : state.proc proc = .running) (numbered : call.letter.serial = state.calls)
    (taken : (call.letter.pages.map Page.number ++ after.pool.map Page.number).Perm
      (state.pool.map Page.number))
    (procs : after.proc = Function.update state.proc proc (.sending call true))
    (ids : after.ids = state.ids) (calls : after.calls = state.calls + 1)
    (history : after.history = state.history) : Custody after := by
  have fresh : ∀ place, Token.serial state.calls ∉ state.holds place := by
    intro place held
    exact Nat.lt_irrefl _ (custody.numbered place state.calls held)
  have others : ∀ place, place ∉ [Place.free, .hand proc] →
      after.holds place = state.holds place := by
    intro place outside
    simp only [List.mem_cons, List.not_mem_nil, or_false, not_or] at outside
    cases place with
    | free => exact absurd rfl outside.1
    | queue other => simp only [System.holds, ids]
    | hand other =>
        have elsewhere : other ≠ proc := fun same => outside.2 (congrArg Place.hand same)
        simp only [System.holds, procs, Function.update_of_ne elsewhere]
    | slot other =>
        by_cases same : other = proc
        · simp only [System.holds, procs, same, Function.update_self, idle, ProcState.inSlot]
        · simp only [System.holds, procs, Function.update_of_ne same]
    | returned => simp only [System.holds, history]
  have perm : (pageTokens call.letter.pages ++ pageTokens after.pool).Perm
      (pageTokens state.pool) := by
    have tokens := taken.map Token.page
    rw [List.map_append, List.map_map, List.map_map, List.map_map] at tokens
    exact tokens
  have before : state.holds .free = pageTokens state.pool := rfl
  have free : after.holds .free = pageTokens after.pool := rfl
  have hand : after.holds (.hand proc) = call.letter.tokens := by
    simp only [System.holds, procs, Function.update_self, ProcState.inHand, List.flatMap_cons,
      List.flatMap_nil, List.append_nil]
  have empty : state.holds (.hand proc) = [] := by
    simp only [System.holds, idle, ProcState.inHand, List.flatMap_nil]
  constructor
  · refine (custody.exclusive.insert fresh (.hand proc)).redistribute [.free, .hand proc] (by simp)
      ?_ ?_
    · intro place outside
      rw [others place outside, Function.update_of_ne]
      intro same
      exact outside (same ▸ List.mem_cons_of_mem _ List.mem_cons_self)
    · rw [List.subperm_ext_iff]
      intro token _
      have pages := perm.count_eq token
      have letter := count_tokens token call.letter
      rw [List.count_append] at pages
      simp only [List.flatMap_cons, List.flatMap_nil, List.append_nil, List.count_append,
        Function.update_self, ne_eq, reduceCtorEq, not_false_eq_true, Function.update_of_ne, empty,
        before, free, hand, letter, numbered]
      omega
  · intro place serial held
    rw [calls]
    by_cases inside : place ∈ [Place.free, .hand proc]
    · simp only [List.mem_cons, List.not_mem_nil, or_false] at inside
      rcases inside with rfl | rfl
      · obtain ⟨page, _, impossible⟩ := List.mem_map.mp held
        cases impossible
      · rw [hand] at held
        rcases List.mem_cons.mp held with same | paged
        · rw [Token.serial.inj same, numbered]
          exact Nat.lt_succ_self _
        · obtain ⟨page, _, impossible⟩ := List.mem_map.mp paged
          cases impossible
    · rw [others place inside] at held
      exact Nat.lt_succ_of_lt (custody.numbered place serial held)

theorem refused (custody : Custody state) {proc : Tid} {call : SendCall} {awake : Bool} (err : Int)
    (located : state.proc proc = .sending call awake) :
    Custody (refuse state proc call.letter err) := by
  refine custody.move ⟨0, by decide⟩ proc proc (fun _ _ => rfl) inHand_update inSlot_update
    (Nat.le_refl _) ?_
  intro token
  have freed := count_freeMsg token call.letter.toMsg state.pool
  have letter := count_tokens token call.letter
  simp only [refuse, System.ret, System.goto, System.record, System.holds, Function.update_self,
    located, ProcState.inHand, ProcState.inSlot, List.flatMap_cons, List.flatMap_nil,
    List.append_nil, List.count_nil, List.filterMap_append, List.filterMap_cons,
    List.filterMap_nil, Event.received?]
  omega

theorem queued (custody : Custody state) {proc : Tid} {call : SendCall} {awake : Bool}
    {slot : Fin seqMultiplier} {old new : MsgQueue} (located : state.proc proc = .sending call awake)
    (live : state.ids.entries slot = some old)
    (letters : new.qMessage = old.qMessage ++ [call.letter]) :
    Custody (((state.setEntry slot (some new)).goto proc .running).record
      [.accepted slot call.letter.serial call.letter.mtype]) := by
  refine custody.move slot proc proc queuedOn_update inHand_update inSlot_update (Nat.le_refl _) ?_
  intro token
  simp only [System.setEntry, IpcIds.setEntry, System.goto, System.record, System.holds,
    Function.update_self, located, live, queuedOn, letters, ProcState.inHand, ProcState.inSlot,
    List.flatMap_append, List.flatMap_cons, List.flatMap_nil, List.append_nil, List.count_append,
    List.count_nil, List.filterMap_append, List.filterMap_cons, List.filterMap_nil,
    Event.received?]
  omega

theorem piped (custody : Custody state) {proc : Tid} {call : SendCall} {receive : ReceiveCall}
    {slot : Fin seqMultiplier} {old new : MsgQueue} {rcver : Receiver}
    (located : state.proc proc = .sending call true) (live : state.ids.entries slot = some old)
    (asleep : state.proc rcver.proc = .receiving receive .unassigned false)
    (letters : new.qMessage = old.qMessage) :
    Custody ((((state.setEntry slot (some new)).goto proc .running).hand (.message call.letter)
      rcver.proc).record [.accepted slot call.letter.serial call.letter.mtype,
        .handed slot rcver.proc rcver.mtype call.letter.serial]) := by
  have different : rcver.proc ≠ proc := by
    intro same
    rw [same, located] at asleep
    cases asleep
  refine custody.move slot proc rcver.proc queuedOn_update ?_ ?_ (Nat.le_refl _) ?_
  · intro other elsewhere
    by_cases served : other = rcver.proc
    · simp only [System.record, System.hand, System.goto, System.setEntry, served,
        Function.update_self, Function.update_of_ne different, asleep]
      rfl
    · simp only [System.record, System.hand, System.goto, System.setEntry,
        Function.update_of_ne served, Function.update_of_ne elsewhere]
  · intro other elsewhere
    by_cases sends : other = proc
    · simp only [System.record, System.hand, System.goto, System.setEntry, sends,
        Function.update_of_ne different.symm, Function.update_self, located]
      rfl
    · simp only [System.record, System.hand, System.goto, System.setEntry,
        Function.update_of_ne elsewhere, Function.update_of_ne sends]
  · intro token
    simp only [System.setEntry, IpcIds.setEntry, System.goto, System.hand, System.record,
      System.holds, Function.update_self, Function.update_of_ne different,
      Function.update_of_ne different.symm, located, asleep, live, queuedOn, letters,
      ProcState.assign, ProcState.activate, ProcState.inHand, ProcState.inSlot, List.flatMap_cons,
      List.flatMap_nil, List.append_nil, List.count_nil, List.filterMap_append,
      List.filterMap_cons, List.filterMap_nil, Event.received?]
    omega

theorem taken (custody : Custody state) {proc : Tid} {mtype value : Int}
    {slot : Fin seqMultiplier} {old new : MsgQueue} {found : Letter} (woken : List Tid)
    (idle : state.proc proc = .running) (live : state.ids.entries slot = some old)
    (member : found ∈ old.qMessage)
    (letters : new.qMessage = old.qMessage.eraseP (fun msg => msg.serial = found.serial)) :
    Custody ((({ ssWakeup (state.setEntry slot (some new)) woken with
      pool := freeMsg found.toMsg state.pool }).goto proc .running).record
        [.handed slot proc mtype found.serial, .received proc mtype found.serial,
          .returned proc value]) := by
  have unrepeated : (old.qMessage.flatMap Letter.tokens).Nodup := by
    have once := custody.exclusive.once (.queue slot)
    simp only [System.holds, live, queuedOn] at once
    exact once
  apply custody.move slot proc proc
  · simp only [System.goto, System.record, ssWakeup_ids]
    exact queuedOn_update
  · intro other different
    simp only [System.goto, System.record, Function.update_of_ne different, ssWakeup_proc]
    split
    · exact ProcState.inHand_activate _
    · rfl
  · intro other different
    simp only [System.goto, System.record, Function.update_of_ne different, ssWakeup_proc]
    split
    · exact ProcState.inSlot_activate _
    · rfl
  · change state.calls ≤ (ssWakeup _ _).calls
    rw [ssWakeup_calls]
    exact Nat.le_refl _
  · intro token
    have freed := count_freeMsg token found.toMsg state.pool
    have letter := count_tokens token found
    have erased := count_eraseP token member unrepeated
    simp only [System.goto, System.record, System.holds, ssWakeup_ids, ssWakeup_history, System.setEntry,
      IpcIds.setEntry, Function.update_self, idle, live, queuedOn, letters, ProcState.inHand,
      ProcState.inSlot, List.flatMap_nil, List.count_nil, List.filterMap_append,
      List.filterMap_cons, List.filterMap_nil, Event.received?, List.map_append, List.map_cons,
      List.map_nil, List.count_append]
    omega

theorem resumed (custody : Custody state) {proc : Tid} {call : ReceiveCall} {letter : Letter}
    {value : Int} (located : state.proc proc = .receiving call (.message letter) true) :
    Custody (({ state with pool := freeMsg letter.toMsg state.pool }.goto proc .running).record
      [.received proc call.mtype letter.serial, .returned proc value]) := by
  refine custody.move ⟨0, by decide⟩ proc proc (fun _ _ => rfl) inHand_update inSlot_update
    (Nat.le_refl _) ?_
  intro token
  have freed := count_freeMsg token letter.toMsg state.pool
  have tokens := count_tokens token letter
  simp only [System.goto, System.record, System.holds, Function.update_self, located,
    ProcState.inHand, ProcState.inSlot, List.flatMap_cons, List.flatMap_nil, List.append_nil,
    List.count_nil, List.filterMap_append, List.filterMap_cons, List.filterMap_nil,
    Event.received?, List.map_append, List.map_cons, List.map_nil, List.count_append]
  omega

end Custody

theorem freeMsgq_frame (state : System) (slot : Fin seqMultiplier) (msgq : MsgQueue) :
    (freeMsgq state slot msgq).1.pool =
        msgq.qMessage.foldl (fun pool letter => freeMsg letter.toMsg pool) state.pool ∧
      (freeMsgq state slot msgq).1.calls = state.calls ∧
      (freeMsgq state slot msgq).1.history = state.history ∧
      ∀ proc, (freeMsgq state slot msgq).1.proc proc =
        if proc ∈ msgq.qReceiver.map Receiver.proc then (state.proc proc).activate
        else state.proc proc := by
  refine ⟨?_, ssWakeup_calls _ _, ssWakeup_history _ _, ?_⟩
  · change msgq.qMessage.foldl _ (ssWakeup _ _).pool = _
    rw [ssWakeup_pool]
    rfl
  · intro proc
    exact ssWakeup_proc (state.setEntry slot none) _ proc

namespace Custody

variable {state after : System}

theorem removed (custody : Custody state) {proc : Tid} {slot : Fin seqMultiplier} {msgq : MsgQueue}
    (idle : state.proc proc = .running) (live : state.ids.entries slot = some msgq) :
    Custody ((freeMsgq state slot msgq).1.ret proc 0) := by
  obtain ⟨pool, calls, history, procs⟩ := freeMsgq_frame state slot msgq
  have entries := freeMsgq_entries state slot msgq
  apply custody.move slot proc proc
  · simp only [System.ret, System.goto, System.record, entries]
    exact queuedOn_update
  · intro other different
    simp only [System.ret, System.goto, System.record, Function.update_of_ne different, procs]
    split
    · exact ProcState.inHand_activate _
    · rfl
  · intro other different
    simp only [System.ret, System.goto, System.record, Function.update_of_ne different, procs]
    split
    · exact ProcState.inSlot_activate _
    · rfl
  · exact Nat.le_of_eq calls.symm
  · intro token
    have freed := count_freeAll token msgq.qMessage state.pool
    simp only [System.ret, System.goto, System.record, System.holds, entries, pool, history,
      Function.update_self, idle, live, queuedOn, ProcState.inHand, ProcState.inSlot,
      List.flatMap_nil, List.count_nil, List.filterMap_append, List.filterMap_cons,
      List.filterMap_nil, Event.received?, List.append_nil]
    omega

theorem step (custody : Custody state) (seated : Seated state) {action : Action}
    (outcome : Outcome state action after) : Custody after := by
  cases outcome with
  | returned proc value pool idle kept =>
      refine custody.quiet rfl ?_ ?_ (fun _ => rfl) kept rfl ?_
      · rw [idle]
      · rw [idle]
      · exact List.filterMap_append.trans (List.append_nil _)
  | created proc slot idle free =>
      refine custody.quiet rfl ?_ ?_ ?_ (List.Perm.refl _) rfl ?_
      · rw [idle]
      · rw [idle]
      · apply queuedOn_replaced
        rw [free]
        rfl
      · exact List.filterMap_append.trans (List.append_nil _)
  | loaded proc call pool idle numbered taken =>
      exact custody.loaded idle numbered taken rfl rfl rfl rfl
  | refused proc call err located => exact custody.refused err located
  | slept proc call slot msgq located addressed live full =>
      refine custody.quiet rfl ?_ ?_ ?_ (List.Perm.refl _) rfl rfl
      · rw [located]
        rfl
      · rw [located]
        rfl
      · apply queuedOn_replaced
        rw [live]
        rfl
  | queued proc call slot msgq located addressed live room nobody =>
      exact custody.queued located live rfl
  | piped proc call slot msgq before later rcver located addressed live room waiting wanted fits =>
      have member : rcver ∈ msgq.qReceiver := by
        rw [waiting]
        exact List.mem_append_right _ List.mem_cons_self
      obtain ⟨receive, asleep, _⟩ := seated.receivers slot msgq live rcver member
      exact custody.piped located live asleep rfl
  | taken proc slot msgq found pool value idle addressed live hit freed =>
      subst freed
      have member : found ∈ msgq.qMessage := by
        rcases searchLoop_mem hit with member | impossible
        · exact member
        · cases impossible
      exact custody.taken msgq.qSender idle live member rfl
  | waited proc slot msgq call idle addressed live nothing =>
      refine custody.quiet rfl ?_ ?_ ?_ (List.Perm.refl _) rfl rfl
      · rw [idle]
        rfl
      · rw [idle]
        rfl
      · apply queuedOn_replaced
        rw [live]
        rfl
  | resumed proc call letter pool value located freed =>
      subst freed
      exact custody.resumed located
  | dismissed proc call located =>
      refine custody.quiet rfl ?_ ?_ (fun _ => rfl) (List.Perm.refl _) rfl ?_
      · rw [located]
        rfl
      · rw [located]
        rfl
      · exact List.filterMap_append.trans (List.append_nil _)
  | removed proc slot msgq idle addressed live => exact custody.removed idle live

theorem initial {pool : List Page} (distinct : (pool.map Page.number).Nodup) :
    Custody (System.initial pool) := by
  have empty : ∀ place, place ≠ .free → (System.initial pool).holds place = [] := by
    intro place elsewhere
    cases place with
    | free => exact absurd rfl elsewhere
    | queue slot => rfl
    | hand proc => rfl
    | slot proc => rfl
    | returned => rfl
  have free : (System.initial pool).holds .free = (pool.map Page.number).map Token.page := by
    rw [List.map_map]
    rfl
  constructor
  · constructor
    · intro place
      by_cases pooled : place = .free
      · rw [pooled, free]
        exact distinct.map (fun _ _ same => Token.page.inj same)
      · rw [empty place pooled]
        exact List.nodup_nil
    · intro left right token here there
      by_cases leftFree : left = .free <;> by_cases rightFree : right = .free
      · exact leftFree.trans rightFree.symm
      · rw [empty right rightFree] at there
        cases there
      · rw [empty left leftFree] at here
        cases here
      · rw [empty left leftFree] at here
        cases here
  · intro place serial held
    by_cases pooled : place = .free
    · rw [pooled, free] at held
      obtain ⟨number, _, impossible⟩ := List.mem_map.mp held
      cases impossible
    · rw [empty place pooled] at held
      cases held

end Custody

theorem custody_of_reachable {pool : List Page} (distinct : (pool.map Page.number).Nodup)
    {state : System} (reached : Reachable ipcStep (System.initial pool) state) :
    Seated state ∧ Custody state := by
  apply reached.invariant (P := fun state => Seated state ∧ Custody state)
  · exact ⟨Seated.initial pool, Custody.initial distinct⟩
  · intro state action after holds taken
    exact ⟨holds.1.step (ipcStep_outcome taken), holds.2.step holds.1 (ipcStep_outcome taken)⟩

end LabKernel.Ipc
