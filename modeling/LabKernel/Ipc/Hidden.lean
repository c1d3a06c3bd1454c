/-
The message calls without the message lists.

What a call does to the table, the free pages and the processes does not depend on where the
messages of a queue are kept, except for the message it takes.
-/

import LabKernel.Ipc.Custody
import LabKernel.Ipc.Paged

set_option autoImplicit false

namespace LabKernel.Ipc

open Common Transition Rings

def MsgQueue.hidden (msgq : MsgQueue) : MsgQueue := { msgq with qMessage := [] }

def IpcIds.hidden (ids : IpcIds) : IpcIds :=
  { ids with entries := fun slot => (ids.entries slot).map MsgQueue.hidden }

/-- The system whose queues keep their messages elsewhere. -/
def System.hidden (state : System) : System := { state with ids := state.ids.hidden }

section

variable (state : System) (ids : IpcIds)

@[simp]
theorem hidden_proc : state.hidden.proc = state.proc := rfl

@[simp]
theorem hidden_pool : state.hidden.pool = state.pool := rfl

@[simp]
theorem hidden_entries (slot : Fin seqMultiplier) :
    ids.hidden.entries slot = (ids.entries slot).map MsgQueue.hidden := rfl

theorem setEntry_hidden (slot : Fin seqMultiplier) (entry : Option MsgQueue) :
    (state.setEntry slot entry).hidden =
      state.hidden.setEntry slot (entry.map MsgQueue.hidden) := by
  have entries : (fun other =>
      (Function.update state.ids.entries slot entry other).map MsgQueue.hidden) =
      Function.update (fun other => (state.ids.entries other).map MsgQueue.hidden) slot
        (entry.map MsgQueue.hidden) := by
    funext other
    by_cases same : other = slot
    · rw [same, Function.update_self, Function.update_self]
    · rw [Function.update_of_ne same, Function.update_of_ne same]
  unfold System.hidden IpcIds.hidden System.setEntry IpcIds.setEntry
  simp only [entries]

theorem ssWakeup_hidden (procs : List Tid) :
    (ssWakeup state procs).hidden = ssWakeup state.hidden procs := by
  unfold ssWakeup
  induction procs generalizing state with
  | nil => rfl
  | cons proc procs ih => exact ih (state.activate proc)

theorem firstSlot_hidden : ids.hidden.firstSlot (fun entry => entry.isNone) =
    ids.firstSlot (fun entry => entry.isNone) := by
  unfold IpcIds.firstSlot IpcIds.hidden
  simp only [Option.isNone_map]

theorem ipcFindkey_hidden (key : Int) : ipcFindkey ids.hidden key = ipcFindkey ids key := by
  unfold ipcFindkey IpcIds.firstSlot IpcIds.hidden
  simp only [Option.any_map]
  rfl

theorem getMsgq_hidden (msgid : Int) : getMsgq ids.hidden msgid = getMsgq ids msgid := by
  unfold getMsgq
  simp only
  split
  · rfl
  · split
    · rename_i within
      rw [hidden_entries]
      cases ids.entries ⟨(msgid.tmod seqMultiplier).toNat, within⟩ with
      | none => rfl
      | some que => rfl
    · rfl

theorem newque_hidden (key : Int) (allocated : Bool) :
    newque ids.hidden key allocated =
      ((newque ids key allocated).1, (newque ids key allocated).2.hidden) := by
  unfold newque
  cases allocated with
  | false => rfl
  | true =>
      simp only [firstSlot_hidden, if_true]
      cases ids.firstSlot (fun entry => entry.isNone) with
      | none => rfl
      | some slot =>
          simp only [IpcIds.hidden, Prod.mk.injEq, IpcIds.mk.injEq, true_and]
          funext other
          by_cases same : other = slot
          · rw [same, Function.update_self, Function.update_self]
            rfl
          · rw [Function.update_of_ne same, Function.update_of_ne same]

theorem sysMsgget_hidden (key : Int) (msgflg : UInt32) (allocated : Bool) :
    sysMsgget ids.hidden key msgflg allocated =
      ((sysMsgget ids key msgflg allocated).1, (sysMsgget ids key msgflg allocated).2.hidden) := by
  unfold sysMsgget
  rw [ipcFindkey_hidden]
  split
  · exact newque_hidden ids key allocated
  · cases ipcFindkey ids key with
    | none =>
        simp only
        split
        · exact newque_hidden ids key allocated
        · rfl
    | some slot =>
        simp only
        split
        · rfl
        · rw [hidden_entries]
          cases ids.entries slot with
          | none => rfl
          | some que => rfl

theorem msgget_hidden (proc : Tid) (key : Int) (msgflg : UInt32) (allocated : Bool) :
    msgget state.hidden proc key msgflg allocated =
      (msgget state proc key msgflg allocated).map System.hidden := by
  unfold msgget
  rw [hidden_proc]
  cases state.proc proc with
  | running =>
      change Except.ok ({ state.hidden with
        ids := (sysMsgget state.ids.hidden key msgflg allocated).2 }.ret proc
          (sysMsgget state.ids.hidden key msgflg allocated).1) = _
      rw [sysMsgget_hidden]
      rfl
  | sending call awake => rfl
  | receiving call slot awake => rfl

theorem takeMsg_hidden (proc : Tid) (call : ReceiveCall) (letter : Letter) :
    takeMsg state.hidden proc call letter = (takeMsg state proc call letter).map System.hidden := by
  unfold takeMsg
  rw [hidden_pool]
  cases deliver call.msgp letter.toMsg call.msgsz state.pool with
  | none => rfl
  | some delivered => rfl

end

/-! ### Who owns a message -/

def System.lettersAt (state : System) : Place → List Letter
  | .queue slot => queuedOn (state.ids.entries slot)
  | .hand proc => (state.proc proc).inHand
  | .slot proc => (state.proc proc).inSlot
  | .free | .returned => []

def System.Owns (state : System) (letter : Letter) : Prop :=
  ∃ place, letter ∈ state.lettersAt place

def Letter.numbers (letter : Letter) : List Nat := letter.pages.map Page.number

section

variable {state : System} {letter other : Letter} {place : Place} {number : Nat}

theorem Letter.page_mem_numbers : letter.page.number ∈ letter.numbers :=
  List.mem_map_of_mem (List.mem_append_right _ (List.mem_singleton_self _))

theorem Letter.segs_subset (member : number ∈ letter.segs.map Page.number) :
    number ∈ letter.numbers := by
  obtain ⟨seg, inside, rfl⟩ := List.mem_map.mp member
  exact List.mem_map_of_mem (List.mem_append_left _ inside)

theorem lettersAt_holds (member : letter ∈ state.lettersAt place) {token : Token}
    (own : token ∈ letter.tokens) : token ∈ state.holds place := by
  cases place with
  | free => cases member
  | returned => cases member
  | queue slot => exact List.mem_flatMap.mpr ⟨letter, member, own⟩
  | hand proc => exact List.mem_flatMap.mpr ⟨letter, member, own⟩
  | slot proc => exact List.mem_flatMap.mpr ⟨letter, member, own⟩

theorem Letter.page_token (own : number ∈ letter.numbers) : Token.page number ∈ letter.tokens := by
  obtain ⟨page, member, rfl⟩ := List.mem_map.mp own
  exact List.mem_cons_of_mem _ (List.mem_map_of_mem member)

theorem Custody.not_free (custody : Custody state) (owned : state.Owns letter)
    (own : number ∈ letter.numbers) : number ∉ state.pool.map Page.number := by
  intro free
  obtain ⟨place, member⟩ := owned
  obtain ⟨page, pooled, rfl⟩ := List.mem_map.mp free
  have same := custody.exclusive.apart place .free _ (lettersAt_holds member (Letter.page_token own))
    (List.mem_map_of_mem (f := fun page : Page => Token.page page.number) pooled)
  rw [same] at member
  cases member

theorem holds_lettersAt (member : letter ∈ state.lettersAt place) :
    state.holds place = (state.lettersAt place).flatMap Letter.tokens := by
  cases place with
  | free => cases member
  | returned => cases member
  | queue slot => rfl
  | hand proc => rfl
  | slot proc => rfl

/-- A page belongs to one message at one place. -/
theorem Custody.owner (custody : Custody state) {elsewhere : Place}
    (here : letter ∈ state.lettersAt place) (there : other ∈ state.lettersAt elsewhere)
    (own : number ∈ letter.numbers) (shared : number ∈ other.numbers) :
    place = elsewhere ∧ letter = other := by
  have same := custody.exclusive.apart place elsewhere _
    (lettersAt_holds here (Letter.page_token own)) (lettersAt_holds there (Letter.page_token shared))
  refine ⟨same, ?_⟩
  rw [← same] at there
  have once := custody.exclusive.once place
  rw [holds_lettersAt here, List.nodup_flatMap] at once
  have symmetric : Std.Symm (Function.onFun List.Disjoint Letter.tokens) :=
    ⟨fun _ _ disjoint _ here there => disjoint there here⟩
  by_contra different
  have apart := once.2.forall here there different
  exact apart (Letter.page_token own) (Letter.page_token shared)

end

end LabKernel.Ipc
