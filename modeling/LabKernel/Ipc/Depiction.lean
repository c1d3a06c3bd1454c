/-
Pages and links that hold the messages of a system.

Every message is in its own pages, and the rings through the first pages are the lists of the
queues. What a section does to some pages or to one ring leaves the other messages and rings as
they were.
-/

import LabKernel.Ipc.Hidden

set_option autoImplicit false

namespace LabKernel.Ipc

open Common Transition Rings

def Paged.Holds (paged : Paged) (letter : Letter) : Prop :=
  ∀ number ∈ letter.numbers, paged.text number = some letter

/-- The pages and links hold the messages that the lists of the system say. -/
structure Depicts (paged : Paged) (state : System) : Prop where
  hidden : paged.sys = state.hidden
  rings : ∀ slot msgq, state.ids.entries slot = some msgq →
    IsRing paged.links (.head slot) (msgq.qMessage.map Letter.node)
  text : ∀ letter, state.Owns letter → paged.Holds letter

/-- A call comes to the same end with the pages and with the lists, if its loops come to one. -/
def Agrees : Except Stop Paged → Except Stop System → Prop
  | .ok paged, .ok state => Depicts paged state
  | .error .spins, _ => True
  | .error reason, .error other => reason = other
  | .ok _, .error _ => False
  | .error _, .ok _ => False

theorem Agrees.error (reason : Stop) : Agrees (.error reason) (.error reason) := by
  cases reason <;> first | exact True.intro | exact rfl

section

variable {paged after : Paged} {state next : System} {letter other : Letter} {number : Nat}
  {proc : Tid} {slot : Fin seqMultiplier} {msgq : MsgQueue}

theorem Paged.Holds.read (held : paged.Holds letter) :
    paged.read letter.page.number = .ok letter := by
  unfold Paged.read
  rw [held _ Letter.page_mem_numbers]
  apply if_pos
  refine ⟨rfl, ?_⟩
  intro seg member
  rw [held _ (Letter.segs_subset (List.mem_map_of_mem member))]
  rfl

theorem Depicts.entry (depicts : Depicts paged state) (slot : Fin seqMultiplier) :
    paged.sys.ids.entries slot = (state.ids.entries slot).map MsgQueue.hidden := by
  rw [depicts.hidden]
  rfl

theorem Depicts.proc_eq (depicts : Depicts paged state) : paged.sys.proc = state.proc := by
  rw [depicts.hidden]
  rfl

theorem Depicts.pool_eq (depicts : Depicts paged state) : paged.sys.pool = state.pool := by
  rw [depicts.hidden]
  rfl

theorem Depicts.getMsgq_eq (depicts : Depicts paged state) (msgid : Int) :
    getMsgq paged.sys.ids msgid = getMsgq state.ids msgid := by
  rw [depicts.hidden]
  exact getMsgq_hidden state.ids msgid

theorem queuedOn_mem (live : state.ids.entries slot = some msgq) (member : letter ∈ msgq.qMessage) :
    letter ∈ state.lettersAt (.queue slot) := by
  simp only [System.lettersAt, live, queuedOn]
  exact member

/-- The messages of another state, where each queue and each process has none that the first
state did not have. -/
theorem owns_of_moved (queues : ∀ slot msgq, next.ids.entries slot = some msgq →
      ∀ letter ∈ msgq.qMessage, state.Owns letter)
    (procs : ∀ proc letter, letter ∈ (next.proc proc).inHand ∨ letter ∈ (next.proc proc).inSlot →
      state.Owns letter) : ∀ letter, next.Owns letter → state.Owns letter := by
  rintro letter ⟨place, member⟩
  cases place with
  | free => cases member
  | returned => cases member
  | queue slot =>
      cases live : next.ids.entries slot with
      | none =>
          simp only [System.lettersAt, live, queuedOn] at member
          cases member
      | some msgq =>
          simp only [System.lettersAt, live, queuedOn] at member
          exact queues slot msgq live letter member
  | hand proc => exact procs proc letter (Or.inl member)
  | slot proc => exact procs proc letter (Or.inr member)

/-- A process goes where it has no more messages than before. -/
theorem procs_of_update (current : ProcState)
    (procs : next.proc = Function.update state.proc proc current)
    (hand : ∀ letter ∈ current.inHand, letter ∈ (state.proc proc).inHand)
    (slot : ∀ letter ∈ current.inSlot, letter ∈ (state.proc proc).inSlot) :
    ∀ (other : Tid) (letter : Letter),
      letter ∈ (next.proc other).inHand ∨ letter ∈ (next.proc other).inSlot →
        state.Owns letter := by
  intro other letter member
  rw [procs] at member
  by_cases same : other = proc
  · rw [same, Function.update_self] at member
    rcases member with here | here
    · exact ⟨.hand proc, hand letter here⟩
    · exact ⟨.slot proc, slot letter here⟩
  · rw [Function.update_of_ne same] at member
    rcases member with here | here
    · exact ⟨.hand other, here⟩
    · exact ⟨.slot other, here⟩

theorem procs_of_empty (current : ProcState)
    (procs : next.proc = Function.update state.proc proc current) (hand : current.inHand = [])
    (slot : current.inSlot = []) (other : Tid) (letter : Letter)
    (member : letter ∈ (next.proc other).inHand ∨ letter ∈ (next.proc other).inSlot) :
    state.Owns letter := by
  refine procs_of_update current procs ?_ ?_ other letter member
  · rw [hand]
    exact fun _ impossible => absurd impossible List.not_mem_nil
  · rw [slot]
    exact fun _ impossible => absurd impossible List.not_mem_nil

theorem owns_queued (live : state.ids.entries slot = some msgq) :
    ∀ letter ∈ msgq.qMessage, state.Owns letter :=
  fun _ member => ⟨.queue slot, queuedOn_mem live member⟩

/-! ### What a section changes -/

theorem Depicts.outside (depicts : Depicts paged state) (numbers : List Nat)
    (apart : ∀ letter, next.Owns letter → ∀ number ∈ letter.numbers, number ∉ numbers)
    (hidden : after.sys = next.hidden)
    (links : ∀ node, node ∉ numbers.map .page → Untouched paged.links after.links node)
    (text : ∀ number, number ∉ numbers → after.text number = paged.text number)
    (queued : ∀ slot msgq, next.ids.entries slot = some msgq →
      ∃ old, state.ids.entries slot = some old ∧ msgq.qMessage = old.qMessage)
    (owns : ∀ letter, next.Owns letter → state.Owns letter) : Depicts after next := by
  constructor
  · exact hidden
  · intro slot msgq live
    obtain ⟨old, before, same⟩ := queued slot msgq live
    have ring := depicts.rings slot old before
    rw [← same] at ring
    apply ring.frame
    intro node member
    apply links
    intro taken
    obtain ⟨number, free, rfl⟩ := List.mem_map.mp taken
    rcases List.mem_cons.mp member with impossible | inside
    · cases impossible
    · obtain ⟨letter, listed, place⟩ := List.mem_map.mp inside
      rw [← MsgNode.page.inj place] at free
      exact apart letter ⟨.queue slot, queuedOn_mem live listed⟩ _ Letter.page_mem_numbers free
  · intro letter owned number own
    rw [text number (apart letter owned number own)]
    exact depicts.text letter (owns letter owned) number own

theorem Depicts.quiet (depicts : Depicts paged state) (hidden : after.sys = next.hidden)
    (links : after.links = paged.links) (text : after.text = paged.text)
    (queued : ∀ slot msgq, next.ids.entries slot = some msgq →
      ∃ old, state.ids.entries slot = some old ∧ msgq.qMessage = old.qMessage)
    (owns : ∀ letter, next.Owns letter → state.Owns letter) : Depicts after next := by
  constructor
  · exact hidden
  · intro slot msgq live
    obtain ⟨old, before, same⟩ := queued slot msgq live
    rw [links, same]
    exact depicts.rings slot old before
  · intro letter owned number own
    rw [text]
    exact depicts.text letter (owns letter owned) number own

theorem Depicts.changed (depicts : Depicts paged state) (slot : Fin seqMultiplier)
    (hidden : after.sys = next.hidden)
    (others : ∀ other msgq, other ≠ slot → next.ids.entries other = some msgq →
      state.ids.entries other = some msgq ∧
        ∀ node ∈ MsgNode.head other :: msgq.qMessage.map Letter.node,
          Untouched paged.links after.links node)
    (ring : ∀ msgq, next.ids.entries slot = some msgq →
      IsRing after.links (.head slot) (msgq.qMessage.map Letter.node))
    (text : ∀ letter, next.Owns letter → after.Holds letter) : Depicts after next := by
  constructor
  · exact hidden
  · intro other msgq live
    by_cases same : other = slot
    · rw [same] at live ⊢
      exact ring msgq live
    · obtain ⟨before, untouched⟩ := others other msgq same live
      exact (depicts.rings other msgq before).frame untouched
  · exact text

theorem Custody.node_elsewhere (custody : Custody state) {place : Place}
    (here : letter ∈ state.lettersAt place) (live : state.ids.entries slot = some msgq)
    (apart : place ≠ .queue slot) :
    letter.node ∉ MsgNode.head slot :: msgq.qMessage.map Letter.node := by
  intro member
  rcases List.mem_cons.mp member with impossible | inside
  · cases impossible
  · obtain ⟨other, listed, same⟩ := List.mem_map.mp inside
    have shared : letter.page.number ∈ other.numbers := by
      rw [← MsgNode.page.inj same]
      exact Letter.page_mem_numbers
    exact apart (custody.owner here (queuedOn_mem live listed) Letter.page_mem_numbers shared).1

theorem Custody.rings_apart (custody : Custody state) {elsewhere : Fin seqMultiplier}
    {others : MsgQueue} (live : state.ids.entries slot = some msgq)
    (there : state.ids.entries elsewhere = some others) (apart : elsewhere ≠ slot) :
    ∀ node ∈ MsgNode.head elsewhere :: others.qMessage.map Letter.node,
      node ∉ MsgNode.head slot :: msgq.qMessage.map Letter.node := by
  intro node member
  rcases List.mem_cons.mp member with head | inside
  · rw [head]
    intro again
    rcases List.mem_cons.mp again with same | impossible
    · exact apart (MsgNode.head.inj same)
    · obtain ⟨letter, -, paged⟩ := List.mem_map.mp impossible
      cases paged
  · obtain ⟨letter, listed, rfl⟩ := List.mem_map.mp inside
    apply custody.node_elsewhere (queuedOn_mem there listed) live
    exact fun same => apart (Place.queue.inj same)

end

end LabKernel.Ipc
