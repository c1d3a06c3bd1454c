/-
The calls on pages and on lists, side by side.

Each section of a call does to the pages what the same section does to the lists, as long as a
receiver that was woken has its slot assigned.
-/

import LabKernel.Ipc.Depiction

set_option autoImplicit false

namespace LabKernel.Ipc

open Common Transition Rings

section

variable {paged after : Paged} {state next : System} {letter other : Letter} {number : Nat}
  {proc : Tid} {slot : Fin seqMultiplier} {msgq : MsgQueue}

/-- A process returns a number. -/
theorem Depicts.ret (depicts : Depicts paged state) (value : Int)
    (sys : after.sys = paged.sys.ret proc value) (links : after.links = paged.links)
    (text : after.text = paged.text) : Depicts after (state.ret proc value) := by
  refine depicts.quiet ?_ links text (fun slot msgq live => ⟨msgq, live, rfl⟩) ?_
  · rw [sys, depicts.hidden]
    rfl
  · exact owns_of_moved (fun slot msgq live => owns_queued live)
      (procs_of_empty .running rfl rfl rfl)

theorem newque_entries (ids : IpcIds) (key : Int) (allocated : Bool) :
    (newque ids key allocated).2 = ids ∨
      ∃ slot que, ids.firstSlot (fun entry => entry.isNone) = some slot ∧ que.qMessage = [] ∧
        (newque ids key allocated).2.entries = Function.update ids.entries slot (some que) := by
  unfold newque
  cases allocated with
  | false => exact Or.inl rfl
  | true =>
      rw [if_pos rfl]
      cases searched : ids.firstSlot (fun entry => entry.isNone) with
      | none => exact Or.inl rfl
      | some slot => exact Or.inr ⟨slot, _, rfl, rfl, rfl⟩

theorem sysMsgget_entries (ids : IpcIds) (key : Int) (msgflg : UInt32) (allocated : Bool) :
    (sysMsgget ids key msgflg allocated).2 = ids ∨
      ∃ slot que, ids.firstSlot (fun entry => entry.isNone) = some slot ∧ que.qMessage = [] ∧
        (sysMsgget ids key msgflg allocated).2.entries =
          Function.update ids.entries slot (some que) := by
  unfold sysMsgget
  split
  · exact newque_entries ids key allocated
  · split
    · split
      · exact newque_entries ids key allocated
      · exact Or.inl rfl
    · split
      · exact Or.inl rfl
      · split
        · exact Or.inl rfl
        · exact Or.inl rfl

theorem initList_hidden (before final : IpcIds) (links : Links MsgNode) :
    initList before.hidden final.hidden links = initList before final links := by
  unfold initList
  rw [firstSlot_hidden]
  simp only [hidden_entries, Option.isSome_map]

theorem initList_same (ids : IpcIds) (links : Links MsgNode) : initList ids ids links = links := by
  unfold initList
  split
  · rfl
  · rename_i slot searched
    have free := List.find?_some searched
    rw [if_neg (by simpa using free)]

theorem msgget_ok {key : Int} {msgflg : UInt32} {allocated : Bool}
    (called : msgget state proc key msgflg allocated = .ok next) :
    next = { state with ids := (sysMsgget state.ids key msgflg allocated).2 }.ret proc
      (sysMsgget state.ids key msgflg allocated).1 := by
  unfold msgget at called
  split at called
  · exact (Except.ok.inj called).symm
  · cases called

theorem Depicts.msgget (depicts : Depicts paged state) (proc : Tid) (key : Int) (msgflg : UInt32)
    (allocated : Bool) : Agrees (paged.msgget proc key msgflg allocated)
      (msgget state proc key msgflg allocated) := by
  unfold Paged.msgget
  rw [depicts.hidden, msgget_hidden]
  cases called : Ipc.msgget state proc key msgflg allocated with
  | error reason => exact Agrees.error reason
  | ok final =>
      have effect := msgget_ok called
      have lists : initList state.hidden.ids final.hidden.ids paged.links =
          initList state.ids (sysMsgget state.ids key msgflg allocated).2 paged.links := by
        rw [effect]
        exact initList_hidden _ _ _
      change Depicts ({ paged with
        sys := final.hidden
        links := initList state.hidden.ids final.hidden.ids paged.links }.cover proc .unassigned)
          final
      rw [lists]
      rcases sysMsgget_entries state.ids key msgflg allocated with
        same | ⟨slot, que, searched, empty, entries⟩
      · rw [same] at effect ⊢
        rw [effect]
        refine depicts.ret (sysMsgget state.ids key msgflg allocated).1 ?_ ?_ rfl
        · rw [depicts.hidden]
          rfl
        · exact initList_same state.ids paged.links
      · have made : initList state.ids (sysMsgget state.ids key msgflg allocated).2 paged.links =
            paged.links.single (.head slot) := by
          unfold initList
          simp only [searched, entries, Function.update_self, Option.isSome_some, if_true]
        have final_entries : final.ids.entries = Function.update state.ids.entries slot (some que) := by
          rw [effect]
          exact entries
        have elsewhere : ∀ other msgq, final.ids.entries other = some msgq → other ≠ slot →
            state.ids.entries other = some msgq := by
          intro other msgq live apart
          rw [final_entries, Function.update_of_ne apart] at live
          exact live
        rw [made]
        apply depicts.changed slot rfl
        · intro other msgq apart live
          refine ⟨elsewhere other msgq live apart, ?_⟩
          intro node member
          have different : node ≠ .head slot := by
            rintro rfl
            rcases List.mem_cons.mp member with same | inside
            · exact apart (MsgNode.head.inj same).symm
            · obtain ⟨letter, -, impossible⟩ := List.mem_map.mp inside
              cases impossible
          exact ⟨Function.update_of_ne different _ _, Function.update_of_ne different _ _⟩
        · intro msgq live
          rw [final_entries, Function.update_self] at live
          rw [← Option.some.inj live, empty]
          exact IsRing.single paged.links (.head slot)
        · intro letter owned
          apply depicts.text
          have procs : final.proc = Function.update state.proc proc .running := by
            rw [effect]
            rfl
          refine owns_of_moved ?_ (procs_of_empty .running procs rfl rfl) letter owned
          intro other msgq live letter member
          by_cases same : other = slot
          · rw [same, final_entries, Function.update_self] at live
            rw [← Option.some.inj live, empty] at member
            cases member
          · exact owns_queued (elsewhere other msgq live same) letter member

theorem wipe_outside (links : Links MsgNode) {numbers : List Nat} {node : MsgNode}
    (away : node ∉ numbers.map .page) : Untouched links (wipe links numbers) node :=
  ⟨if_neg away, if_neg away⟩

/-- A load has written to every free page and gives them back. -/
theorem Depicts.unloaded (depicts : Depicts paged state) (custody : Custody state) (proc : Tid)
    (pool : List Page) :
    Depicts ({ paged with
        sys := { paged.sys with pool := pool }.ret proc enomem
        links := wipe paged.links (state.pool.map Page.number)
        text := fun number =>
          if number ∈ state.pool.map Page.number then none else paged.text number
      }.cover proc .unassigned) ({ state with pool := pool }.ret proc enomem) := by
  have owns : ∀ letter, ({ state with pool := pool }.ret proc enomem).Owns letter →
      state.Owns letter :=
    owns_of_moved (fun slot msgq live => owns_queued live) (procs_of_empty .running rfl rfl rfl)
  apply depicts.outside _ (fun letter owned number own => custody.not_free (owns letter owned) own)
  · rw [depicts.hidden]
    rfl
  · exact fun node => wipe_outside paged.links
  · exact fun number away => if_neg away
  · exact fun slot msgq live => ⟨msgq, live, rfl⟩
  · exact owns

theorem Depicts.loaded (depicts : Depicts paged state) (custody : Custody state) (proc : Tid)
    (call : SendCall) (pool : List Page)
    (taken : ∀ number ∈ call.letter.numbers, number ∈ state.pool.map Page.number) :
    Depicts (({ paged with
        sys := { paged.sys with pool := pool, calls := paged.sys.calls + 1 }.goto proc
          (.sending call true) }.write call.letter).cover proc .unassigned)
      ({ state with pool := pool, calls := state.calls + 1 }.goto proc (.sending call true)) := by
  have fresh : ∀ letter, state.Owns letter → ∀ number ∈ letter.numbers,
      number ∉ call.letter.numbers :=
    fun letter owned number own again => custody.not_free owned own (taken number again)
  have written : ∀ number, number ∉ call.letter.numbers →
      ((paged.write call.letter).text number = paged.text number) :=
    fun number away => if_neg away
  constructor
  · rw [depicts.hidden]
    rfl
  · intro slot msgq live
    change state.ids.entries slot = some msgq at live
    apply (depicts.rings slot msgq live).frame
    intro node member
    apply wipe_outside
    intro segment
    obtain ⟨number, inside, rfl⟩ := List.mem_map.mp segment
    rcases List.mem_cons.mp member with impossible | listed
    · cases impossible
    · obtain ⟨letter, queued, same⟩ := List.mem_map.mp listed
      rw [← MsgNode.page.inj same] at inside
      exact fresh letter (owns_queued live letter queued) _ Letter.page_mem_numbers
        (Letter.segs_subset inside)
  · rintro letter ⟨place, member⟩ number own
    change (paged.write call.letter).text number = some letter
    have elsewhere : state.Owns letter → (paged.write call.letter).text number = some letter := by
      intro owned
      rw [written number (fresh letter owned number own)]
      exact depicts.text letter owned number own
    cases place with
    | free => cases member
    | returned => cases member
    | queue slot => exact elsewhere ⟨.queue slot, member⟩
    | hand other =>
        by_cases same : other = proc
        · rw [same] at member
          simp only [System.lettersAt, System.goto, Function.update_self, ProcState.inHand,
            List.mem_singleton] at member
          rw [member]
          exact if_pos (member ▸ own)
        · simp only [System.lettersAt, System.goto, Function.update_of_ne same] at member
          exact elsewhere ⟨.hand other, member⟩
    | slot other =>
        by_cases same : other = proc
        · rw [same] at member
          simp only [System.lettersAt, System.goto, Function.update_self, ProcState.inSlot,
            List.not_mem_nil] at member
        · simp only [System.lettersAt, System.goto, Function.update_of_ne same] at member
          exact elsewhere ⟨.slot other, member⟩

theorem Depicts.msgsnd (depicts : Depicts paged state) (custody : Custody state) (proc : Tid)
    (msgid : Int) (msgp : Option MsgBuf) (msgsz : Int) (msgflg : UInt32) :
    Agrees (paged.msgsnd proc msgid msgp msgsz msgflg)
      (msgsnd state proc msgid msgp msgsz msgflg) := by
  have calls : paged.sys.calls = state.calls := by
    rw [depicts.hidden]
    rfl
  unfold Paged.msgsnd Ipc.msgsnd
  rw [depicts.proc_eq]
  cases located : state.proc proc with
  | sending call awake => exact Agrees.error .blocks
  | receiving call slot awake => exact Agrees.error .blocks
  | running =>
      have invalid : Depicts ({ paged with sys := paged.sys.ret proc einval }.cover proc .unassigned)
          (state.ret proc einval) := depicts.ret einval rfl rfl rfl
      cases msgp with
      | none => exact invalid
      | some msgp =>
          simp only
          split
          · exact invalid
          · have pages := loadMsg_pages state.pool msgp.mtype msgp.data msgsz.toNat
            rw [depicts.pool_eq]
            cases loaded : loadMsg state.pool msgp.mtype msgp.data msgsz.toNat with
            | mk msg pool =>
                rw [loaded] at pages
                cases msg with
                | none => exact depicts.unloaded custody proc pool
                | some msg =>
                    simp only [calls]
                    have final := depicts.loaded custody proc
                      { msgid := msgid, msgflg := msgflg, letter := { msg with serial := state.calls } }
                      pool (fun number own => pages.subset (List.mem_append_left _ own))
                    rw [calls] at final
                    exact final

/-! ### Giving pages back -/

theorem free_links (paged : Paged) {node : MsgNode} (away : node ∉ letter.numbers.map .page) :
    Untouched paged.links (paged.free letter).links node := by
  have segments : node ∉ (letter.segs.map Page.number).map .page := by
    intro member
    obtain ⟨number, inside, rfl⟩ := List.mem_map.mp member
    exact away (List.mem_map_of_mem (Letter.segs_subset inside))
  have first : node ≠ letter.node := by
    rintro rfl
    exact away (List.mem_map_of_mem Letter.page_mem_numbers)
  obtain ⟨next, prev⟩ := wipe_outside paged.links segments
  exact ⟨next, (Function.update_of_ne first _ _).trans prev⟩

theorem free_text (paged : Paged) (away : number ∉ letter.numbers) :
    (paged.free letter).text number = paged.text number :=
  if_neg (fun member => away (Letter.segs_subset member))

theorem Depicts.freed (depicts : Depicts paged state) (custody : Custody next)
    (pool : ∀ number ∈ letter.numbers, number ∈ next.pool.map Page.number)
    (hidden : after.sys = next.hidden) (links : after.links = (paged.free letter).links)
    (text : after.text = (paged.free letter).text)
    (queued : ∀ slot msgq, next.ids.entries slot = some msgq →
      ∃ old, state.ids.entries slot = some old ∧ msgq.qMessage = old.qMessage)
    (owns : ∀ letter, next.Owns letter → state.Owns letter) : Depicts after next := by
  refine depicts.outside letter.numbers ?_ hidden ?_ ?_ queued owns
  · exact fun other owned number own again => custody.not_free owned own (pool number again)
  · intro node away
    rw [links]
    exact free_links paged away
  · intro number away
    rw [text]
    exact free_text paged away

theorem freeMsg_numbers (letter : Letter) (pool : List Page) :
    ∀ number ∈ letter.numbers, number ∈ (freeMsg letter.toMsg pool).map Page.number := by
  intro number own
  obtain ⟨page, member, rfl⟩ := List.mem_map.mp own
  exact List.mem_map_of_mem (List.mem_append_left _ (List.mem_reverse.mpr member))

theorem Depicts.held_by_sender (depicts : Depicts paged state) {call : SendCall} {awake : Bool}
    (located : state.proc proc = .sending call awake) : paged.Holds call.letter := by
  apply depicts.text
  refine ⟨.hand proc, ?_⟩
  simp only [System.lettersAt, located, ProcState.inHand, List.mem_singleton]

theorem Depicts.refuse (depicts : Depicts paged state) (custody : Custody state) {call : SendCall}
    {awake : Bool} (located : state.proc proc = .sending call awake) (err : Int) :
    Agrees (paged.refuse proc call.letter.page.number err)
      (.ok (refuse state proc call.letter err)) := by
  unfold Paged.refuse
  rw [(depicts.held_by_sender located).read]
  change Depicts
    { paged.free call.letter with sys := (paged.free call.letter).sys.ret proc err } _
  refine depicts.freed (custody.refused err located) (freeMsg_numbers call.letter state.pool) ?_ rfl
    rfl ?_ ?_
  · change System.ret { paged.sys with pool := freeMsg call.letter.toMsg paged.sys.pool } proc err = _
    rw [depicts.hidden]
    rfl
  · exact fun slot msgq live => ⟨msgq, live, rfl⟩
  · exact owns_of_moved (fun slot msgq live => owns_queued live)
      (procs_of_empty .running rfl rfl rfl)

theorem Depicts.takeMsg (depicts : Depicts paged state) {call : ReceiveCall}
    (custody : ∀ final, Ipc.takeMsg state proc call letter = .ok final → Custody final) :
    Agrees (paged.takeMsg proc call letter) (Ipc.takeMsg state proc call letter) := by
  unfold Paged.takeMsg
  rw [depicts.hidden, takeMsg_hidden]
  cases taken : Ipc.takeMsg state proc call letter with
  | error reason => exact Agrees.error reason
  | ok final =>
      obtain ⟨value, effect⟩ := Outcome.takeMsg_ok taken
      refine depicts.freed (custody final taken) ?_ rfl rfl rfl ?_ ?_
      · rw [effect]
        exact freeMsg_numbers letter state.pool
      · rw [effect]
        exact fun slot msgq live => ⟨msgq, live, rfl⟩
      · rw [effect]
        exact owns_of_moved (fun slot msgq live => owns_queued live)
          (procs_of_empty .running rfl rfl rfl)

/-! ### Sending -/

theorem queued_of_setEntry (live : state.ids.entries slot = some msgq) (left : MsgQueue)
    (same : left.qMessage = msgq.qMessage) (entries : next.ids.entries =
      Function.update state.ids.entries slot (some left)) :
    ∀ other current, next.ids.entries other = some current →
      ∃ old, state.ids.entries other = some old ∧ current.qMessage = old.qMessage := by
  intro other current found
  rw [entries] at found
  rcases Seated.entries_update found with ⟨rfl, replaced⟩ | ⟨-, before⟩
  · exact ⟨msgq, live, Option.some.inj replaced ▸ same⟩
  · exact ⟨current, before, rfl⟩

theorem owns_of_setEntry (live : state.ids.entries slot = some msgq) (left : MsgQueue)
    (same : left.qMessage = msgq.qMessage) (entries : next.ids.entries =
      Function.update state.ids.entries slot (some left))
    (procs : ∀ proc letter, letter ∈ (next.proc proc).inHand ∨ letter ∈ (next.proc proc).inSlot →
      state.Owns letter) : ∀ letter, next.Owns letter → state.Owns letter := by
  refine owns_of_moved ?_ procs
  intro other current found letter member
  obtain ⟨old, before, kept⟩ := queued_of_setEntry live left same entries other current found
  rw [kept] at member
  exact owns_queued before letter member

theorem owns_of_piped {call : SendCall} {rcver : Receiver} {left : MsgQueue} {events : List Event}
    (located : state.proc proc = .sending call true) (live : state.ids.entries slot = some msgq)
    (same : left.qMessage = msgq.qMessage) :
    ∀ letter, ((((state.setEntry slot (some left)).goto proc .running).hand (.message call.letter)
      rcver.proc).record events).Owns letter → state.Owns letter := by
  have own : state.Owns call.letter := by
    refine ⟨.hand proc, ?_⟩
    simp only [System.lettersAt, located, ProcState.inHand, List.mem_singleton]
  have returned : ∀ other letter, letter ∈ ((state.goto proc .running).proc other).inHand ∨
      letter ∈ ((state.goto proc .running).proc other).inSlot → state.Owns letter :=
    procs_of_empty .running rfl rfl rfl
  apply owns_of_setEntry live left same rfl
  · intro other letter member
    by_cases served : other = rcver.proc
    · rw [served] at member
      simp only [System.record, System.hand, System.goto, Function.update_self,
        ProcState.inHand_activate, ProcState.inSlot_activate] at member
      have before := returned rcver.proc letter
      simp only [System.goto] at before
      change letter ∈ ((Function.update state.proc proc .running rcver.proc).assign _).inHand ∨
        letter ∈ ((Function.update state.proc proc .running rcver.proc).assign _).inSlot at member
      cases current : Function.update state.proc proc .running rcver.proc with
      | running =>
          rw [current] at member before
          exact before member
      | sending held awake =>
          rw [current] at member before
          exact before member
      | receiving receive given awake =>
          rw [current] at member
          rcases member with impossible | handed
          · cases impossible
          · rw [List.mem_singleton.mp handed]
            exact own
    · simp only [System.record, System.hand, System.goto, Function.update_of_ne served] at member
      exact returned other letter member

theorem Depicts.queued (depicts : Depicts paged state) (custody : Custody state) {call : SendCall}
    (located : state.proc proc = .sending call true) (live : state.ids.entries slot = some msgq)
    (left : MsgQueue) (more : left.qMessage = msgq.qMessage ++ [call.letter])
    (events : List Event) : ∃ last links, paged.links.prev (.head slot) = some last ∧
      paged.links.insert last call.letter.node = some links ∧
      Depicts { paged with
          links := links
          sys := ((paged.sys.setEntry slot (some left.hidden)).goto proc .running).record events }
        (((state.setEntry slot (some left)).goto proc .running).record events) := by
  have own : call.letter ∈ state.lettersAt (.hand proc) := by
    simp only [System.lettersAt, located, ProcState.inHand, List.mem_singleton]
  have elsewhere : ∀ other, Place.hand proc ≠ .queue other := by
    intro other same
    cases same
  have fresh := custody.node_elsewhere own live (elsewhere slot)
  obtain ⟨last, before, links, inserted, ring, untouched⟩ :=
    (depicts.rings slot msgq live).insert_last fresh
  refine ⟨last, links, before, inserted, ?_⟩
  have entries : ∀ other current, (((state.setEntry slot (some left)).goto proc .running).record
      events).ids.entries other = some current → other ≠ slot →
        state.ids.entries other = some current := by
    intro other current found apart
    change Function.update state.ids.entries slot (some left) other = some current at found
    rw [Function.update_of_ne apart] at found
    exact found
  have here : ∀ current, (((state.setEntry slot (some left)).goto proc .running).record
      events).ids.entries slot = some current → current = left := by
    intro current found
    change Function.update state.ids.entries slot (some left) slot = some current at found
    rw [Function.update_self] at found
    exact (Option.some.inj found).symm
  refine depicts.changed slot ?_ ?_ ?_ ?_
  · rw [depicts.hidden]
    change (((state.hidden.setEntry slot ((some left).map MsgQueue.hidden)).goto proc
      .running).record events) = _
    rw [← setEntry_hidden]
    rfl
  · intro other current apart found
    have there := entries other current found apart
    refine ⟨there, ?_⟩
    intro node member
    apply untouched
    · exact custody.rings_apart live there apart node member
    · rintro rfl
      apply custody.node_elsewhere own there (elsewhere other) member
  · intro current found
    rw [here current found, more, List.map_append]
    exact ring
  · intro letter owned
    apply depicts.text
    refine owns_of_moved ?_ (procs_of_empty .running (by rfl) rfl rfl) letter owned
    intro other current found letter member
    by_cases same : other = slot
    · rw [same] at found
      rw [here current found, more] at member
      rcases List.mem_append.mp member with earlier | last
      · exact owns_queued live letter earlier
      · rw [List.mem_singleton.mp last]
        exact ⟨.hand proc, own⟩
    · exact owns_queued (entries other current found same) letter member

theorem Depicts.acceptMsg (depicts : Depicts paged state) (custody : Custody state)
    {call : SendCall} (located : state.proc proc = .sending call true)
    (live : state.ids.entries slot = some msgq) :
    Agrees (paged.acceptMsg proc slot msgq.hidden call.letter.page.number)
      (acceptMsg state proc slot msgq call.letter) := by
  unfold Paged.acceptMsg Ipc.acceptMsg
  rw [(depicts.held_by_sender located).read]
  simp only [MsgQueue.hidden]
  cases walked : pipelineSend msgq.qReceiver call.letter.toMsg with
  | none => exact True.intro
  | some piped =>
      rcases pipelineSend_some walked with
        ⟨rfl, nobody⟩ | ⟨before, rcver, later, waiting, rfl, wanted, fits, -⟩
      · obtain ⟨last, links, prev, inserted, final⟩ := depicts.queued custody located live
          { msgq with
            qMessage := msgq.qMessage ++ [call.letter]
            sumMsg := msgq.sumMsg + 1 } rfl [.accepted slot call.letter.serial call.letter.mtype]
        simp only [prev, inserted]
        exact final
      · refine depicts.quiet ?_ rfl rfl (queued_of_setEntry live { msgq with
          qReceiver := before ++ later } rfl (by rfl))
          (owns_of_piped located live rfl)
        change (((paged.sys.setEntry slot _).goto proc .running).hand _ rcver.proc).record _ = _
        rw [depicts.hidden]
        change ((((state.hidden.setEntry slot ((some { msgq with
          qReceiver := before ++ later }).map MsgQueue.hidden)).goto proc .running).hand _
            rcver.proc).record _) = _
        rw [← setEntry_hidden]
        rfl

theorem Depicts.slept (depicts : Depicts paged state) {call : SendCall}
    (located : state.proc proc = .sending call true) (live : state.ids.entries slot = some msgq) :
    Depicts { paged with
        sys := (paged.sys.setEntry slot
          (some { msgq.hidden with qSender := msgq.hidden.qSender ++ [proc] })).goto proc
            (.sending call false) }
      ((state.setEntry slot (some { msgq with qSender := msgq.qSender ++ [proc] })).goto proc
        (.sending call false)) := by
  refine depicts.quiet ?_ rfl rfl
    (queued_of_setEntry live { msgq with qSender := msgq.qSender ++ [proc] } rfl (by rfl))
    (owns_of_setEntry live { msgq with qSender := msgq.qSender ++ [proc] } rfl (by rfl) ?_)
  · rw [depicts.hidden]
    change (state.hidden.setEntry slot ((some { msgq with
      qSender := msgq.qSender ++ [proc] }).map MsgQueue.hidden)).goto proc _ = _
    rw [← setEntry_hidden]
    rfl
  · apply procs_of_update (.sending call false) rfl
    · intro letter member
      rw [located]
      exact member
    · exact nofun

theorem Depicts.sendSection (depicts : Depicts paged state) (custody : Custody state) (proc : Tid) :
    Agrees (paged.sendSection proc) (sendSection state proc) := by
  unfold Paged.sendSection Ipc.sendSection
  rw [depicts.proc_eq]
  cases located : state.proc proc with
  | running => exact Agrees.error .blocks
  | receiving call slot awake => exact Agrees.error .blocks
  | sending call awake =>
      cases awake with
      | false => exact Agrees.error .blocks
      | true =>
          simp only
          rw [depicts.getMsgq_eq]
          cases addressed : getMsgq state.ids call.msgid with
          | error reason => exact Agrees.error reason
          | ok target =>
              cases target with
              | none => exact depicts.refuse custody located eidrm
              | some slot =>
                  simp only
                  rw [depicts.entry]
                  cases live : state.ids.entries slot with
                  | none => exact Agrees.error .outOfBounds
                  | some msgq =>
                      simp only [Option.map_some]
                      change Agrees (if msgq.maxMsg < msgq.sumMsg + 1 then _ else _) _
                      split
                      · split
                        · exact depicts.refuse custody located eagain
                        · exact depicts.slept located live
                      · exact depicts.acceptMsg custody located live

/-! ### Receiving -/

theorem Paged.searchWalk_eq {letters : List Letter} (held : ∀ letter ∈ letters, paged.Holds letter)
    (rounds : Nat) : ∀ {first : MsgNode} {mtype : Int} {found : Option Letter},
      Path paged.links first (letters.map Letter.node) (.head slot) →
        paged.searchWalk (.head slot) rounds mtype (paged.links.next first) found = .error .spins ∨
          paged.searchWalk (.head slot) rounds mtype (paged.links.next first) found =
            .ok (searchLoop mtype letters found) := by
  induction letters generalizing rounds with
  | nil =>
      intro first mtype found path
      cases rounds with
      | zero => exact Or.inl rfl
      | succ rounds =>
          rw [path.first_linked.1]
          exact Or.inr (if_pos rfl)
  | cons letter letters ih =>
      intro first mtype found path
      obtain ⟨here, rest⟩ := List.forall_mem_cons.mp held
      cases rounds with
      | zero => exact Or.inl rfl
      | succ rounds =>
          rw [path.1.1]
          simp only [Letter.node, Paged.searchWalk, searchLoop, here.read]
          split
          · split
            · exact ih rest rounds path.2
            · exact Or.inr rfl
          · exact ih rest rounds path.2

theorem Custody.split_found (custody : Custody state) (live : state.ids.entries slot = some msgq)
    {found : Letter} (member : found ∈ msgq.qMessage) : ∃ before behind,
      msgq.qMessage = before ++ found :: behind ∧
        msgq.qMessage.eraseP (fun msg => msg.serial = found.serial) = before ++ behind := by
  have once := custody.exclusive.once (.queue slot)
  simp only [System.holds, live, queuedOn] at once
  exact eraseP_split member once

/-- A message is taken out of its ring, and the senders that waited are woken. -/
theorem Depicts.detached (depicts : Depicts paged state) (custody : Custody state)
    (live : state.ids.entries slot = some msgq) {found : Letter} (member : found ∈ msgq.qMessage)
    (events : List Event) : ∃ links, paged.links.detach found.node = some links ∧
      Depicts { paged with
          links := links
          sys := (ssWakeup (paged.sys.setEntry slot (some { msgq.hidden with
            sumMsg := msgq.hidden.sumMsg - 1, qSender := [] })) msgq.hidden.qSender).record events }
        ((ssWakeup (state.setEntry slot (some { msgq with
          qMessage := msgq.qMessage.eraseP (fun msg => msg.serial = found.serial)
          sumMsg := msgq.sumMsg - 1
          qSender := [] })) msgq.qSender).record events) := by
  obtain ⟨before, behind, split, erased⟩ := custody.split_found live member
  have ring := depicts.rings slot msgq live
  rw [split, List.map_append, List.map_cons] at ring
  obtain ⟨links, removed, rest, -, untouched⟩ := ring.detach
  refine ⟨links, removed, ?_⟩
  have nodes : before.map Letter.node ++ behind.map Letter.node = (before ++ behind).map Letter.node :=
    List.map_append.symm
  rw [nodes, ← erased] at rest
  have kept : ∀ node ∈ msgq.qMessage.eraseP (fun msg => msg.serial = found.serial),
      node ∈ msgq.qMessage := fun node inside => List.mem_of_mem_eraseP inside
  have located : ∀ other current, ((ssWakeup (state.setEntry slot (some { msgq with
      qMessage := msgq.qMessage.eraseP (fun msg => msg.serial = found.serial)
      sumMsg := msgq.sumMsg - 1
      qSender := [] })) msgq.qSender).record events).ids.entries other = some current →
        (other = slot ∧ current.qMessage =
          msgq.qMessage.eraseP (fun msg => msg.serial = found.serial)) ∨
        (other ≠ slot ∧ state.ids.entries other = some current) := by
    intro other current present
    simp only [System.record, ssWakeup_ids] at present
    rcases Seated.entries_update present with ⟨rfl, replaced⟩ | ⟨apart, there⟩
    · exact Or.inl ⟨rfl, Option.some.inj replaced ▸ rfl⟩
    · exact Or.inr ⟨apart, there⟩
  refine depicts.changed slot ?_ ?_ ?_ ?_
  · rw [depicts.hidden]
    change (ssWakeup (state.hidden.setEntry slot ((some { msgq with
      qMessage := msgq.qMessage.eraseP (fun msg => msg.serial = found.serial)
      sumMsg := msgq.sumMsg - 1
      qSender := [] }).map MsgQueue.hidden)) msgq.qSender).record events = _
    rw [← setEntry_hidden, ← ssWakeup_hidden]
    rfl
  · intro other current apart present
    rcases located other current present with ⟨same, -⟩ | ⟨-, there⟩
    · exact absurd same apart
    · refine ⟨there, ?_⟩
      intro node inside
      have away := custody.rings_apart live there apart node inside
      apply untouched
      · intro again
        rw [nodes, ← erased] at again
        rcases List.mem_cons.mp again with head | queued
        · exact away (head ▸ List.mem_cons_self)
        · obtain ⟨letter, listed, rfl⟩ := List.mem_map.mp queued
          exact away (List.mem_cons_of_mem _ (List.mem_map_of_mem (kept letter listed)))
      · rintro rfl
        exact away (List.mem_cons_of_mem _ (List.mem_map_of_mem member))
  · intro current present
    rcases located slot current present with ⟨-, same⟩ | ⟨apart, -⟩
    · rw [same]
      exact rest
    · exact absurd rfl apart
  · intro letter owned
    apply depicts.text
    refine owns_of_moved ?_ ?_ letter owned
    · intro other current present letter inside
      rcases located other current present with ⟨-, same⟩ | ⟨-, there⟩
      · rw [same] at inside
        exact owns_queued live letter (kept letter inside)
      · exact owns_queued there letter inside
    · intro other letter inside
      simp only [System.record, ssWakeup_proc] at inside
      have there : letter ∈ (state.proc other).inHand ∨ letter ∈ (state.proc other).inSlot := by
        split at inside
        · rw [ProcState.inHand_activate, ProcState.inSlot_activate] at inside
          exact inside
        · exact inside
      rcases there with here | here
      · exact ⟨.hand other, here⟩
      · exact ⟨.slot other, here⟩

theorem Depicts.takeFound (depicts : Depicts paged state) (custody : Custody state)
    {call : ReceiveCall} (idle : state.proc proc = .running)
    (live : state.ids.entries slot = some msgq) {found : Letter} (member : found ∈ msgq.qMessage) :
    Agrees (paged.takeFound proc slot msgq.hidden call found)
      (Ipc.takeMsg ((ssWakeup (state.setEntry slot (some { msgq with
        qMessage := msgq.qMessage.eraseP (fun msg => msg.serial = found.serial)
        sumMsg := msgq.sumMsg - 1
        qSender := [] })) msgq.qSender).record
          [.handed slot proc call.mtype found.serial]) proc call found) := by
  obtain ⟨links, removed, detached⟩ :=
    depicts.detached custody live member [.handed slot proc call.mtype found.serial]
  unfold Paged.takeFound
  rw [removed]
  apply detached.takeMsg
  intro final taken
  obtain ⟨value, rfl⟩ := Outcome.takeMsg_ok taken
  simp only [System.record, System.goto, List.append_assoc, List.cons_append, List.nil_append,
    ssWakeup_pool]
  exact custody.taken msgq.qSender idle live member rfl

theorem Depicts.waited (depicts : Depicts paged state) (call : ReceiveCall) (rcver : Receiver)
    (live : state.ids.entries slot = some msgq) :
    Depicts { paged with
        sys := (paged.sys.setEntry slot
          (some { msgq.hidden with qReceiver := msgq.hidden.qReceiver ++ [rcver] })).goto proc
            (.receiving call .unassigned false) }
      ((state.setEntry slot (some { msgq with qReceiver := msgq.qReceiver ++ [rcver] })).goto proc
        (.receiving call .unassigned false)) := by
  refine depicts.quiet ?_ rfl rfl
    (queued_of_setEntry live { msgq with qReceiver := msgq.qReceiver ++ [rcver] } rfl (by rfl))
    (owns_of_setEntry live { msgq with qReceiver := msgq.qReceiver ++ [rcver] } rfl (by rfl)
      (procs_of_empty (.receiving call .unassigned false) rfl rfl rfl))
  rw [depicts.hidden]
  change (state.hidden.setEntry slot ((some { msgq with
    qReceiver := msgq.qReceiver ++ [rcver] }).map MsgQueue.hidden)).goto proc _ = _
  rw [← setEntry_hidden]
  rfl

theorem Depicts.msgrcv (depicts : Depicts paged state) (custody : Custody state) (rounds : Nat)
    (proc : Tid) (msgid : Int) (msgp : Option MsgBuf) (msgsz mtype : Int) (msgflg : UInt32) :
    Agrees (paged.msgrcv rounds proc msgid msgp msgsz mtype msgflg)
      (msgrcv state proc msgid msgp msgsz mtype msgflg) := by
  have back : ∀ value, Depicts { paged with sys := paged.sys.ret proc value }
      (state.ret proc value) := fun value => depicts.ret value rfl rfl rfl
  unfold Paged.msgrcv Ipc.msgrcv
  rw [depicts.proc_eq]
  cases located : state.proc proc with
  | sending call awake => exact Agrees.error .blocks
  | receiving call slot awake => exact Agrees.error .blocks
  | running =>
      cases msgp with
      | none => exact back einval
      | some msgp =>
          simp only
          split
          · exact back einval
          · rw [depicts.getMsgq_eq]
            cases addressed : getMsgq state.ids msgid with
            | error reason => exact Agrees.error reason
            | ok target =>
                cases target with
                | none => exact back eidrm
                | some slot =>
                    simp only
                    rw [depicts.entry]
                    cases live : state.ids.entries slot with
                    | none => exact Agrees.error .outOfBounds
                    | some msgq =>
                        simp only [Option.map_some]
                        have held : ∀ letter ∈ msgq.qMessage, paged.Holds letter :=
                          fun letter queued => depicts.text letter (owns_queued live letter queued)
                        rcases Paged.searchWalk_eq held rounds (depicts.rings slot msgq live).path with
                          spins | walked
                        · rw [spins]
                          exact True.intro
                        · rw [walked]
                          cases hit : searchLoop mtype msgq.qMessage none with
                          | none =>
                              simp only
                              split
                              · exact back enomsg
                              · exact depicts.waited _ _ live
                          | some found =>
                              simp only
                              split
                              · exact back e2big
                              · have member : found ∈ msgq.qMessage := by
                                  rcases searchLoop_mem hit with member | impossible
                                  · exact member
                                  · cases impossible
                                exact depicts.takeFound custody located live member

/-- A receive that finds its slot assigned after its sleep. -/
theorem Depicts.resume (depicts : Depicts paged state) (custody : Custody state)
    (assigned : ∀ call, state.proc proc ≠ .receiving call .unassigned true) :
    Agrees (paged.resume proc) (resume state proc) := by
  unfold Paged.resume Ipc.resume
  rw [depicts.proc_eq]
  cases located : state.proc proc with
  | running => exact Agrees.error .blocks
  | sending call awake => exact Agrees.error .blocks
  | receiving call slot awake =>
      cases awake with
      | false => cases slot <;> exact Agrees.error .blocks
      | true =>
          cases slot with
          | unassigned => exact absurd located (assigned call)
          | null => exact depicts.ret e2big rfl rfl rfl
          | message letter =>
              have owned : state.Owns letter := by
                refine ⟨.slot proc, ?_⟩
                simp only [System.lettersAt, located, ProcState.inSlot, List.mem_singleton]
              simp only [Paged.goOn, (depicts.text letter owned).read]
              have covered : Depicts (paged.cover proc (.message letter)) state :=
                ⟨depicts.hidden, depicts.rings, depicts.text⟩
              apply covered.takeMsg
              intro final taken
              obtain ⟨value, rfl⟩ := Outcome.takeMsg_ok taken
              exact custody.resumed located

/-! ### Removing -/

/-- The loop of `freeque` frees the messages of its ring and leaves the rest alone. -/
theorem Paged.drainMsgs_ring (rounds : Nat) : ∀ (paged : Paged) {letters : List Letter},
    IsRing paged.links (.head slot) (letters.map Letter.node) →
      (∀ letter ∈ letters, paged.Holds letter) →
      letters.Pairwise (fun left right => ∀ number ∈ left.numbers, number ∉ right.numbers) →
      drainMsgs (.head slot) rounds paged = .error .spins ∨ ∃ drained,
        drainMsgs (.head slot) rounds paged = .ok drained ∧
        drained.sys = { paged.sys with
          pool := letters.foldl (fun pool letter => freeMsg letter.toMsg pool) paged.sys.pool } ∧
        (∀ node, node ≠ .head slot → (∀ letter ∈ letters, node ∉ letter.numbers.map .page) →
          Untouched paged.links drained.links node) ∧
        ∀ number, (∀ letter ∈ letters, number ∉ letter.numbers) →
          drained.text number = paged.text number := by
  induction rounds with
  | zero => exact fun _ _ _ _ _ => Or.inl rfl
  | succ rounds ih =>
      intro paged letters ring held apart
      cases letters with
      | nil =>
          refine Or.inr ⟨paged, ?_, rfl, fun node _ _ => ⟨rfl, rfl⟩, fun number _ => rfl⟩
          unfold drainMsgs
          rw [ring.path.first_linked.1]
          exact if_pos rfl
      | cons letter letters =>
          obtain ⟨here, rest⟩ := List.forall_mem_cons.mp held
          obtain ⟨first, others⟩ := List.pairwise_cons.mp apart
          have whole : IsRing paged.links (.head slot)
              ([] ++ letter.node :: letters.map Letter.node) := ring
          obtain ⟨links, removed, left, -, untouched⟩ := whole.detach
          have linked : paged.links.next (.head slot) = some (.page letter.page.number) := ring.path.1.1
          change paged.links.detach (.page letter.page.number) = some links at removed
          have taken : drainMsgs (.head slot) (rounds + 1) paged =
              drainMsgs (.head slot) rounds ({ paged with links := links }.free letter) := by
            rw [drainMsgs, linked]
            simp only [removed, here.read]
          have beyond : ∀ node ∈ MsgNode.head slot :: letters.map Letter.node,
              node ∉ letter.numbers.map .page := by
            intro node member segment
            obtain ⟨number, inside, rfl⟩ := List.mem_map.mp segment
            rcases List.mem_cons.mp member with impossible | listed
            · cases impossible
            · obtain ⟨other, queued, same⟩ := List.mem_map.mp listed
              rw [← MsgNode.page.inj same] at inside
              exact first other queued _ inside Letter.page_mem_numbers
          have ring' : IsRing ({ paged with links := links }.free letter).links (.head slot)
              (letters.map Letter.node) :=
            left.frame (fun node member => free_links _ (beyond node member))
          have held' : ∀ other ∈ letters, ({ paged with links := links }.free letter).Holds other := by
            intro other queued number own
            rw [free_text _ (fun again => first other queued number again own)]
            exact rest other queued number own
          rw [taken]
          rcases ih _ ring' held' others with spins | ⟨drained, ended, sys, nodes, text⟩
          · exact Or.inl spins
          · refine Or.inr ⟨drained, ended, sys, ?_, ?_⟩
            · intro node head away
              obtain ⟨away, later⟩ := List.forall_mem_cons.mp away
              have detached := untouched node (by
                intro member
                rcases List.mem_cons.mp member with same | listed
                · exact head same
                · obtain ⟨other, queued, rfl⟩ := List.mem_map.mp listed
                  exact later other queued (List.mem_map_of_mem Letter.page_mem_numbers)) (by
                rintro rfl
                exact away (List.mem_map_of_mem Letter.page_mem_numbers))
              obtain ⟨freedNext, freedPrev⟩ := free_links { paged with links := links } away
              obtain ⟨laterNext, laterPrev⟩ := nodes node head later
              exact ⟨laterNext.trans (freedNext.trans detached.1),
                laterPrev.trans (freedPrev.trans detached.2)⟩
            · intro number away
              obtain ⟨away, later⟩ := List.forall_mem_cons.mp away
              rw [text number later, free_text _ away]

theorem lettersAt_removed {place : Place}
    (member : letter ∈ ((freeMsgq state slot msgq).1.ret proc 0).lettersAt place) :
    letter ∈ state.lettersAt place ∧ place ≠ .queue slot := by
  obtain ⟨-, -, -, procs⟩ := freeMsgq_frame state slot msgq
  have entries := freeMsgq_entries state slot msgq
  have awake : ∀ other, ((freeMsgq state slot msgq).1.proc other).inHand = (state.proc other).inHand ∧
      ((freeMsgq state slot msgq).1.proc other).inSlot = (state.proc other).inSlot := by
    intro other
    rw [procs]
    split
    · exact ⟨ProcState.inHand_activate _, ProcState.inSlot_activate _⟩
    · exact ⟨rfl, rfl⟩
  cases place with
  | free => cases member
  | returned => cases member
  | queue other =>
      change letter ∈ queuedOn ((freeMsgq state slot msgq).1.ids.entries other) at member
      rw [entries] at member
      by_cases same : other = slot
      · rw [same, Function.update_self] at member
        cases member
      · rw [Function.update_of_ne same] at member
        exact ⟨member, fun again => same (Place.queue.inj again)⟩
  | hand other =>
      change letter ∈ (Function.update (freeMsgq state slot msgq).1.proc proc .running other).inHand
        at member
      by_cases same : other = proc
      · rw [same, Function.update_self] at member
        cases member
      · rw [Function.update_of_ne same, (awake other).1] at member
        exact ⟨member, nofun⟩
  | slot other =>
      change letter ∈ (Function.update (freeMsgq state slot msgq).1.proc proc .running other).inSlot
        at member
      by_cases same : other = proc
      · rw [same, Function.update_self] at member
        cases member
      · rw [Function.update_of_ne same, (awake other).2] at member
        exact ⟨member, nofun⟩

/-- The messages of a queue are in different pages. -/
theorem Custody.numbers_apart (custody : Custody state)
    (live : state.ids.entries slot = some msgq) : msgq.qMessage.Pairwise
      (fun left right => ∀ number ∈ left.numbers, number ∉ right.numbers) := by
  have once := custody.exclusive.once (.queue slot)
  simp only [System.holds, live, queuedOn, List.nodup_flatMap] at once
  refine once.2.imp ?_
  intro left right disjoint number here there
  exact disjoint (Letter.page_token here) (Letter.page_token there)

theorem Depicts.removed (depicts : Depicts paged state) (custody : Custody state)
    (live : state.ids.entries slot = some msgq) (rounds : Nat) :
    paged.freeMsgq rounds slot msgq.hidden = .error .spins ∨ ∃ freed,
      paged.freeMsgq rounds slot msgq.hidden = .ok freed ∧
        Depicts ({ freed with sys := freed.sys.ret proc 0 }.cover proc .unassigned)
          ((freeMsgq state slot msgq).1.ret proc 0) := by
  have woken : ssWakeup (paged.sys.setEntry slot none) (msgq.hidden.qReceiver.map Receiver.proc) =
      (ssWakeup (state.setEntry slot none) (msgq.qReceiver.map Receiver.proc)).hidden := by
    rw [ssWakeup_hidden, setEntry_hidden, depicts.hidden]
    rfl
  have held : ∀ letter ∈ msgq.qMessage, paged.Holds letter :=
    fun letter queued => depicts.text letter (owns_queued live letter queued)
  unfold Paged.freeMsgq
  simp only [woken]
  rcases Paged.drainMsgs_ring rounds { paged with sys := (ssWakeup (state.setEntry slot none)
      (msgq.qReceiver.map Receiver.proc)).hidden } (depicts.rings slot msgq live) held
      (custody.numbers_apart live) with
    spins | ⟨drained, ended, sys, nodes, text⟩
  · rw [spins]
    exact Or.inl rfl
  · rw [ended]
    refine Or.inr ⟨_, rfl, ?_⟩
    have owner : ∀ {letter other : Letter} {place number},
        letter ∈ state.lettersAt place → place ≠ .queue slot → other ∈ msgq.qMessage →
          number ∈ letter.numbers → number ∉ other.numbers := by
      intro letter other place number here elsewhere queued own shared
      exact elsewhere (custody.owner here (queuedOn_mem live queued) own shared).1
    refine depicts.changed slot ?_ ?_ ?_ ?_
    · change System.ret { drained.sys with
        ids := { drained.sys.ids with inUse := drained.sys.ids.inUse - 1 } } proc 0 = _
      rw [sys]
      rfl
    · intro other current apart present
      change (freeMsgq state slot msgq).1.ids.entries other = some current at present
      rw [freeMsgq_entries, Function.update_of_ne apart] at present
      refine ⟨present, ?_⟩
      intro node member
      apply nodes
      · rintro rfl
        rcases List.mem_cons.mp member with same | listed
        · exact apart (MsgNode.head.inj same).symm
        · obtain ⟨letter, -, impossible⟩ := List.mem_map.mp listed
          cases impossible
      · intro letter queued segment
        obtain ⟨number, inside, rfl⟩ := List.mem_map.mp segment
        rcases List.mem_cons.mp member with impossible | listed
        · cases impossible
        · obtain ⟨letter', there, same⟩ := List.mem_map.mp listed
          rw [← MsgNode.page.inj same] at inside
          exact owner (queuedOn_mem present there) (fun same => apart (Place.queue.inj same)) queued
            Letter.page_mem_numbers inside
    · intro current present
      change (freeMsgq state slot msgq).1.ids.entries slot = some current at present
      rw [freeMsgq_entries, Function.update_self] at present
      cases present
    · rintro letter ⟨place, member⟩ number own
      obtain ⟨before, elsewhere⟩ := lettersAt_removed member
      refine (text number ?_).trans (depicts.text letter ⟨place, before⟩ number own)
      exact fun other queued => owner before elsewhere queued own

theorem Depicts.msgctl (depicts : Depicts paged state) (custody : Custody state) (rounds : Nat)
    (proc : Tid) (msgid cmd : Int) :
    Agrees (paged.msgctl rounds proc msgid cmd) (msgctl state proc msgid cmd) := by
  have back : ∀ value, Depicts ({ paged with sys := paged.sys.ret proc value }.cover proc
      .unassigned) (state.ret proc value) := fun value => depicts.ret value rfl rfl rfl
  unfold Paged.msgctl Ipc.msgctl freeque
  rw [depicts.proc_eq]
  cases located : state.proc proc with
  | sending call awake => exact Agrees.error .blocks
  | receiving call slot awake => exact Agrees.error .blocks
  | running =>
      simp only
      split
      · rw [depicts.getMsgq_eq]
        cases addressed : getMsgq state.ids msgid with
        | error reason => exact Agrees.error reason
        | ok target =>
            cases target with
            | none => exact back 0
            | some slot =>
                simp only
                rw [depicts.entry]
                cases live : state.ids.entries slot with
                | none => exact Agrees.error .outOfBounds
                | some msgq =>
                    simp only [Option.map_some]
                    rcases depicts.removed custody live rounds with spins | ⟨freed, ended, final⟩
                    · rw [spins]
                      exact True.intro
                    · rw [ended]
                      exact final
      · exact back einval

theorem Depicts.step (depicts : Depicts paged state) (custody : Custody state)
    (assigned : ∀ proc call, state.proc proc ≠ .receiving call .unassigned true) (rounds : Nat)
    (action : Action) : Agrees (pagedStep rounds paged action) (ipcStep state action) := by
  cases action with
  | msgget proc key msgflg allocated => exact depicts.msgget proc key msgflg allocated
  | msgsnd proc msgid msgp msgsz msgflg => exact depicts.msgsnd custody proc msgid msgp msgsz msgflg
  | sendSection proc => exact depicts.sendSection custody proc
  | msgrcv proc msgid msgp msgsz mtype msgflg =>
      exact depicts.msgrcv custody rounds proc msgid msgp msgsz mtype msgflg
  | resume proc => exact depicts.resume custody (assigned proc)
  | msgctl proc msgid cmd => exact depicts.msgctl custody rounds proc msgid cmd

end

end LabKernel.Ipc
