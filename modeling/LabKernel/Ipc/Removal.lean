/-
Removing a queue.

`freeque` empties the list of receivers with `ss_wakeup`, which activates them and
writes no slot, and leaves the list of senders alone. So it releases everybody exactly when
nobody waits. The pages of the queued messages are freed once in any case.
-/

import LabKernel.Ipc.Custody

set_option autoImplicit false

namespace LabKernel.Ipc

open Common Transition

/-- What removing a queue should do for those who wait on it and for its messages: senders
are awake and find the queue gone, receivers are awake with a null message, the freed queue
lists nobody, and every page of a queued message was not free and now is, once. -/
structure ReleasesEverybody (before after : System) (msgq freed : MsgQueue) : Prop where
  senders : ∀ proc, proc ∈ msgq.qSender → ∃ call final, after.proc proc = .sending call true ∧
    sendSection after proc = .ok final ∧ final.history = after.history ++ [.returned proc eidrm]
  receivers : ∀ rcver, rcver ∈ msgq.qReceiver →
    ∃ call, after.proc rcver.proc = .receiving call .null true
  nobody : freed.qSender = [] ∧ freed.qReceiver = []
  pages : ∀ letter, letter ∈ msgq.qMessage → ∀ page, page ∈ letter.pages →
    page.number ∉ before.pool.map Page.number ∧
      (after.pool.map Page.number).count page.number = 1

theorem page_mem_freeAll {letters : List Letter} {letter : Letter} {page : Page}
    (owned : page ∈ letter.pages) :
    ∀ pool : List Page, letter ∈ letters ∨ page ∈ pool →
      page ∈ letters.foldl (fun pool letter => freeMsg letter.toMsg pool) pool := by
  induction letters with
  | nil =>
      intro pool present
      rcases present with impossible | free
      · cases impossible
      · exact free
  | cons head letters ih =>
      intro pool present
      rw [List.foldl_cons]
      apply ih
      rcases present with member | free
      · rcases List.mem_cons.mp member with rfl | later
        · exact Or.inr (List.mem_append_left _ (List.mem_reverse.mpr owned))
        · exact Or.inl later
      · exact Or.inr (List.mem_append_right _ free)

/-- The messages of a removed queue lose their pages to the free ones, each page once. -/
theorem Custody.pages_freed {state : System} (custody : Custody state) {proc : Tid}
    {slot : Fin seqMultiplier} {msgq : MsgQueue} (idle : state.proc proc = .running)
    (live : state.ids.entries slot = some msgq) {letter : Letter} (queued : letter ∈ msgq.qMessage)
    {page : Page} (owned : page ∈ letter.pages) :
    page.number ∉ state.pool.map Page.number ∧
      (((freeMsgq state slot msgq).1.ret proc 0).pool.map Page.number).count page.number = 1 := by
  have held : Token.page page.number ∈ state.holds (.queue slot) := by
    simp only [System.holds, live, queuedOn]
    refine List.mem_flatMap.mpr ⟨letter, queued, List.mem_cons_of_mem _ ?_⟩
    exact List.mem_map.mpr ⟨page, owned, rfl⟩
  constructor
  · intro free
    obtain ⟨other, member, same⟩ := List.mem_map.mp free
    have pooled : Token.page page.number ∈ state.holds .free :=
      List.mem_map.mpr ⟨other, member, congrArg Token.page same⟩
    have apart := custody.exclusive.apart (.queue slot) .free _ held pooled
    cases apart
  · have unrepeated := (custody.removed idle live).exclusive.once .free
    have distinct : (((freeMsgq state slot msgq).1.ret proc 0).pool.map Page.number).Nodup := by
      apply List.Nodup.of_map Token.page
      rw [List.map_map]
      exact unrepeated
    apply List.count_eq_one_of_mem distinct
    change page.number ∈ (freeMsgq state slot msgq).1.pool.map Page.number
    rw [(freeMsgq_frame state slot msgq).1]
    exact List.mem_map.mpr ⟨page, page_mem_freeAll owned state.pool (Or.inl queued), rfl⟩

/-- Removing a live queue releases everybody exactly when nobody waits on it, in every state in
which the lists hold those who wait and no page is in two places. -/
theorem removal_releases_iff_nobody_waits (state : System) (seated : Seated state)
    (custody : Custody state) (proc : Tid) (msgid : Int)
    (slot : Fin seqMultiplier) (msgq : MsgQueue) (idle : state.proc proc = .running)
    (addressed : getMsgq state.ids msgid = .ok (some slot))
    (live : state.ids.entries slot = some msgq) :
    ∃ after, ipcStep state (.msgctl proc msgid ipcRmid) = .ok after ∧
      after.ids.entries slot = none ∧
      (ReleasesEverybody state after msgq (freeMsgq state slot msgq).2 ↔
        msgq.qSender = [] ∧ msgq.qReceiver = []) := by
  refine ⟨(freeMsgq state slot msgq).1.ret proc 0, ?_, ?_, ?_⟩
  · simp only [ipcStep, msgctl, idle, if_true, freeque, addressed, live]
  · change (freeMsgq state slot msgq).1.ids.entries slot = none
    rw [freeMsgq_entries, Function.update_self]
  · constructor
    · intro released
      constructor
      · exact released.nobody.1
      · by_contra waiting
        obtain ⟨rcver, member⟩ := List.exists_mem_of_ne_nil _ waiting
        obtain ⟨call, asleep, _⟩ := seated.receivers slot msgq live rcver member
        obtain ⟨woken, located⟩ := released.receivers rcver member
        have different : rcver.proc ≠ proc := by
          intro same
          rw [same, idle] at asleep
          cases asleep
        simp only [System.ret, System.goto, System.record, Function.update_of_ne different,
          (freeMsgq_frame state slot msgq).2.2.2, if_pos (List.mem_map_of_mem member), asleep,
          ProcState.activate] at located
        cases located
    · intro nobody
      constructor
      · intro sleeper member
        rw [nobody.1] at member
        cases member
      · intro rcver member
        rw [nobody.2] at member
        cases member
      · exact ⟨nobody.1, rfl⟩
      · intro letter queued page owned
        exact custody.pages_freed idle live queued owned

/-- A queue with one message and nobody waiting. -/
theorem removal_releases_one_message : ∃ (state after : System) (msgq : MsgQueue),
    Reachable ipcStep (System.initial [{ number := 3, data := fun _ => 0 }]) state ∧
      state.ids.entries ⟨0, by decide⟩ = some msgq ∧ msgq.qMessage.length = 1 ∧
      ipcStep state (.msgctl 1 0 ipcRmid) = .ok after ∧
      ReleasesEverybody state after msgq (freeMsgq state ⟨0, by decide⟩ msgq).2 := by
  have executed : exec ipcStep (System.initial [{ number := 3, data := fun _ => 0 }])
      [.msgget 0 5 ipcCreate true, .msgsnd 0 0 (some { mtype := 3, data := fun _ => 7 }) 4 0,
        .sendSection 0] = .ok _ := rfl
  have reached := Reachable.of_exec executed
  have distinct : ([{ number := 3, data := fun _ => 0 }].map Page.number).Nodup := by
    simp
  obtain ⟨seated, custody⟩ := custody_of_reachable distinct reached
  obtain ⟨after, taken, _, released⟩ := removal_releases_iff_nobody_waits _ seated custody 1 0
    ⟨0, by decide⟩ _ rfl rfl rfl
  exact ⟨_, after, _, reached, rfl, rfl, taken, released.mpr ⟨rfl, rfl⟩⟩

/-- A receiver waits on an empty queue; the removal wakes it and assigns it nothing. -/
theorem removal_leaves_receiver_unassigned : ∃ (state after : System) (msgq : MsgQueue),
    Reachable ipcStep (System.initial []) state ∧
      state.ids.entries ⟨0, by decide⟩ = some msgq ∧
      ipcStep state (.msgctl 0 0 ipcRmid) = .ok after ∧
      (∃ call, after.proc 1 = .receiving call .unassigned true) ∧
      ¬ReleasesEverybody state after msgq (freeMsgq state ⟨0, by decide⟩ msgq).2 := by
  have executed : exec ipcStep (System.initial [])
      [.msgget 0 5 ipcCreate true, .msgrcv 1 0 (some { mtype := 0, data := fun _ => 0 }) 8 0 0] =
        .ok _ := rfl
  have reached := Reachable.of_exec executed
  refine ⟨_, _, _, reached, rfl, rfl, ⟨_, rfl⟩, ?_⟩
  intro released
  obtain ⟨call, located⟩ := released.receivers { proc := 1, mtype := 0, size := 8 }
    (List.mem_singleton.mpr rfl)
  cases located

end LabKernel.Ipc
