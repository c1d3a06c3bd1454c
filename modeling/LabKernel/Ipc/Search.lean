/-
Searching a queue by a negative type.

`sys_msgrcv` raises its negative type by one at every message it meets, so that later ones have
to be smaller. It ends with the earliest message of the smallest type when the type has been
raised far enough before that message is met.
-/

import LabKernel.Ipc.Delivery
import Mathlib.Data.List.Sublists

set_option autoImplicit false

namespace LabKernel.Ipc

open Common Transition

/-! ### What is to be taken -/

/-- The first message of the smallest type that does not exceed the bound, with what stands in
front of it and behind it. -/
structure EarliestSmallest (msgs : List Letter) (bound : Int) (before : List Letter)
    (msg : Letter) (behind : List Letter) : Prop where
  parts : msgs = before ++ msg :: behind
  within : msg.mtype ≤ bound
  smallest : ∀ other ∈ msgs, other.mtype ≤ bound → msg.mtype ≤ other.mtype
  earliest : ∀ other ∈ before, other.mtype ≤ bound → msg.mtype < other.mtype

/-- What a receive is to find: a type below 0 asks for the earliest message of the smallest type
up to its opposite, 0 for the head of the queue, and any other type for the earliest message of
this type. -/
structure FindsRight (msgs : List Letter) (mtype : Int) : Prop where
  smallest : mtype < 0 → ∀ before msg behind, EarliestSmallest msgs (-mtype) before msg behind →
    searchLoop mtype msgs none = some msg
  nothing : mtype < 0 →
    (searchLoop mtype msgs none = none ↔ ∀ msg ∈ msgs, -mtype < msg.mtype)
  head : mtype = 0 → searchLoop mtype msgs none = msgs.head?
  exactly : 0 < mtype → searchLoop mtype msgs none = msgs.find? (fun msg => msg.mtype = mtype)

/-- Among the messages there are some in this order whose types are at most the bound, one less,
and so on down to one more than the type. -/
def Descends (msgs : List Letter) (bound mtype : Int) : Prop :=
  ∃ chain : List Letter, chain.Sublist msgs ∧ (chain.length : Int) = bound - mtype ∧
    ∀ (index : Nat) (inside : index < chain.length), chain[index].mtype ≤ bound - index

/-! ### How far the bound comes down -/

/-- The bound behind some messages, each of which lowers it if it does not exceed it. -/
def lowered : Int → List Letter → Int
  | bound, [] => bound
  | bound, msg :: rest => if msg.mtype ≤ bound then lowered (bound - 1) rest else lowered bound rest

theorem lowered_le (msgs : List Letter) : ∀ bound, lowered bound msgs ≤ bound := by
  induction msgs with
  | nil =>
      intro bound
      exact Int.le_refl bound
  | cons msg rest ih =>
      intro bound
      unfold lowered
      split
      · have later := ih (bound - 1)
        omega
      · exact ih bound

theorem lowered_of_chain (msgs : List Letter) :
    ∀ {bound top : Int} {chain : List Letter}, bound ≤ top → chain.Sublist msgs →
      (∀ (index : Nat) (inside : index < chain.length), chain[index].mtype ≤ top - index) →
        lowered bound msgs ≤ top - chain.length := by
  induction msgs with
  | nil =>
      intro bound top chain below sublist _
      rw [List.sublist_nil.mp sublist]
      simpa [lowered] using below
  | cons msg rest ih =>
      intro bound top chain below sublist falls
      unfold lowered
      cases sublist with
      | cons _ sublist =>
          split
          · exact ih (by omega) sublist falls
          · exact ih below sublist falls
      | @cons_cons chain _ _ sublist =>
          have first : msg.mtype ≤ top - 0 := falls 0 (Nat.zero_lt_succ _)
          have further : ∀ (index : Nat) (inside : index < chain.length),
              chain[index].mtype ≤ top - 1 - index := by
            intro index inside
            have here := falls (index + 1) (Nat.succ_lt_succ inside)
            rw [List.getElem_cons_succ] at here
            omega
          rw [List.length_cons]
          split
          · have later := ih (show bound - 1 ≤ top - 1 by omega) sublist further
            omega
          · have later := ih (show bound ≤ top - 1 by omega) sublist further
            omega

theorem chain_of_lowered (msgs : List Letter) :
    ∀ (bound : Int), ∃ chain : List Letter, chain.Sublist msgs ∧
      (chain.length : Int) = bound - lowered bound msgs ∧
      ∀ (index : Nat) (inside : index < chain.length), chain[index].mtype ≤ bound - index := by
  induction msgs with
  | nil =>
      intro bound
      refine ⟨[], List.Sublist.refl _, ?_, ?_⟩
      · simp [lowered]
      · intro index inside
        cases inside
  | cons msg rest ih =>
      intro bound
      unfold lowered
      split
      · rename_i eligible
        obtain ⟨chain, sublist, length, falls⟩ := ih (bound - 1)
        refine ⟨msg :: chain, sublist.cons_cons msg, ?_, ?_⟩
        · rw [List.length_cons]
          omega
        · intro index inside
          cases index with
          | zero =>
              rw [List.getElem_cons_zero]
              omega
          | succ index =>
              have here := falls index (Nat.lt_of_succ_lt_succ inside)
              rw [List.getElem_cons_succ]
              omega
      · obtain ⟨chain, sublist, length, falls⟩ := ih bound
        exact ⟨chain, sublist.cons msg, length, falls⟩

theorem lowered_le_iff {msgs : List Letter} {bound mtype : Int} (below : mtype ≤ bound) :
    lowered bound msgs ≤ mtype ↔ Descends msgs bound mtype := by
  constructor
  · intro low
    obtain ⟨chain, sublist, length, falls⟩ := chain_of_lowered msgs bound
    refine ⟨chain.take (bound - mtype).toNat, (List.take_sublist _ _).trans sublist, ?_, ?_⟩
    · rw [List.length_take]
      omega
    · intro index inside
      rw [List.getElem_take]
      apply falls
  · intro descends
    obtain ⟨chain, sublist, length, falls⟩ := descends
    have low := lowered_of_chain msgs (Int.le_refl bound) sublist falls
    omega

/-! ### The search -/

theorem testmsg_negative {bound type : Int} (positive : 0 < bound) :
    testmsg (-bound) type = decide (type ≤ bound) := by
  unfold testmsg
  rw [if_neg (by omega), if_pos (by omega), decide_eq_decide]
  omega

theorem searchLoop_negative {bound : Int} (positive : 0 < bound) (msg : Letter)
    (rest : List Letter) (found : Option Letter) :
    searchLoop (-bound) (msg :: rest) found =
      if msg.mtype ≤ bound then
        if 1 < bound then searchLoop (-(bound - 1)) rest (some msg) else some msg
      else searchLoop (-bound) rest found := by
  simp only [searchLoop, testmsg_negative positive, decide_eq_true_eq]
  split
  · by_cases more : 1 < bound
    · rw [if_pos more, if_pos (by omega), show -bound + 1 = -(bound - 1) by omega]
    · rw [if_neg more, if_neg (by omega)]
  · rfl

/-- The messages in front of the smallest one only lower the bound. -/
theorem searchLoop_lowers {mtype : Int} (positive : 1 ≤ mtype) (rest before : List Letter) :
    ∀ {bound : Int} (found : Option Letter), mtype ≤ bound →
      (∀ other ∈ before, other.mtype ≤ bound → mtype < other.mtype) →
        mtype ≤ lowered bound before ∧ ∃ met, searchLoop (-bound) (before ++ rest) found =
          searchLoop (-(lowered bound before)) rest met := by
  induction before with
  | nil =>
      intro bound found below _
      exact ⟨below, found, rfl⟩
  | cons msg before ih =>
      intro bound found below larger
      rw [List.cons_append, searchLoop_negative (by omega)]
      unfold lowered
      split
      · rename_i eligible
        have above := larger msg List.mem_cons_self eligible
        rw [if_pos (by omega)]
        apply ih _ (by omega)
        intro other member within
        exact larger other (List.mem_cons_of_mem _ member) (by omega)
      · apply ih _ below
        intro other member within
        exact larger other (List.mem_cons_of_mem _ member) within

theorem searchLoop_replaces {bound : Int} (positive : 0 < bound) {msgs : List Letter} :
    ∀ (found : Option Letter), (∃ msg ∈ msgs, msg.mtype ≤ bound) →
      ∃ msg ∈ msgs, searchLoop (-bound) msgs found = some msg := by
  induction msgs with
  | nil =>
      rintro found ⟨msg, member, -⟩
      cases member
  | cons head rest ih =>
      intro found eligible
      rw [searchLoop_negative positive]
      by_cases first : head.mtype ≤ bound
      · rw [if_pos first]
        split
        · cases result : searchLoop (-(bound - 1)) rest (some head) with
          | none => cases (searchLoop_eq_none result).1
          | some msg =>
              rcases searchLoop_mem result with later | same
              · exact ⟨msg, List.mem_cons_of_mem _ later, rfl⟩
              · cases same
                exact ⟨head, List.mem_cons_self, rfl⟩
        · exact ⟨head, List.mem_cons_self, rfl⟩
      · rw [if_neg first]
        have later : ∃ msg ∈ rest, msg.mtype ≤ bound := by
          obtain ⟨msg, member, within⟩ := eligible
          rcases List.mem_cons.mp member with same | behind
          · rw [same] at within
            exact absurd within first
          · exact ⟨msg, behind, within⟩
        obtain ⟨msg, member, result⟩ := ih found later
        exact ⟨msg, List.mem_cons_of_mem _ member, result⟩

theorem searchLoop_passes {bound : Int} (positive : 0 < bound) {msgs : List Letter}
    (above : ∀ msg ∈ msgs, bound < msg.mtype) (found : Option Letter) :
    searchLoop (-bound) msgs found = found := by
  induction msgs with
  | nil => rfl
  | cons head rest ih =>
      have first := above head List.mem_cons_self
      rw [searchLoop_negative positive, if_neg (by omega)]
      exact ih (fun msg member => above msg (List.mem_cons_of_mem _ member))

/-- Whether the earliest message of the smallest type is taken depends on the bound it is met
with. -/
theorem searchLoop_smallest {msgs : List Letter} {bound : Int} {before behind : List Letter}
    {msg : Letter} (wanted : EarliestSmallest msgs bound before msg behind)
    (positive : ∀ msg ∈ msgs, 1 ≤ msg.mtype) (distinct : msg ∉ behind) :
    searchLoop (-bound) msgs none = some msg ↔
      ∀ other ∈ behind, lowered bound before ≤ other.mtype := by
  have member : msg ∈ msgs := by
    rw [wanted.parts]
    exact List.mem_append_right _ List.mem_cons_self
  have low := positive msg member
  obtain ⟨met, found, searched⟩ :=
    searchLoop_lowers low (msg :: behind) before none wanted.within wanted.earliest
  rw [wanted.parts, searched, searchLoop_negative (by omega), if_pos met]
  by_cases more : 1 < lowered bound before
  · rw [if_pos more]
    constructor
    · intro taken other inside
      by_contra small
      obtain ⟨later, within, result⟩ := searchLoop_replaces
        (show 0 < lowered bound before - 1 by omega) (some msg) ⟨other, inside, by omega⟩
      rw [taken] at result
      cases result
      exact distinct within
    · intro above
      apply searchLoop_passes (by omega)
      intro other inside
      have here := above other inside
      omega
  · rw [if_neg more]
    refine iff_of_true rfl ?_
    intro other inside
    have here : other ∈ msgs := by
      rw [wanted.parts]
      exact List.mem_append_right _ (List.mem_cons_of_mem _ inside)
    have least := positive other here
    omega

theorem searchLoop_nothing_iff {msgs : List Letter} {bound : Int} (positive : 0 < bound) :
    searchLoop (-bound) msgs none = none ↔ ∀ msg ∈ msgs, bound < msg.mtype := by
  constructor
  · intro missing msg member
    have unmatched := (searchLoop_eq_none missing).2 msg member
    rw [testmsg_negative positive, decide_eq_false_iff_not] at unmatched
    omega
  · intro above
    exact searchLoop_passes positive above none

/-! ### The messages of a queue -/

def NoNewSend (before after : Tid → ProcState) : Prop :=
  ∀ proc call awake, after proc = .sending call awake →
    ∃ earlier, before proc = .sending call earlier

namespace NoNewSend

variable {before middle after : Tid → ProcState} {proc : Tid} {next : ProcState}

theorem trans (first : NoNewSend before middle) (later : NoNewSend middle after) :
    NoNewSend before after := by
  intro proc call awake located
  obtain ⟨earlier, there⟩ := later proc call awake located
  exact first proc call earlier there

theorem update (procs : Tid → ProcState)
    (old : ∀ call awake, next = .sending call awake → ∃ earlier, procs proc = .sending call earlier) :
    NoNewSend procs (Function.update procs proc next) := by
  intro other call awake located
  by_cases same : other = proc
  · rw [same, Function.update_self] at located
    rw [same]
    exact old call awake located
  · rw [Function.update_of_ne same] at located
    exact ⟨awake, located⟩

theorem running (procs : Tid → ProcState) (proc : Tid) :
    NoNewSend procs (Function.update procs proc .running) := by
  apply update
  intro call awake same
  cases same

theorem receiving (procs : Tid → ProcState) (proc : Tid) (call : ReceiveCall) (slot : Slot)
    (awake : Bool) : NoNewSend procs (Function.update procs proc (.receiving call slot awake)) := by
  apply update
  intro call awake same
  cases same

theorem activate {current : ProcState} {call : SendCall} {awake : Bool}
    (located : current.activate = .sending call awake) :
    ∃ earlier, current = .sending call earlier := by
  cases current with
  | running => cases located
  | sending own earlier =>
      cases located
      exact ⟨earlier, rfl⟩
  | receiving own slot earlier => cases located

theorem assign {current : ProcState} {slot : Slot} {call : SendCall} {awake : Bool}
    (located : current.assign slot = .sending call awake) : current = .sending call awake := by
  cases current with
  | running => cases located
  | sending own earlier => exact located
  | receiving own slot earlier => cases located

theorem ssWakeup (state : System) (procs : List Tid) :
    NoNewSend state.proc (ssWakeup state procs).proc := by
  intro proc call awake located
  rw [ssWakeup_proc] at located
  split at located
  · exact activate located
  · exact ⟨awake, located⟩

theorem hand (state : System) (slot : Slot) (proc : Tid) :
    NoNewSend state.proc (state.hand slot proc).proc := by
  apply update
  intro call awake same
  obtain ⟨earlier, assigned⟩ := activate same
  exact ⟨earlier, assign assigned⟩

end NoNewSend

theorem loadMsg_mtype {pool free : List Page} {mtype : Int} {src : Bytes} {len : Nat} {msg : Msg}
    (loaded : loadMsg pool mtype src len = (some msg, free)) : msg.mtype = mtype := by
  unfold loadMsg at loaded
  split at loaded
  · cases loaded
  · simp only at loaded
    split at loaded
    · cases loaded
      rfl
    · cases loaded

/-- `sys_msgsnd` refuses types below 1, so the queued messages and those about to be queued have
larger ones. -/
structure Typed (state : System) : Prop where
  queued : ∀ slot msgq, state.ids.entries slot = some msgq → ∀ msg ∈ msgq.qMessage, 1 ≤ msg.mtype
  sending : ∀ proc call awake, state.proc proc = .sending call awake → 1 ≤ call.letter.mtype

namespace Typed

variable {state after : System}

theorem initial (pool : List Page) : Typed (System.initial pool) := by
  constructor
  · intro slot msgq live
    cases live
  · intro proc call awake located
    cases located

theorem kept (typed : Typed state) (entries : after.ids.entries = state.ids.entries)
    (sends : NoNewSend state.proc after.proc) : Typed after := by
  constructor
  · rw [entries]
    exact typed.queued
  · intro proc call awake located
    obtain ⟨earlier, there⟩ := sends proc call awake located
    exact typed.sending proc call earlier there

theorem replaced (typed : Typed state) {slot : Fin seqMultiplier} {entry : Option MsgQueue}
    (entries : after.ids.entries = Function.update state.ids.entries slot entry)
    (sends : NoNewSend state.proc after.proc)
    (new : ∀ msgq, entry = some msgq → ∀ msg ∈ msgq.qMessage, 1 ≤ msg.mtype) : Typed after := by
  constructor
  · intro other msgq live
    rw [entries] at live
    by_cases same : other = slot
    · rw [same, Function.update_self] at live
      exact new msgq live
    · rw [Function.update_of_ne same] at live
      exact typed.queued other msgq live
  · intro proc call awake located
    obtain ⟨earlier, there⟩ := sends proc call awake located
    exact typed.sending proc call earlier there

theorem msgsnd (typed : Typed state) {proc : Tid} {msgid : Int} {msgp : Option MsgBuf} {msgsz : Int}
    {msgflg : UInt32} (taken : msgsnd state proc msgid msgp msgsz msgflg = .ok after) :
    Typed after := by
  have returned : ∀ value pool, Typed ({ state with pool := pool }.ret proc value) :=
    fun value pool => typed.kept rfl (NoNewSend.running _ _)
  unfold Ipc.msgsnd at taken
  split at taken
  · split at taken
    · cases taken
      exact returned einval state.pool
    · rename_i buffer
      split at taken
      · cases taken
        exact returned einval state.pool
      · rename_i valid
        rw [not_or, Int.not_lt, Int.not_lt] at valid
        split at taken
        · cases taken
          exact returned enomem _
        · rename_i msg pool loaded
          cases taken
          constructor
          · exact typed.queued
          · intro other call awake located
            change Function.update state.proc proc _ other = _ at located
            by_cases same : other = proc
            · rw [same, Function.update_self] at located
              cases located
              change 1 ≤ msg.mtype
              rw [loadMsg_mtype loaded]
              exact valid.2
            · rw [Function.update_of_ne same] at located
              exact typed.sending other call awake located
  · cases taken

theorem outcome (typed : Typed state) {action : Action} (outcome : Outcome state action after)
    (other : ∀ proc msgid msgp msgsz msgflg, action ≠ .msgsnd proc msgid msgp msgsz msgflg) :
    Typed after := by
  cases outcome with
  | returned proc value pool idle kept => exact typed.kept rfl (NoNewSend.running _ _)
  | created proc slot idle free =>
      apply typed.replaced rfl (NoNewSend.running _ _)
      intro msgq same msg member
      cases same
      cases member
  | loaded proc call pool idle numbered taken => exact absurd rfl (other _ _ _ _ _)
  | refused proc call err located => exact typed.kept rfl (NoNewSend.running _ _)
  | slept proc call slot msgq located addressed live full =>
      apply typed.replaced rfl
      · apply NoNewSend.update
        intro call' awake same
        cases same
        exact ⟨true, located⟩
      · intro msgq' same
        cases same
        exact typed.queued slot msgq live
  | queued proc call slot msgq located addressed live room nobody =>
      apply typed.replaced rfl (NoNewSend.running _ _)
      intro msgq' same msg member
      cases same
      rcases List.mem_append.mp member with earlier | last
      · exact typed.queued slot msgq live msg earlier
      · rw [List.mem_singleton.mp last]
        exact typed.sending proc call true located
  | piped proc call slot msgq before after rcver located addressed live room waiting wanted fits =>
      apply typed.replaced rfl
      · exact (NoNewSend.running _ _).trans (NoNewSend.hand _ _ _)
      · intro msgq' same
        cases same
        exact typed.queued slot msgq live
  | taken proc slot msgq found pool value idle addressed live hit freed =>
      apply typed.replaced
      · change (ssWakeup _ _).ids.entries = _
        rw [ssWakeup_ids]
        rfl
      · exact NoNewSend.trans (NoNewSend.ssWakeup (state.setEntry slot _) msgq.qSender)
          (NoNewSend.running _ proc)
      · intro msgq' same msg member
        cases same
        exact typed.queued slot msgq live msg (List.mem_of_mem_eraseP member)
  | waited proc slot msgq call idle addressed live nothing =>
      apply typed.replaced rfl (NoNewSend.receiving _ _ _ _ _)
      intro msgq' same
      cases same
      exact typed.queued slot msgq live
  | resumed proc call letter pool value located freed =>
      exact typed.kept rfl (NoNewSend.running _ _)
  | dismissed proc call located => exact typed.kept rfl (NoNewSend.running _ _)
  | removed proc slot msgq idle addressed live =>
      apply typed.replaced
      · exact freeMsgq_entries state slot msgq
      · exact NoNewSend.trans
          (NoNewSend.ssWakeup (state.setEntry slot none) (msgq.qReceiver.map Receiver.proc))
          (NoNewSend.running _ proc)
      · intro msgq' same
        cases same

theorem of_reachable {pool : List Page} (reached : Reachable ipcStep (System.initial pool) state) :
    Typed state := by
  apply reached.invariant (Typed.initial pool)
  intro before action after typed taken
  cases action with
  | msgsnd proc msgid msgp msgsz msgflg => exact typed.msgsnd taken
  | _ => exact typed.outcome (ipcStep_outcome taken) (by intro _ _ _ _ _ same; cases same)

end Typed

/-- Every queue there can be has messages of positive types, and none of them twice. -/
theorem searched_of_reachable {pool : List Page} (fresh : (pool.map Page.number).Nodup)
    {state : System} (reached : Reachable ipcStep (System.initial pool) state)
    {slot : Fin seqMultiplier} {msgq : MsgQueue} (live : state.ids.entries slot = some msgq) :
    (∀ msg ∈ msgq.qMessage, 1 ≤ msg.mtype) ∧ (msgq.qMessage.map Letter.serial).Nodup := by
  constructor
  · exact (Typed.of_reachable reached).queued slot msgq live
  · have distinct := (custody_of_reachable fresh reached).2.serials_nodup slot
    rw [live] at distinct
    exact distinct

/-- A receive finds the right message exactly when its type is not negative, or every message of
a smaller type than asked for that stands behind the right one is outdone by a chain of messages
in front of it, which bring the bound down to its type. -/
theorem receive_finds_iff {msgs : List Letter} (positive : ∀ msg ∈ msgs, 1 ≤ msg.mtype)
    (distinct : (msgs.map Letter.serial).Nodup) (mtype : Int) :
    FindsRight msgs mtype ↔
      (mtype < 0 → ∀ before msg behind, EarliestSmallest msgs (-mtype) before msg behind →
        ∀ other ∈ behind, other.mtype < -mtype → Descends before (-mtype) other.mtype) := by
  have unrepeated : ∀ {before msg behind}, msgs = before ++ msg :: behind → msg ∉ behind := by
    intro before msg behind parts inside
    rw [parts, List.map_append, List.map_cons, List.nodup_append, List.nodup_cons] at distinct
    exact distinct.2.1.1 (List.mem_map_of_mem inside)
  constructor
  · intro right negative before msg behind wanted other inside smaller
    have taken := right.smallest negative before msg behind wanted
    rw [← Int.neg_neg mtype,
      searchLoop_smallest wanted positive (unrepeated wanted.parts)] at taken
    exact (lowered_le_iff (by omega)).mp (taken other inside)
  · intro chains
    constructor
    · intro negative before msg behind wanted
      rw [← Int.neg_neg mtype, searchLoop_smallest wanted positive (unrepeated wanted.parts)]
      intro other inside
      by_cases smaller : other.mtype < -mtype
      · exact (lowered_le_iff (by omega)).mpr
          (chains negative before msg behind wanted other inside smaller)
      · have low := lowered_le before (-mtype)
        omega
    · intro negative
      rw [← searchLoop_nothing_iff (by omega), Int.neg_neg]
    · intro zero
      rw [zero, searchLoop_eq_find (Int.le_refl 0)]
      cases msgs with
      | nil => rfl
      | cons head rest => rfl
    · intro above
      rw [searchLoop_eq_find (Int.le_of_lt above)]
      congr 1
      funext msg
      unfold testmsg
      rw [if_neg (by omega), if_neg (by omega)]
      exact decide_eq_decide.mpr eq_comm

/-- A message of type 3 and one of type 1 are sent. The type is raised at the first one, and the
second one is taken. -/
theorem receive_finds_sent : ∃ (state : System) (msgq : MsgQueue) (first second : Letter),
    Reachable ipcStep (System.initial
        [{ number := 3, data := fun _ => 0 }, { number := 4, data := fun _ => 0 }]) state ∧
      state.ids.entries ⟨0, by decide⟩ = some msgq ∧ msgq.qMessage = [first, second] ∧
      first.mtype = 3 ∧ second.mtype = 1 ∧ FindsRight msgq.qMessage (-3) := by
  obtain ⟨state, msgq, first, second, reached, live, queued, three, one⟩ :
      ∃ (state : System) (msgq : MsgQueue) (first second : Letter),
        Reachable ipcStep (System.initial
            [{ number := 3, data := fun _ => 0 }, { number := 4, data := fun _ => 0 }]) state ∧
          state.ids.entries ⟨0, by decide⟩ = some msgq ∧ msgq.qMessage = [first, second] ∧
          first.mtype = 3 ∧ second.mtype = 1 :=
    ⟨_, _, _, _, ⟨[.msgget 0 5 ipcCreate true,
      .msgsnd 0 0 (some { mtype := 3, data := fun _ => 7 }) 4 0, .sendSection 0,
      .msgsnd 0 0 (some { mtype := 1, data := fun _ => 7 }) 4 0, .sendSection 0],
      Run.of_exec rfl (Guarded.trivial _ _)⟩, rfl, rfl, rfl, rfl⟩
  refine ⟨state, msgq, first, second, reached, live, queued, three, one, ?_⟩
  obtain ⟨positive, unrepeated⟩ := searched_of_reachable (by simp) reached live
  refine (receive_finds_iff positive unrepeated (-3)).mpr ?_
  intro _ before msg behind wanted other inside _
  have least := wanted.smallest second (by simp [queued]) (by omega)
  have parts := wanted.parts
  rw [queued] at parts
  rcases List.cons_eq_append_iff.mp parts with ⟨-, head⟩ | ⟨ahead, -, rest⟩
  · cases head
    omega
  · rcases List.cons_eq_append_iff.mp rest with ⟨-, tail⟩ | ⟨further, -, none⟩
    · cases tail
      cases inside
    · cases further <;> cases none

/-- A message without segments, of this type. -/
def typedLetter (mtype : Int) (serial : Nat) : Letter :=
  { mtype := mtype
    size := 0
    page := { number := serial, data := fun _ => 0 }
    segs := []
    serial := serial }

/-- The message of type 1 is met first, and the one of type 2 replaces it. -/
theorem receive_misses_smallest : ¬FindsRight [typedLetter 1 0, typedLetter 2 1] (-5) := by
  intro right
  have taken := right.smallest (by decide) [] (typedLetter 1 0) [typedLetter 2 1] (by
    constructor
    · rfl
    · decide
    · intro other member _
      simp only [List.mem_cons, List.not_mem_nil, or_false] at member
      rcases member with same | same
      · rw [same]
      · rw [same]
        decide
    · intro other member
      cases member)
  have serials := congrArg (Option.map Letter.serial) taken
  exact absurd serials (by decide)

end LabKernel.Ipc
