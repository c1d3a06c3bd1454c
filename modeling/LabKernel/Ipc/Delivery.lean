/-
Delivery.

While no queue is removed, the messages on a queue are exactly those that it accepted and
that were not handed out, in the order of their acceptance. A message leaves by one of
two ways, off the list or straight to a sleeping receiver, and by both ways it is the
earliest that matches.
-/

import LabKernel.Ipc.Custody
import LabKernel.Lib.History

set_option autoImplicit false

namespace LabKernel.Ipc

open Common Transition History

/-! ### What a history says -/

/-- The messages a queue has accepted and not handed out, by number and type, after one more
event. -/
def pendingAfter (slot : Fin seqMultiplier) (pending : List (Nat × Int)) :
    Event → List (Nat × Int)
  | .accepted other serial mtype => if other = slot then pending ++ [(serial, mtype)] else pending
  | .handed other _ _ serial =>
      if other = slot then pending.filter (fun entry => entry.1 ≠ serial) else pending
  | _ => pending

/-- The messages a queue has accepted and not handed out, in the order of their acceptance. -/
def pendingIn (slot : Fin seqMultiplier) (history : List Event) : List (Nat × Int) :=
  history.foldl (pendingAfter slot) []

/-- The message is the earliest accepted one of those not handed out that matches. -/
def Earliest (history : List Event) (slot : Fin seqMultiplier) (rqtype : Int) (serial : Nat) :
    Prop :=
  ∃ mtype, (pendingIn slot history).find? (fun entry => testmsg rqtype entry.2) =
    some (serial, mtype)

/-- A hand-over takes the earliest message that matches, and a receive returns what was handed
to it for the type it asked for. -/
def InOrder (before : List Event) : Event → Prop
  | .handed slot _ rqtype serial => Earliest before slot rqtype serial
  | .received proc rqtype serial => ∃ slot, .handed slot proc rqtype serial ∈ before
  | _ => True

theorem pendingIn_append (slot : Fin seqMultiplier) (history events : List Event) :
    pendingIn slot (history ++ events) =
      events.foldl (pendingAfter slot) (pendingIn slot history) :=
  List.foldl_append

/-- The queued messages by number and type. -/
def listing (letters : List Letter) : List (Nat × Int) :=
  letters.map (fun letter => (letter.serial, letter.mtype))

theorem find_listing {letters : List Letter} {rqtype : Int} {found : Letter}
    (hit : letters.find? (fun msg => testmsg rqtype msg.mtype) = some found) :
    (listing letters).find? (fun entry => testmsg rqtype entry.2) =
      some (found.serial, found.mtype) := by
  unfold listing
  rw [List.find?_map]
  change Option.map _ (letters.find? (fun msg => testmsg rqtype msg.mtype)) = _
  rw [hit]
  rfl

/-- Taking out the message with a number takes its entry out of the listing. -/
theorem listing_eraseP {letters : List Letter} {serial : Nat}
    (unrepeated : (letters.map Letter.serial).Nodup) :
    listing (letters.eraseP (fun msg => msg.serial = serial)) =
      (listing letters).filter (fun entry => entry.1 ≠ serial) := by
  induction letters with
  | nil => rfl
  | cons head letters ih =>
      rw [List.map_cons, List.nodup_cons] at unrepeated
      by_cases same : head.serial = serial
      · have absent : (listing letters).filter (fun entry => decide (entry.1 ≠ serial)) =
            listing letters := by
          rw [List.filter_eq_self]
          intro entry member
          obtain ⟨letter, present, rfl⟩ := List.mem_map.mp member
          apply decide_eq_true
          intro equal
          exact unrepeated.1 (List.mem_map.mpr ⟨letter, present, equal.trans same.symm⟩)
        rw [List.eraseP_cons_of_pos (by simpa using same)]
        simp only [listing, List.map_cons, same]
        rw [List.filter_cons_of_neg (by simp)]
        exact absent.symm
      · rw [List.eraseP_cons_of_neg (by simpa using same)]
        simp only [listing, List.map_cons]
        rw [List.filter_cons_of_pos (by simpa using same)]
        exact congrArg (List.cons _) (ih unrepeated.2)

/-! ### Where an accepted message is -/

/-- What a receive has been handed, with the type it asked for. -/
def ProcState.handedOver : ProcState → Option (Int × Letter)
  | .receiving call (.message letter) _ => some (call.mtype, letter)
  | _ => none

theorem ProcState.handedOver_activate (current : ProcState) :
    current.activate.handedOver = current.handedOver := by
  cases current with
  | running => rfl
  | sending call awake => rfl
  | receiving call slot awake => cases slot <;> rfl

def System.InSlot (state : System) (proc : Tid) (serial : Nat) : Prop :=
  ∃ call letter, state.proc proc = .receiving call (.message letter) true ∧
    letter.serial = serial

/-- On the list, in a slot, or returned. -/
def System.Placed (state : System) (slot : Fin seqMultiplier) (serial : Nat) : Prop :=
  serial ∈ (queuedOn (state.ids.entries slot)).map Letter.serial ∨
    (∃ proc rqtype letter, (state.proc proc).handedOver = some (rqtype, letter) ∧
      letter.serial = serial) ∨
    serial ∈ state.history.filterMap Event.received?

structure Delivery (state : System) : Prop where
  seated : Seated state
  custody : Custody state
  balanced : state.ids.Balanced
  listed : ∀ slot, listing (queuedOn (state.ids.entries slot)) = pendingIn slot state.history
  placed : ∀ slot serial mtype, .accepted slot serial mtype ∈ state.history →
    state.Placed slot serial
  handed : ∀ proc rqtype letter, (state.proc proc).handedOver = some (rqtype, letter) →
    ∃ slot, .handed slot proc rqtype letter.serial ∈ state.history
  inOrder : Each InOrder state.history

theorem Custody.serials_nodup {state : System} (custody : Custody state)
    (slot : Fin seqMultiplier) :
    ((queuedOn (state.ids.entries slot)).map Letter.serial).Nodup := by
  have once := custody.exclusive.once (.queue slot)
  simp only [System.holds] at once
  apply List.Nodup.of_map Token.serial
  rw [List.map_map]
  refine List.Sublist.nodup ?_ once
  induction queuedOn (state.ids.entries slot) with
  | nil => exact List.Sublist.refl _
  | cons letter letters ih =>
      rw [List.map_cons, List.flatMap_cons, ← List.singleton_append]
      refine List.Sublist.append ?_ ih
      exact List.singleton_sublist.mpr List.mem_cons_self

/-- No removal, and no receive of a negative type. -/
def Traffic (_ : System) : Action → Prop
  | .msgget .. | .msgsnd .. | .sendSection _ | .resume _ => True
  | .msgrcv _ _ _ _ mtype _ => 0 ≤ mtype
  | .msgctl _ _ cmd => cmd ≠ ipcRmid

namespace Delivery

variable {state after : System}

theorem recorded {proc : Tid} {rqtype : Int} {serial : Nat} {events : List Event}
    (handed : ∃ slot, .handed slot proc rqtype serial ∈ state.history) :
    ∃ slot, .handed slot proc rqtype serial ∈ state.history ++ events := by
  obtain ⟨slot, before⟩ := handed
  exact ⟨slot, List.mem_append_left _ before⟩

/-- A step that moves no message and records at most a return. -/
theorem quiet (delivery : Delivery state) {events : List Event}
    (seated : Seated after) (custody : Custody after) (balanced : after.ids.Balanced)
    (queue : ∀ slot, queuedOn (after.ids.entries slot) = queuedOn (state.ids.entries slot))
    (slots : ∀ proc, (after.proc proc).handedOver = (state.proc proc).handedOver)
    (history : after.history = state.history ++ events)
    (returns : events = [] ∨ ∃ proc value, events = [.returned proc value]) :
    Delivery after := by
  have same : (∀ slot, pendingIn slot after.history = pendingIn slot state.history) ∧
      after.history.filterMap Event.received? = state.history.filterMap Event.received? ∧
      (∀ slot serial mtype, .accepted slot serial mtype ∈ after.history →
        .accepted slot serial mtype ∈ state.history) ∧
      Each InOrder after.history := by
    rw [history]
    rcases returns with rfl | ⟨proc, value, rfl⟩
    · rw [List.append_nil]
      exact ⟨fun _ => rfl, rfl, fun _ _ _ => id, delivery.inOrder⟩
    · refine ⟨?_, ?_, ?_, delivery.inOrder.concat trivial⟩
      · intro slot
        rw [pendingIn_append]
        rfl
      · rw [List.filterMap_append]
        exact List.append_nil _
      · intro slot serial mtype member
        rcases List.mem_append.mp member with before | last
        · exact before
        · cases List.mem_singleton.mp last
  constructor
  · exact seated
  · exact custody
  · exact balanced
  · intro slot
    rw [queue, same.1]
    exact delivery.listed slot
  · intro slot serial mtype accepted
    have placed := delivery.placed slot serial mtype (same.2.2.1 slot serial mtype accepted)
    unfold System.Placed at placed ⊢
    simp only [queue, slots, same.2.1]
    exact placed
  · intro proc rqtype letter holding
    rw [slots] at holding
    rw [history]
    exact recorded (delivery.handed proc rqtype letter holding)
  · exact same.2.2.2

theorem handedOver_update {procs : Tid → ProcState} {proc : Tid} {next : ProcState}
    (same : next.handedOver = (procs proc).handedOver) :
    ∀ other, (Function.update procs proc next other).handedOver = (procs other).handedOver := by
  intro other
  by_cases here : other = proc
  · rw [here, Function.update_self, same]
  · rw [Function.update_of_ne here]

theorem queued (delivery : Delivery state) {proc : Tid} {call : SendCall}
    {slot : Fin seqMultiplier} {old new : MsgQueue} (located : state.proc proc = .sending call true)
    (live : state.ids.entries slot = some old)
    (seated : Seated after) (custody : Custody after) (balanced : after.ids.Balanced)
    (entries : after.ids.entries = Function.update state.ids.entries slot (some new))
    (letters : new.qMessage = old.qMessage ++ [call.letter])
    (procs : after.proc = Function.update state.proc proc .running)
    (history : after.history = state.history ++
      [.accepted slot call.letter.serial call.letter.mtype]) : Delivery after := by
  have slots : ∀ other, (after.proc other).handedOver = (state.proc other).handedOver := by
    intro other
    rw [procs]
    by_cases same : other = proc
    · rw [same, Function.update_self, located]
      rfl
    · rw [Function.update_of_ne same]
  have queue : queuedOn (after.ids.entries slot) =
      queuedOn (state.ids.entries slot) ++ [call.letter] := by
    rw [entries, Function.update_self, live]
    exact letters
  have others : ∀ other, other ≠ slot →
      queuedOn (after.ids.entries other) = queuedOn (state.ids.entries other) := by
    rw [entries]
    exact Custody.queuedOn_update
  constructor
  · exact seated
  · exact custody
  · exact balanced
  · intro other
    rw [history, pendingIn_append, ← delivery.listed]
    simp only [List.foldl_cons, List.foldl_nil, pendingAfter]
    by_cases same : slot = other
    · rw [← same, if_pos rfl, queue]
      exact List.map_append
    · rw [if_neg same, others other (Ne.symm same)]
  · intro other serial mtype accepted
    rw [history] at accepted
    unfold System.Placed
    simp only [slots, history, List.filterMap_append]
    rcases List.mem_append.mp accepted with before | last
    · rcases delivery.placed other serial mtype before with listed | taken | returned
      · left
        by_cases same : other = slot
        · rw [same] at listed
          rw [same, queue, List.map_append]
          exact List.mem_append_left _ listed
        · rw [others other same]
          exact listed
      · exact Or.inr (Or.inl taken)
      · exact Or.inr (Or.inr (List.mem_append_left _ returned))
    · cases List.mem_singleton.mp last
      left
      rw [queue, List.map_append]
      exact List.mem_append_right _ (List.mem_singleton.mpr rfl)
  · intro other rqtype letter holding
    rw [slots] at holding
    rw [history]
    exact recorded (delivery.handed other rqtype letter holding)
  · rw [history]
    exact delivery.inOrder.concat trivial

theorem unlisted (delivery : Delivery state) {proc : Tid} {call : SendCall} {awake : Bool}
    (located : state.proc proc = .sending call awake) (slot : Fin seqMultiplier) :
    ∀ entry ∈ pendingIn slot state.history, entry.1 ≠ call.letter.serial := by
  intro entry member same
  rw [← delivery.listed] at member
  obtain ⟨letter, queued, rfl⟩ := List.mem_map.mp member
  have inQueue : Token.serial call.letter.serial ∈ state.holds (.queue slot) := by
    rw [← same]
    exact List.mem_flatMap.mpr ⟨letter, queued, List.mem_cons_self⟩
  have inHand : Token.serial call.letter.serial ∈ state.holds (.hand proc) := by
    simp only [System.holds, located, ProcState.inHand]
    exact List.mem_flatMap.mpr ⟨call.letter, List.mem_singleton.mpr rfl, List.mem_cons_self⟩
  have apart := delivery.custody.exclusive.apart _ _ _ inQueue inHand
  cases apart

/-- A message accepted while a receiver waits for its type is the first one for that receiver:
nothing that is queued was. -/
theorem piped_earliest (delivery : Delivery state) {slot : Fin seqMultiplier} {old : MsgQueue}
    {rcver : Receiver} {mtype : Int} (live : state.ids.entries slot = some old)
    (waits : rcver ∈ old.qReceiver) (wanted : testmsg rcver.mtype mtype = true) (serial : Nat) :
    Earliest (state.history ++ [.accepted slot serial mtype]) slot rcver.mtype serial := by
  refine ⟨mtype, ?_⟩
  have nothing : (pendingIn slot state.history).find?
      (fun entry => testmsg rcver.mtype entry.2) = none := by
    rw [List.find?_eq_none, ← delivery.listed, live]
    intro entry member
    obtain ⟨letter, queued, rfl⟩ := List.mem_map.mp member
    rw [(delivery.balanced slot old live).unmatched letter queued rcver waits]
    exact Bool.false_ne_true
  rw [pendingIn_append]
  simp only [List.foldl_cons, List.foldl_nil, pendingAfter, if_true]
  rw [List.find?_append, nothing, Option.none_or, List.find?_cons]
  simp only [wanted]

theorem piped (delivery : Delivery state) {proc : Tid} {call : SendCall}
    {receive : ReceiveCall} {slot : Fin seqMultiplier} {old new : MsgQueue} {rcver : Receiver}
    (located : state.proc proc = .sending call true)
    (asleep : state.proc rcver.proc = .receiving receive .unassigned false)
    (asked : rcver.mtype = receive.mtype) (live : state.ids.entries slot = some old)
    (waits : rcver ∈ old.qReceiver) (wanted : testmsg rcver.mtype call.letter.mtype = true)
    (seated : Seated after) (custody : Custody after) (balanced : after.ids.Balanced)
    (entries : after.ids.entries = Function.update state.ids.entries slot (some new))
    (letters : new.qMessage = old.qMessage)
    (procs : after.proc = Function.update (Function.update state.proc proc .running) rcver.proc
      (.receiving receive (.message call.letter) true))
    (history : after.history = state.history ++
      [.accepted slot call.letter.serial call.letter.mtype,
        .handed slot rcver.proc rcver.mtype call.letter.serial]) : Delivery after := by
  have queue : ∀ other, queuedOn (after.ids.entries other) =
      queuedOn (state.ids.entries other) := by
    rw [entries]
    apply Custody.queuedOn_replaced
    rw [live]
    exact letters
  have served : (after.proc rcver.proc).handedOver = some (rcver.mtype, call.letter) := by
    rw [procs, Function.update_self, asked]
    rfl
  have slots : ∀ other, other ≠ rcver.proc →
      (after.proc other).handedOver = (state.proc other).handedOver := by
    intro other elsewhere
    rw [procs, Function.update_of_ne elsewhere]
    by_cases same : other = proc
    · rw [same, Function.update_self, located]
      rfl
    · rw [Function.update_of_ne same]
  have earliest := delivery.piped_earliest live waits wanted call.letter.serial
  have split : after.history =
      (state.history ++ [.accepted slot call.letter.serial call.letter.mtype]) ++
        [.handed slot rcver.proc rcver.mtype call.letter.serial] := by
    rw [history, List.append_assoc]
    rfl
  constructor
  · exact seated
  · exact custody
  · exact balanced
  · intro other
    rw [queue, history, pendingIn_append, delivery.listed]
    simp only [List.foldl_cons, List.foldl_nil, pendingAfter]
    by_cases same : slot = other
    · rw [if_pos same, if_pos same, List.filter_append, List.filter_eq_self.mpr,
        List.filter_cons_of_neg (by simp)]
      · exact (List.append_nil _).symm
      · intro entry member
        exact decide_eq_true (delivery.unlisted located other entry member)
    · rw [if_neg same, if_neg same]
  · intro target serial mtype accepted
    unfold System.Placed
    by_cases same : serial = call.letter.serial
    · exact Or.inr (Or.inl ⟨rcver.proc, rcver.mtype, call.letter, served, same.symm⟩)
    · have before : .accepted target serial mtype ∈ state.history := by
        rw [history] at accepted
        rcases List.mem_append.mp accepted with before | new
        · exact before
        · simp only [List.mem_cons, Event.accepted.injEq, List.not_mem_nil, or_false,
            reduceCtorEq] at new
          exact absurd new.2.1 same
      rcases delivery.placed target serial mtype before with listed |
        ⟨other, rqtype, letter, holding, number⟩ | returned
      · rw [queue]
        exact Or.inl listed
      · have elsewhere : other ≠ rcver.proc := by
          intro equal
          rw [equal, asleep] at holding
          cases holding
        rw [← slots other elsewhere] at holding
        exact Or.inr (Or.inl ⟨other, rqtype, letter, holding, number⟩)
      · rw [history, List.filterMap_append]
        exact Or.inr (Or.inr (List.mem_append_left _ returned))
  · intro other rqtype letter holding
    rw [history]
    by_cases same : other = rcver.proc
    · rw [same, served] at holding
      cases holding
      rw [same]
      exact ⟨slot, List.mem_append_right _ (List.mem_cons_of_mem _ List.mem_cons_self)⟩
    · rw [slots other same] at holding
      exact recorded (delivery.handed other rqtype letter holding)
  · rw [split]
    refine Each.concat (Each.concat delivery.inOrder ?_) earliest
    trivial

/-- A receive takes the first message on the list that matches. -/
theorem taken (delivery : Delivery state) (proc : Tid) {mtype : Int} (value : Int)
    {slot : Fin seqMultiplier} {old : MsgQueue} {found : Letter}
    (live : state.ids.entries slot = some old)
    (hit : old.qMessage.find? (fun msg => testmsg mtype msg.mtype) = some found)
    (seated : Seated after) (custody : Custody after) (balanced : after.ids.Balanced)
    (others : ∀ other, other ≠ slot →
      queuedOn (after.ids.entries other) = queuedOn (state.ids.entries other))
    (queue : queuedOn (after.ids.entries slot) =
      old.qMessage.eraseP (fun msg => msg.serial = found.serial))
    (procs : ∀ other, (after.proc other).handedOver = (state.proc other).handedOver)
    (history : after.history = state.history ++ [.handed slot proc mtype found.serial,
      .received proc mtype found.serial, .returned proc value]) : Delivery after := by
  have before : queuedOn (state.ids.entries slot) = old.qMessage := by
    rw [live]
    rfl
  have listed := delivery.listed slot
  have unrepeated := delivery.custody.serials_nodup slot
  rw [before] at listed unrepeated
  have earliest : Earliest state.history slot mtype found.serial := by
    refine ⟨found.mtype, ?_⟩
    rw [← listed]
    exact find_listing hit
  have split : after.history = ((state.history ++ [.handed slot proc mtype found.serial]) ++
      [.received proc mtype found.serial]) ++ [.returned proc value] := by
    rw [history, List.append_assoc, List.append_assoc]
    rfl
  constructor
  · exact seated
  · exact custody
  · exact balanced
  · intro other
    rw [history, pendingIn_append]
    simp only [List.foldl_cons, List.foldl_nil, pendingAfter]
    by_cases same : slot = other
    · rw [← same, if_pos rfl, queue, listing_eraseP unrepeated, listed]
    · rw [if_neg same, others other (Ne.symm same), delivery.listed]
  · intro target serial rqtype accepted
    have earlier : .accepted target serial rqtype ∈ state.history := by
      rw [history] at accepted
      rcases List.mem_append.mp accepted with earlier | new
      · exact earlier
      · simp only [List.mem_cons, List.not_mem_nil, or_false, reduceCtorEq] at new
    unfold System.Placed
    simp only [procs, history, List.filterMap_append]
    rcases delivery.placed target serial rqtype earlier with queued | holding | returned
    · by_cases here : target = slot
      · rw [here, before] at queued
        rw [here, queue]
        obtain ⟨letter, member, rfl⟩ := List.mem_map.mp queued
        by_cases same : letter.serial = found.serial
        · refine Or.inr (Or.inr (List.mem_append_right _ ?_))
          rw [same]
          exact List.mem_singleton.mpr rfl
        · refine Or.inl (List.mem_map.mpr ⟨letter, ?_, rfl⟩)
          exact (List.mem_eraseP_of_neg (by simpa using same)).mpr member
      · rw [others target here]
        exact Or.inl queued
    · exact Or.inr (Or.inl holding)
    · exact Or.inr (Or.inr (List.mem_append_left _ returned))
  · intro other rqtype letter holding
    rw [procs] at holding
    rw [history]
    exact recorded (delivery.handed other rqtype letter holding)
  · rw [split]
    refine Each.concat (Each.concat (Each.concat delivery.inOrder ?_) ?_) trivial
    · exact earliest
    · exact ⟨slot, List.mem_append_right _ (List.mem_singleton.mpr rfl)⟩

theorem resumed (delivery : Delivery state) {proc : Tid} {call : ReceiveCall}
    {letter : Letter} {value : Int}
    (located : state.proc proc = .receiving call (.message letter) true)
    (seated : Seated after) (custody : Custody after) (balanced : after.ids.Balanced)
    (ids : after.ids = state.ids) (procs : after.proc = Function.update state.proc proc .running)
    (history : after.history = state.history ++
      [.received proc call.mtype letter.serial, .returned proc value]) : Delivery after := by
  have own : (state.proc proc).handedOver = some (call.mtype, letter) := by
    rw [located]
    rfl
  have slots : ∀ other, other ≠ proc →
      (after.proc other).handedOver = (state.proc other).handedOver := by
    intro other elsewhere
    rw [procs, Function.update_of_ne elsewhere]
  have split : after.history = (state.history ++ [.received proc call.mtype letter.serial]) ++
      [.returned proc value] := by
    rw [history, List.append_assoc]
    rfl
  constructor
  · exact seated
  · exact custody
  · exact balanced
  · intro slot
    rw [ids, history, pendingIn_append]
    exact delivery.listed slot
  · intro slot serial mtype accepted
    have earlier : .accepted slot serial mtype ∈ state.history := by
      rw [history] at accepted
      rcases List.mem_append.mp accepted with earlier | new
      · exact earlier
      · simp only [List.mem_cons, List.not_mem_nil, or_false, reduceCtorEq] at new
    unfold System.Placed
    rw [ids, history, List.filterMap_append]
    rcases delivery.placed slot serial mtype earlier with queued |
      ⟨other, rqtype, held, holding, number⟩ | returned
    · exact Or.inl queued
    · by_cases same : other = proc
      · rw [same, own] at holding
        cases holding
        refine Or.inr (Or.inr (List.mem_append_right _ ?_))
        rw [← number]
        exact List.mem_singleton.mpr rfl
      · rw [← slots other same] at holding
        exact Or.inr (Or.inl ⟨other, rqtype, held, holding, number⟩)
    · exact Or.inr (Or.inr (List.mem_append_left _ returned))
  · intro other rqtype held holding
    rw [history]
    have elsewhere : other ≠ proc := by
      intro same
      rw [procs, same, Function.update_self] at holding
      cases holding
    rw [slots other elsewhere] at holding
    exact recorded (delivery.handed other rqtype held holding)
  · rw [split]
    refine Each.concat (Each.concat delivery.inOrder ?_) trivial
    exact delivery.handed proc call.mtype letter own

theorem step (delivery : Delivery state) {action : Action} (calls : Traffic state action)
    (outcome : Outcome state action after) : Delivery after := by
  have seated := delivery.seated.step outcome
  have custody := delivery.custody.step delivery.seated outcome
  have balanced := delivery.balanced.step outcome
  cases outcome with
  | returned proc value pool idle kept =>
      refine delivery.quiet seated custody balanced (fun _ => rfl) ?_ rfl
        (Or.inr ⟨proc, value, rfl⟩)
      exact handedOver_update (by rw [idle])
  | created proc slot idle free =>
      refine delivery.quiet seated custody balanced ?_ ?_ rfl (Or.inr ⟨proc, _, rfl⟩)
      · apply Custody.queuedOn_replaced
        rw [free]
        rfl
      · apply handedOver_update
        change _ = (state.proc proc).handedOver
        rw [idle]
  | loaded proc call pool idle numbered taken =>
      refine delivery.quiet seated custody balanced (fun _ => rfl) ?_ (List.append_nil _).symm
        (Or.inl rfl)
      apply handedOver_update
      rw [idle]
      rfl
  | refused proc call err located =>
      refine delivery.quiet seated custody balanced (fun _ => rfl) ?_ rfl
        (Or.inr ⟨proc, err, rfl⟩)
      apply handedOver_update
      rw [located]
      rfl
  | slept proc call slot msgq located addressed live full =>
      refine delivery.quiet seated custody balanced ?_ ?_
        (List.append_nil _).symm (Or.inl rfl)
      · apply Custody.queuedOn_replaced
        rw [live]
        rfl
      · apply handedOver_update
        change _ = (state.proc proc).handedOver
        rw [located]
        rfl
  | queued proc call slot msgq located addressed live room nobody =>
      exact delivery.queued located live seated custody balanced rfl rfl rfl rfl
  | piped proc call slot msgq before later rcver located addressed live room waiting wanted fits =>
      have member : rcver ∈ msgq.qReceiver := by
        rw [waiting]
        exact List.mem_append_right _ List.mem_cons_self
      obtain ⟨receive, asleep, _, asked, _⟩ := delivery.seated.receivers _ msgq live rcver member
      have different : rcver.proc ≠ proc := by
        intro same
        rw [same, located] at asleep
        cases asleep
      refine delivery.piped located asleep asked live member wanted seated custody balanced rfl rfl
        ?_ rfl
      simp only [System.record, System.hand, System.goto, System.setEntry,
        Function.update_of_ne different, asleep, ProcState.assign, ProcState.activate]
  | taken proc slot msgq found pool value idle addressed live hit freed =>
      rw [searchLoop_eq_find calls] at hit
      apply delivery.taken proc value live hit seated custody balanced
      · simp only [System.record, System.goto, ssWakeup_ids]
        exact Custody.queuedOn_update
      · simp only [System.record, System.goto, ssWakeup_ids, System.setEntry, IpcIds.setEntry,
          Function.update_self, queuedOn]
      · intro other
        by_cases same : other = proc
        · simp only [System.record, System.goto, same, Function.update_self, idle]
        · simp only [System.record, System.goto, Function.update_of_ne same, ssWakeup_proc]
          split
          · exact ProcState.handedOver_activate _
          · rfl
      · simp only [System.record, System.goto, ssWakeup_history]
        rfl
  | waited proc slot msgq call idle addressed live nothing =>
      refine delivery.quiet seated custody balanced ?_ ?_
        (List.append_nil _).symm (Or.inl rfl)
      · apply Custody.queuedOn_replaced
        rw [live]
        rfl
      · apply handedOver_update
        change _ = (state.proc proc).handedOver
        rw [idle]
        rfl
  | resumed proc call letter pool value located freed =>
      exact delivery.resumed located seated custody balanced rfl rfl rfl
  | dismissed proc call located =>
      refine delivery.quiet seated custody balanced (fun _ => rfl) ?_ rfl
        (Or.inr ⟨proc, e2big, rfl⟩)
      apply handedOver_update
      rw [located]
      rfl
  | removed proc slot msgq idle addressed live => exact absurd rfl calls

theorem initial {pool : List Page} (distinct : (pool.map Page.number).Nodup) :
    Delivery (System.initial pool) := by
  constructor
  · exact Seated.initial pool
  · exact Custody.initial distinct
  · intro slot msgq live
    cases live
  · intro slot
    rfl
  · intro slot serial mtype accepted
    cases accepted
  · intro proc rqtype letter holding
    cases holding
  · exact Each.nil

end Delivery

/-! ### Exactly once and in order -/

def System.timesQueued (state : System) (slot : Fin seqMultiplier) (serial : Nat) : Nat :=
  ((queuedOn (state.ids.entries slot)).map Letter.serial).count serial

def System.timesReturned (state : System) (serial : Nat) : Nat :=
  (state.history.filterMap Event.received?).count serial

/-- A message is at one of the three places, there once, and not at the others. -/
inductive System.AtOnePlace (state : System) (slot : Fin seqMultiplier) (serial : Nat) : Prop
  | queued (here : state.timesQueued slot serial = 1) (unreturned : state.timesReturned serial = 0)
      (unhanded : ∀ proc, ¬state.InSlot proc serial)
  | handed (unqueued : state.timesQueued slot serial = 0)
      (unreturned : state.timesReturned serial = 0) (here : ∃! proc, state.InSlot proc serial)
  | returned (unqueued : state.timesQueued slot serial = 0)
      (here : state.timesReturned serial = 1) (unhanded : ∀ proc, ¬state.InSlot proc serial)

namespace Custody

variable {state : System} {serial : Nat}

theorem held_of_queued {slot : Fin seqMultiplier}
    (queued : serial ∈ (queuedOn (state.ids.entries slot)).map Letter.serial) :
    Token.serial serial ∈ state.holds (.queue slot) := by
  obtain ⟨letter, member, rfl⟩ := List.mem_map.mp queued
  exact List.mem_flatMap.mpr ⟨letter, member, List.mem_cons_self⟩

theorem held_of_inSlot {proc : Tid} (holding : state.InSlot proc serial) :
    Token.serial serial ∈ state.holds (.slot proc) := by
  obtain ⟨call, letter, located, rfl⟩ := holding
  simp only [System.holds, located, ProcState.inSlot]
  exact List.mem_flatMap.mpr ⟨letter, List.mem_singleton.mpr rfl, List.mem_cons_self⟩

theorem held_of_returned (returned : serial ∈ state.history.filterMap Event.received?) :
    Token.serial serial ∈ state.holds .returned := List.mem_map_of_mem returned

theorem returned_nodup (custody : Custody state) :
    (state.history.filterMap Event.received?).Nodup :=
  List.Nodup.of_map Token.serial (custody.exclusive.once .returned)

end Custody

theorem Seated.inSlot_of_handedOver {state : System} (seated : Seated state) {proc : Tid}
    {rqtype : Int} {letter : Letter}
    (holding : (state.proc proc).handedOver = some (rqtype, letter)) :
    state.InSlot proc letter.serial := by
  unfold ProcState.handedOver at holding
  split at holding
  · rename_i call held awake located
    cases holding
    cases awake with
    | true => exact ⟨call, letter, located, rfl⟩
    | false => cases seated.unwritten proc call _ located
  · cases holding

theorem Delivery.atOnePlace {state : System} (delivery : Delivery state)
    {slot : Fin seqMultiplier} {serial : Nat} {mtype : Int}
    (accepted : .accepted slot serial mtype ∈ state.history) : state.AtOnePlace slot serial := by
  have apart := delivery.custody.exclusive.apart
  rcases delivery.placed slot serial mtype accepted with queued | ⟨proc, rqtype, letter, holding, rfl⟩ |
    returned
  · have here := Custody.held_of_queued queued
    apply System.AtOnePlace.queued
    · exact List.count_eq_one_of_mem (delivery.custody.serials_nodup slot) queued
    · apply List.count_eq_zero_of_not_mem
      intro returned
      cases apart _ _ _ here (Custody.held_of_returned returned)
    · intro proc holding
      cases apart _ _ _ here (Custody.held_of_inSlot holding)
  · have holding := delivery.seated.inSlot_of_handedOver holding
    have here := Custody.held_of_inSlot holding
    apply System.AtOnePlace.handed
    · apply List.count_eq_zero_of_not_mem
      intro queued
      cases apart _ _ _ here (Custody.held_of_queued queued)
    · apply List.count_eq_zero_of_not_mem
      intro returned
      cases apart _ _ _ here (Custody.held_of_returned returned)
    · refine ⟨proc, holding, ?_⟩
      intro other too
      exact Place.slot.inj (apart _ _ _ (Custody.held_of_inSlot too) here)
  · have here := Custody.held_of_returned returned
    apply System.AtOnePlace.returned
    · apply List.count_eq_zero_of_not_mem
      intro queued
      cases apart _ _ _ here (Custody.held_of_queued queued)
    · exact List.count_eq_one_of_mem delivery.custody.returned_nodup returned
    · intro proc holding
      cases apart _ _ _ here (Custody.held_of_inSlot holding)

/-- After every run without a removal, each accepted message is at one place, each hand-over
was of the earliest accepted message that matched, and each receive that returned a message
had been handed it. -/
theorem exactly_once_in_order (pool : List Page) (distinct : (pool.map Page.number).Nodup)
    (actions : List Action) (state : System)
    (run : Run ipcStep Traffic (System.initial pool) actions state) :
    (∀ slot serial mtype, .accepted slot serial mtype ∈ state.history →
        state.AtOnePlace slot serial) ∧
      (∀ before rest slot proc rqtype serial,
        state.history = before ++ .handed slot proc rqtype serial :: rest →
        Earliest before slot rqtype serial) ∧
      ∀ before rest proc rqtype serial,
        state.history = before ++ .received proc rqtype serial :: rest →
        ∃ slot, .handed slot proc rqtype serial ∈ before := by
  have delivery : Delivery state := by
    apply run.invariant (Delivery.initial distinct)
    intro state action after delivery calls taken
    exact delivery.step calls (ipcStep_outcome taken)
  refine ⟨?_, ?_, ?_⟩
  · intro slot serial mtype accepted
    exact delivery.atOnePlace accepted
  · intro before rest slot proc rqtype serial split
    exact delivery.inOrder before _ rest split
  · intro before rest proc rqtype serial split
    exact delivery.inOrder before _ rest split

/-- A receiver sleeps and is handed the first message; the second message is queued. -/
theorem exactly_once_in_order_both_ways : ∃ state : System,
    state.AtOnePlace ⟨0, by decide⟩ 0 ∧ state.InSlot 1 0 ∧ state.AtOnePlace ⟨0, by decide⟩ 1 ∧
      state.timesQueued ⟨0, by decide⟩ 1 = 1 := by
  have executed : exec ipcStep
      (System.initial [{ number := 0, data := fun _ => 0 }, { number := 1, data := fun _ => 0 }])
      [.msgget 0 5 ipcCreate true, .msgrcv 1 0 (some { mtype := 0, data := fun _ => 0 }) 8 3 0,
        .msgsnd 0 0 (some { mtype := 3, data := fun _ => 7 }) 4 0, .sendSection 0,
        .msgsnd 0 0 (some { mtype := 3, data := fun _ => 8 }) 4 0, .sendSection 0] = .ok _ := rfl
  have run : Run ipcStep Traffic _ _ _ := Run.of_exec executed
    ⟨trivial, (by decide : (0 : Int) ≤ 3), trivial, trivial, trivial, trivial, trivial⟩
  have delivered := exactly_once_in_order _ (by decide) _ _ run
  refine ⟨_, delivered.1 _ 0 3 ?_, ⟨_, _, rfl, rfl⟩, delivered.1 _ 1 3 ?_, rfl⟩
  · exact List.mem_cons_of_mem _ List.mem_cons_self
  · exact List.mem_append_right _ (List.mem_singleton.mpr rfl)

end LabKernel.Ipc
