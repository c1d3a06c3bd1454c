/-
Identifiers of message queues.

An identifier packs the slot of a queue with the number of queues created before it, modulo
the size of the counter. Slots are used again, so what tells a removed queue from the one
that now has its slot is the counter alone, and it does as long as it has not come round.
-/

import LabKernel.Ipc.Waiting
import Mathlib.Algebra.Group.Nat.Defs
import Mathlib.Data.Fintype.Card

set_option autoImplicit false

namespace LabKernel.Ipc

open Common Transition

/-! ### Queues and the calls that created them -/

/-- The message calls with the identifiers returned by the creating calls so far, oldest
first, and which of those calls created the queue of a slot. -/
structure Registry where
  system : System
  made : List Int
  born : Fin seqMultiplier → Nat

def Registry.initial (pool : List Page) : Registry :=
  { system := System.initial pool, made := [], born := fun _ => 0 }

/-- A call of `sys_msgget` has created a queue when the first free slot is free no longer. -/
def Registry.follow (reg : Registry) (action : Action) (after : System) : Registry :=
  match action, reg.system.ids.firstSlot (fun entry => entry.isNone) with
  | .msgget _ key msgflg allocated, some slot =>
      if (after.ids.entries slot).isSome then
        { system := after
          made := reg.made ++ [(sysMsgget reg.system.ids key msgflg allocated).1]
          born := Function.update reg.born slot reg.made.length }
      else { reg with system := after }
  | _, _ => { reg with system := after }

theorem Registry.follow_unmade {reg : Registry} {action : Action} {after : System}
    (unmade : ∀ proc key msgflg allocated slot, action = .msgget proc key msgflg allocated →
      reg.system.ids.firstSlot (fun entry => entry.isNone) = some slot →
        after.ids.entries slot = none) :
    reg.follow action after = { reg with system := after } := by
  unfold follow
  split
  · rename_i proc key msgflg allocated slot searched
    rw [unmade proc key msgflg allocated slot rfl searched]
    rfl
  · rfl

def registryStep (reg : Registry) (action : Action) : Except Stop Registry :=
  match ipcStep reg.system action with
  | .error reason => .error reason
  | .ok after => .ok (reg.follow action after)

/-! ### What a call does to the table -/

/-- What identifies the queue of a slot. -/
def IpcIds.name (ids : IpcIds) (slot : Fin seqMultiplier) : Option (Int × UInt16) :=
  (ids.entries slot).map (fun que => (que.key, que.seq))

def IpcIds.liveSlots (ids : IpcIds) : Finset (Fin seqMultiplier) :=
  Finset.univ.filter (fun slot => (ids.name slot).isSome)

structure IpcIds.SameNames (before after : IpcIds) : Prop where
  inUse : after.inUse = before.inUse
  seq : after.seq = before.seq
  names : after.name = before.name

/-- A queue is added in a free slot. A key other than `IPC_PRIVATE` was not there. -/
structure IpcIds.Added (before : IpcIds) (slot : Fin seqMultiplier) (key : Int)
    (after : IpcIds) : Prop where
  inUse : after.inUse = before.inUse + 1
  seq : after.seq = before.seq + 1
  free : before.name slot = none
  names : after.name = Function.update before.name slot (some (key, before.seq))
  unused : key ≠ ipcPrivate → ∀ other seq, before.name other ≠ some (key, seq)

structure IpcIds.Dropped (before : IpcIds) (slot : Fin seqMultiplier) (after : IpcIds) : Prop where
  inUse : after.inUse = before.inUse - 1
  seq : after.seq = before.seq
  live : (before.name slot).isSome
  names : after.name = Function.update before.name slot none

theorem IpcIds.name_some {ids : IpcIds} {slot : Fin seqMultiplier} {key : Int} {seq : UInt16} :
    ids.name slot = some (key, seq) ↔
      ∃ que, ids.entries slot = some que ∧ que.key = key ∧ que.seq = seq := by
  unfold name
  simp only [Option.map_eq_some_iff, Prod.mk.injEq]

theorem IpcIds.name_update {ids after : IpcIds} {slot : Fin seqMultiplier}
    {entry : Option MsgQueue} (entries : after.entries = Function.update ids.entries slot entry) :
    after.name = Function.update ids.name slot (entry.map (fun que => (que.key, que.seq))) := by
  funext other
  unfold name
  rw [entries]
  by_cases same : other = slot
  · rw [same, Function.update_self, Function.update_self]
  · rw [Function.update_of_ne same, Function.update_of_ne same]

theorem IpcIds.SameNames.replace {ids : IpcIds} {slot : Fin seqMultiplier} {que que' : MsgQueue}
    (live : ids.entries slot = some que) (key : que'.key = que.key) (seq : que'.seq = que.seq) :
    ids.SameNames (ids.setEntry slot (some que')) := by
  refine ⟨rfl, rfl, ?_⟩
  rw [name_update rfl, Option.map_some, key, seq]
  have here : ids.name slot = some (que.key, que.seq) := name_some.mpr ⟨que, live, rfl, rfl⟩
  rw [← here, Function.update_eq_self]

theorem newque_cases (ids : IpcIds) (key : Int) (allocated : Bool) :
    (newque ids key allocated).2 = ids ∨
      ∃ slot, ids.firstSlot (fun entry => entry.isNone) = some slot ∧
        (newque ids key allocated).1 = ipcBuildin slot ids.seq ∧
        ∃ que : MsgQueue, que.key = key ∧ que.seq = ids.seq ∧ (newque ids key allocated).2 =
          { inUse := ids.inUse + 1
            seq := ids.seq + 1
            entries := Function.update ids.entries slot (some que) } := by
  unfold newque
  cases allocated with
  | false => exact Or.inl rfl
  | true =>
      rw [if_pos rfl]
      split
      · exact Or.inl rfl
      · rename_i slot searched
        exact Or.inr ⟨slot, searched, rfl, _, rfl, rfl, rfl⟩

theorem ipcFindkey_none {ids : IpcIds} {key : Int} (missing : ipcFindkey ids key = none)
    (slot : Fin seqMultiplier) (seq : UInt16) : ids.name slot ≠ some (key, seq) := by
  intro named
  obtain ⟨que, live, rfl, _⟩ := IpcIds.name_some.mp named
  have tested := List.find?_eq_none.mp missing slot (List.mem_finRange slot)
  simp only [live, Option.any_some, decide_true, not_true_eq_false] at tested

theorem ipcFindkey_some {ids : IpcIds} {key : Int} {slot : Fin seqMultiplier}
    (found : ipcFindkey ids key = some slot) :
    ∃ que, ids.entries slot = some que ∧ que.key = key := by
  have tested := List.find?_some found
  simp only [Option.any_eq_true, decide_eq_true_eq] at tested
  exact tested

theorem sysMsgget_cases (ids : IpcIds) (key : Int) (msgflg : UInt32) (allocated : Bool) :
    (sysMsgget ids key msgflg allocated).2 = ids ∨
      ∃ slot, ids.firstSlot (fun entry => entry.isNone) = some slot ∧
        (sysMsgget ids key msgflg allocated).1 = ipcBuildin slot ids.seq ∧
        ids.Added slot key (sysMsgget ids key msgflg allocated).2 := by
  have added : (key ≠ ipcPrivate → ipcFindkey ids key = none) →
      (newque ids key allocated).2 = ids ∨
        ∃ slot, ids.firstSlot (fun entry => entry.isNone) = some slot ∧
          (newque ids key allocated).1 = ipcBuildin slot ids.seq ∧
          ids.Added slot key (newque ids key allocated).2 := by
    intro missing
    rcases newque_cases ids key allocated with
      same | ⟨slot, searched, value, que, rfl, seq, table⟩
    · exact Or.inl same
    · have names := IpcIds.name_update (congrArg IpcIds.entries table)
      refine Or.inr ⟨slot, searched, value, ?_⟩
      constructor
      · rw [table]
      · rw [table]
      · have free := List.find?_some searched
        unfold IpcIds.name
        rw [Option.isNone_iff_eq_none.mp free, Option.map_none]
      · rw [names, Option.map_some, seq]
      · intro foreign
        exact ipcFindkey_none (missing foreign)
  unfold sysMsgget
  split
  · rename_i isPrivate
    exact added (fun foreign => absurd isPrivate foreign)
  · split
    · rename_i missing
      split
      · exact added (fun _ => missing)
      · exact Or.inl rfl
    · split
      · exact Or.inl rfl
      · split
        · exact Or.inl rfl
        · exact Or.inl rfl

/-- What a step of the message calls does to the names: nothing, or it creates a queue, or
removes one. -/
theorem Outcome.names {state after : System} {action : Action}
    (other : ∀ proc key msgflg allocated, action ≠ .msgget proc key msgflg allocated)
    (outcome : Outcome state action after) :
    state.ids.SameNames after.ids ∨ ∃ slot, state.ids.Dropped slot after.ids := by
  cases outcome with
  | returned proc value pool idle kept => exact Or.inl ⟨rfl, rfl, rfl⟩
  | created proc slot idle free => exact absurd rfl (other _ _ _ _)
  | loaded proc call pool idle numbered taken => exact Or.inl ⟨rfl, rfl, rfl⟩
  | refused proc call err located => exact Or.inl ⟨rfl, rfl, rfl⟩
  | slept proc call slot msgq located addressed live full =>
      exact Or.inl (.replace live rfl rfl)
  | queued proc call slot msgq located addressed live room nobody =>
      exact Or.inl (.replace live rfl rfl)
  | piped proc call slot msgq before after rcver located addressed live room waiting wanted fits =>
      exact Or.inl (.replace live rfl rfl)
  | taken proc slot msgq found pool value idle addressed live hit freed =>
      left
      change state.ids.SameNames (ssWakeup _ _).ids
      rw [ssWakeup_ids]
      exact .replace live rfl rfl
  | waited proc slot msgq call idle addressed live nothing =>
      exact Or.inl (.replace live rfl rfl)
  | resumed proc call letter pool value located freed => exact Or.inl ⟨rfl, rfl, rfl⟩
  | dismissed proc call located => exact Or.inl ⟨rfl, rfl, rfl⟩
  | removed proc slot msgq idle addressed live =>
      right
      refine ⟨slot, ?_, ?_, ?_, ?_⟩
      · change (ssWakeup _ _).ids.inUse - 1 = _
        rw [ssWakeup_ids]
        rfl
      · change (ssWakeup _ _).ids.seq = _
        rw [ssWakeup_ids]
        rfl
      · unfold IpcIds.name
        rw [live]
        rfl
      · exact IpcIds.name_update (freeMsgq_entries state slot msgq)

/-! ### The invariant -/

/-- The count of live queues is right, no key but `IPC_PRIVATE` has two queues, and every
identifier names the slot of its queue and the place of its call among the creating calls. The
queue in a slot is the last one that was created there. -/
structure Registered (reg : Registry) : Prop where
  counted : reg.system.ids.inUse = (reg.system.ids.liveSlots.card : Int)
  keyed : ∀ left right key leftSeq rightSeq, reg.system.ids.name left = some (key, leftSeq) →
    reg.system.ids.name right = some (key, rightSeq) → key ≠ ipcPrivate → left = right
  next : reg.system.ids.seq = UInt16.ofNat reg.made.length
  live : ∀ slot key seq, reg.system.ids.name slot = some (key, seq) →
    seq = UInt16.ofNat (reg.born slot) ∧
      reg.made[reg.born slot]? = some (ipcBuildin slot (UInt16.ofNat (reg.born slot)))
  latest : ∀ (n : Nat) id, reg.made[n]? = some id →
    ∃ slot, id = ipcBuildin slot (UInt16.ofNat n) ∧
      ((reg.system.ids.name slot).isSome → n ≤ reg.born slot)

namespace Registered

variable {reg after : Registry}

theorem initial (pool : List Page) : Registered (Registry.initial pool) := by
  constructor
  · rfl
  · intro left right key leftSeq rightSeq named
    cases named
  · rfl
  · intro slot key seq named
    cases named
  · intro n id made
    cases made

theorem kept (registered : Registered reg) (made : after.made = reg.made)
    (born : after.born = reg.born) (same : reg.system.ids.SameNames after.system.ids) :
    Registered after := by
  constructor
  · rw [same.inUse, registered.counted]
    unfold IpcIds.liveSlots
    rw [same.names]
  · rw [same.names]
    exact registered.keyed
  · rw [same.seq, made]
    exact registered.next
  · rw [same.names, made, born]
    exact registered.live
  · rw [same.names, made, born]
    exact registered.latest

theorem added (registered : Registered reg) {slot : Fin seqMultiplier} {key : Int}
    (new : reg.system.ids.Added slot key after.system.ids)
    (made : after.made = reg.made ++ [ipcBuildin slot reg.system.ids.seq])
    (born : after.born = Function.update reg.born slot reg.made.length) : Registered after := by
  have elsewhere : ∀ other pair, other ≠ slot → after.system.ids.name other = some pair →
      reg.system.ids.name other = some pair := by
    intro other pair different named
    rw [new.names, Function.update_of_ne different] at named
    exact named
  have here : after.system.ids.name slot = some (key, reg.system.ids.seq) := by
    rw [new.names, Function.update_self]
  constructor
  · have slots : after.system.ids.liveSlots = insert slot reg.system.ids.liveSlots := by
      ext other
      simp only [IpcIds.liveSlots, Finset.mem_filter, Finset.mem_univ, true_and, Finset.mem_insert,
        new.names]
      by_cases same : other = slot
      · simp [same]
      · simp [same]
    have absent : slot ∉ reg.system.ids.liveSlots := by
      simp [IpcIds.liveSlots, new.free]
    rw [new.inUse, registered.counted, slots, Finset.card_insert_of_notMem absent]
    push_cast
    rfl
  · intro left right shared leftSeq rightSeq leftName rightName foreign
    by_cases isLeft : left = slot <;> by_cases isRight : right = slot
    · rw [isLeft, isRight]
    · rw [isLeft, here] at leftName
      cases leftName
      exact absurd (elsewhere right _ isRight rightName) (new.unused foreign _ _)
    · rw [isRight, here] at rightName
      cases rightName
      exact absurd (elsewhere left _ isLeft leftName) (new.unused foreign _ _)
    · exact registered.keyed left right shared leftSeq rightSeq (elsewhere left _ isLeft leftName)
        (elsewhere right _ isRight rightName) foreign
  · rw [new.seq, registered.next, made, List.length_append, List.length_singleton]
    exact (UInt16.ofNat_add _ _).symm
  · intro other shared seq named
    by_cases same : other = slot
    · rw [same, here] at named
      cases named
      rw [same, born, Function.update_self, made, registered.next]
      exact ⟨rfl, List.getElem?_concat_length⟩
    · obtain ⟨numbered, recorded⟩ := registered.live other shared seq (elsewhere other _ same named)
      rw [born, Function.update_of_ne same, made]
      constructor
      · exact numbered
      · rw [List.getElem?_append_left (List.getElem?_eq_some_iff.mp recorded).1]
        exact recorded
  · intro n id recorded
    rw [made] at recorded
    by_cases old : n < reg.made.length
    · rw [List.getElem?_append_left old] at recorded
      obtain ⟨place, packed, last⟩ := registered.latest n id recorded
      refine ⟨place, packed, ?_⟩
      rw [born]
      by_cases same : place = slot
      · intro _
        rw [same, Function.update_self]
        exact Nat.le_of_lt old
      · rw [new.names, Function.update_of_ne same, Function.update_of_ne same]
        exact last
    · have bound := (List.getElem?_eq_some_iff.mp recorded).1
      rw [List.length_append, List.length_singleton] at bound
      obtain rfl : n = reg.made.length := by omega
      rw [List.getElem?_concat_length] at recorded
      refine ⟨slot, ?_, ?_⟩
      · rw [← Option.some.inj recorded, registered.next]
      · intro _
        rw [born, Function.update_self]

theorem dropped (registered : Registered reg) (made : after.made = reg.made)
    (born : after.born = reg.born) {slot : Fin seqMultiplier}
    (gone : reg.system.ids.Dropped slot after.system.ids) : Registered after := by
  have elsewhere : ∀ other pair, after.system.ids.name other = some pair →
      reg.system.ids.name other = some pair := by
    intro other pair named
    rw [gone.names] at named
    by_cases same : other = slot
    · rw [same, Function.update_self] at named
      cases named
    · rw [Function.update_of_ne same] at named
      exact named
  constructor
  · have slots : after.system.ids.liveSlots = reg.system.ids.liveSlots.erase slot := by
      ext other
      simp only [IpcIds.liveSlots, Finset.mem_filter, Finset.mem_univ, true_and, Finset.mem_erase,
        gone.names]
      by_cases same : other = slot
      · simp [same]
      · simp [same]
    have present : slot ∈ reg.system.ids.liveSlots := by
      simp only [IpcIds.liveSlots, Finset.mem_filter, Finset.mem_univ, true_and]
      exact gone.live
    have positive := Finset.card_pos.mpr ⟨slot, present⟩
    rw [gone.inUse, registered.counted, slots, Finset.card_erase_of_mem present]
    omega
  · intro left right key leftSeq rightSeq leftName rightName
    exact registered.keyed left right key leftSeq rightSeq (elsewhere left _ leftName)
      (elsewhere right _ rightName)
  · rw [gone.seq, made]
    exact registered.next
  · intro other key seq named
    rw [made, born]
    exact registered.live other key seq (elsewhere other _ named)
  · intro n id recorded
    rw [made] at recorded
    obtain ⟨place, packed, last⟩ := registered.latest n id recorded
    refine ⟨place, packed, ?_⟩
    intro live
    obtain ⟨pair, named⟩ := Option.isSome_iff_exists.mp live
    rw [born]
    apply last
    rw [elsewhere place pair named]
    rfl

theorem msgget (registered : Registered reg) {proc : Tid} {key : Int} {msgflg : UInt32}
    {allocated : Bool} {system : System}
    (stepped : Ipc.msgget reg.system proc key msgflg allocated = .ok system) :
    Registered (reg.follow (.msgget proc key msgflg allocated) system) := by
  have ids : system.ids = (sysMsgget reg.system.ids key msgflg allocated).2 := by
    unfold Ipc.msgget at stepped
    split at stepped
    · cases stepped
      rfl
    · cases stepped
  rcases sysMsgget_cases reg.system.ids key msgflg allocated with
    same | ⟨slot, searched, value, new⟩
  · rw [same] at ids
    rw [Registry.follow_unmade]
    · apply registered.kept
      · rfl
      · rfl
      · rw [ids]
        exact ⟨rfl, rfl, rfl⟩
    · intro _ _ _ _ slot _ searched
      have free := List.find?_some searched
      rw [ids]
      exact Option.isNone_iff_eq_none.mp free
  · rw [← ids] at new
    have made : (system.ids.entries slot).isSome = true := by
      have named : system.ids.name slot = some (key, reg.system.ids.seq) := by
        rw [new.names, Function.update_self]
      obtain ⟨que, live, _⟩ := IpcIds.name_some.mp named
      rw [live]
      rfl
    unfold Registry.follow
    simp only [searched]
    rw [if_pos made]
    apply registered.added new
    · rw [value]
    · rfl

theorem step (registered : Registered reg) {action : Action}
    (taken : registryStep reg action = .ok after) : Registered after := by
  unfold registryStep at taken
  split at taken
  · cases taken
  · rename_i system stepped
    cases taken
    by_cases gets : ∃ proc key msgflg allocated, action = .msgget proc key msgflg allocated
    · obtain ⟨proc, key, msgflg, allocated, rfl⟩ := gets
      exact registered.msgget stepped
    · have other : ∀ proc key msgflg allocated, action ≠ .msgget proc key msgflg allocated :=
        fun proc key msgflg allocated same => gets ⟨proc, key, msgflg, allocated, same⟩
      rw [Registry.follow_unmade (fun _ _ _ _ _ same => absurd same (other _ _ _ _))]
      rcases (ipcStep_outcome stepped).names other with same | ⟨slot, gone⟩
      · exact registered.kept rfl rfl same
      · exact registered.dropped rfl rfl gone

end Registered

/-! ### Resolving an identifier -/

theorem getMsgq_buildin (ids : IpcIds) (slot : Fin seqMultiplier) (seq : UInt16) :
    getMsgq ids (ipcBuildin slot seq) =
      .ok (if (ids.entries slot).any (fun que => que.seq = seq) then some slot else none) := by
  have small := slot.isLt
  have nonneg : 0 ≤ ipcBuildin slot seq := by
    unfold ipcBuildin seqMultiplier
    omega
  have low : (ipcBuildin slot seq).tmod seqMultiplier = slot.val := by
    rw [Int.tmod_eq_emod_of_nonneg nonneg]
    unfold ipcBuildin seqMultiplier at *
    omega
  have high : (ipcBuildin slot seq).tdiv seqMultiplier = seq.toNat := by
    rw [Int.tdiv_eq_ediv_of_nonneg nonneg]
    unfold ipcBuildin seqMultiplier at *
    omega
  unfold getMsgq
  simp only [low, high, Int.toNat_natCast]
  rw [if_neg (by omega), dif_pos small]
  cases live : ids.entries slot with
  | none => simp only [Option.any_none, Bool.false_eq_true, if_false]
  | some que =>
      simp only [Option.any_some, decide_eq_true_eq]
      by_cases same : que.seq = seq
      · rw [if_pos same, if_neg (by rw [same]; exact fun different => different rfl)]
      · have different : (seq.toNat : Int) ≠ que.seq.toNat := by
          intro equal
          exact same (UInt16.toNat.inj (Int.ofNat.inj equal).symm)
        rw [if_neg same, if_pos different]

theorem ipcBuildin_nonneg (slot : Fin seqMultiplier) (seq : UInt16) :
    0 ≤ ipcBuildin slot seq := by
  unfold ipcBuildin seqMultiplier
  omega

theorem ipcBuildin_slot {left right : Fin seqMultiplier} {leftSeq rightSeq : UInt16}
    (same : ipcBuildin left leftSeq = ipcBuildin right rightSeq) : left = right := by
  have leftSmall := left.isLt
  have rightSmall := right.isLt
  unfold ipcBuildin seqMultiplier at *
  apply Fin.ext
  omega

namespace Registered

variable {reg : Registry}

/-- A live queue is found under the identifier its creating call has returned. -/
theorem resolves (registered : Registered reg) {slot : Fin seqMultiplier} {que : MsgQueue}
    (live : reg.system.ids.entries slot = some que) :
    reg.made[reg.born slot]? = some (ipcBuildin slot que.seq) ∧
      getMsgq reg.system.ids (ipcBuildin slot que.seq) = .ok (some slot) := by
  obtain ⟨numbered, recorded⟩ := registered.live slot que.key que.seq
    (IpcIds.name_some.mpr ⟨que, live, rfl, rfl⟩)
  rw [numbered]
  constructor
  · exact recorded
  · rw [getMsgq_buildin, live, Option.any_some, numbered, decide_eq_true rfl, if_pos rfl]

/-- `sys_msgget` of the key of a live queue returns its identifier, or fails. -/
theorem gets (registered : Registered reg) {slot : Fin seqMultiplier} {que : MsgQueue}
    (live : reg.system.ids.entries slot = some que) (foreign : que.key ≠ ipcPrivate)
    (msgflg : UInt32) (allocated : Bool)
    (success : 0 ≤ (sysMsgget reg.system.ids que.key msgflg allocated).1) :
    (sysMsgget reg.system.ids que.key msgflg allocated).1 = ipcBuildin slot que.seq := by
  have named : reg.system.ids.name slot = some (que.key, que.seq) :=
    IpcIds.name_some.mpr ⟨que, live, rfl, rfl⟩
  unfold sysMsgget at success ⊢
  rw [if_neg foreign] at success ⊢
  cases found : ipcFindkey reg.system.ids que.key with
  | none => exact absurd named (ipcFindkey_none found slot que.seq)
  | some other =>
      obtain ⟨que', live', key⟩ := ipcFindkey_some found
      have same : other = slot := registered.keyed other slot que.key que'.seq que.seq
        (IpcIds.name_some.mpr ⟨que', live', key, rfl⟩) named foreign
      rw [found] at success
      simp only [live, same] at success ⊢
      split at success
      · change 0 ≤ eexist at success
        exact absurd success (by decide)
      · rename_i shared
        rw [if_neg shared]

/-- The identifier of a removed queue resolves to nothing until the counter has come round. -/
theorem forgotten (registered : Registered reg) {n : Nat} {id : Int}
    (recorded : reg.made[n]? = some id)
    (removed : ∀ slot, (reg.system.ids.entries slot).isSome → reg.born slot ≠ n)
    (recent : reg.made.length - (n + 1) < 2 ^ 16) : getMsgq reg.system.ids id = .ok none := by
  obtain ⟨slot, packed, last⟩ := registered.latest n id recorded
  rw [packed, getMsgq_buildin]
  cases live : reg.system.ids.entries slot with
  | none => rfl
  | some que =>
      have named : reg.system.ids.name slot = some (que.key, que.seq) :=
        IpcIds.name_some.mpr ⟨que, live, rfl, rfl⟩
      obtain ⟨numbered, owned⟩ := registered.live slot que.key que.seq named
      have later : n ≤ reg.born slot := by
        apply last
        rw [named]
        rfl
      have different : reg.born slot ≠ n := by
        apply removed
        rw [live]
        rfl
      have within := (List.getElem?_eq_some_iff.mp owned).1
      have fresh : que.seq ≠ UInt16.ofNat n := by
        rw [numbered]
        intro same
        have residues := congrArg UInt16.toNat same
        simp only [UInt16.toNat_ofNat'] at residues
        omega
      rw [Option.any_some, decide_eq_false fresh]
      rfl

end Registered

/-- In every state the message calls can reach, the identifiers of the queues are as the
table says. -/
theorem queue_identifiers (pool : List Page) (reg : Registry)
    (reached : Reachable registryStep (Registry.initial pool) reg) :
    (reg.system.ids.inUse =
        ((Finset.univ.filter (fun slot => (reg.system.ids.entries slot).isSome)).card : Int) ∧
      reg.system.ids.inUse ≤ 16) ∧
    (∀ left right leftQue rightQue, reg.system.ids.entries left = some leftQue →
      reg.system.ids.entries right = some rightQue → leftQue.key = rightQue.key →
      leftQue.key ≠ ipcPrivate → left = right) ∧
    (∀ slot que, reg.system.ids.entries slot = some que →
      ∃ id, reg.made[reg.born slot]? = some id ∧ 0 ≤ id ∧
        getMsgq reg.system.ids id = .ok (some slot) ∧
        (que.key ≠ ipcPrivate → ∀ msgflg allocated,
          0 ≤ (sysMsgget reg.system.ids que.key msgflg allocated).1 →
          (sysMsgget reg.system.ids que.key msgflg allocated).1 = id) ∧
        ∀ other que', reg.system.ids.entries other = some que' →
          reg.made[reg.born other]? = some id → other = slot) ∧
    ∀ n id, reg.made[n]? = some id →
      (∀ slot, (reg.system.ids.entries slot).isSome → reg.born slot ≠ n) →
      reg.made.length - (n + 1) < 65536 → getMsgq reg.system.ids id = .ok none := by
  have registered : Registered reg :=
    reached.invariant (Registered.initial pool) (fun _ _ _ registered taken => registered.step taken)
  refine ⟨⟨?_, ?_⟩, ?_, ?_, ?_⟩
  · rw [registered.counted]
    simp only [IpcIds.liveSlots, IpcIds.name, Option.isSome_map]
  · rw [registered.counted]
    have bound := Finset.card_le_univ reg.system.ids.liveSlots
    rw [Fintype.card_fin] at bound
    exact Int.ofNat_le.mpr bound
  · intro left right leftQue rightQue leftLive rightLive same foreign
    exact registered.keyed left right leftQue.key leftQue.seq rightQue.seq
      (IpcIds.name_some.mpr ⟨leftQue, leftLive, rfl, rfl⟩)
      (IpcIds.name_some.mpr ⟨rightQue, rightLive, same.symm, rfl⟩) foreign
  · intro slot que live
    obtain ⟨recorded, found⟩ := registered.resolves live
    refine ⟨ipcBuildin slot que.seq, recorded, ipcBuildin_nonneg _ _, found, ?_, ?_⟩
    · intro foreign msgflg allocated
      exact registered.gets live foreign msgflg allocated
    · intro other que' live' same
      rw [(registered.resolves live').1] at same
      exact ipcBuildin_slot (Option.some.inj same)
  · intro n id recorded removed recent
    exact registered.forgotten recorded removed recent

/-- A queue is removed and another one created in its slot. -/
theorem queue_identifiers_slot_reused : ∃ reg : Registry,
    Reachable registryStep (Registry.initial []) reg ∧ reg.made = [0, 16] ∧
      getMsgq reg.system.ids 0 = .ok none ∧ getMsgq reg.system.ids 16 = .ok (some ⟨0, by decide⟩) := by
  have executed : exec registryStep (Registry.initial [])
      [.msgget 0 7 ipcCreate true, .msgctl 0 0 ipcRmid, .msgget 0 7 ipcCreate true] = .ok _ := rfl
  have reached := Reachable.of_exec executed
  have identifiers := queue_identifiers [] _ reached
  refine ⟨_, reached, rfl, ?_, ?_⟩
  · exact identifiers.2.2.2 0 0 rfl (by decide) (by decide)
  · obtain ⟨id, made, _, found, _⟩ := identifiers.2.2.1 ⟨0, by decide⟩ _ rfl
    cases made
    exact found

end LabKernel.Ipc
