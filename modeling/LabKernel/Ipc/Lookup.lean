/-
Looking up a message queue by its identifier.

An identifier is split into a slot and a sequence number by the division of C, which rounds
towards zero. The remainder of a negative number is negative, and only its upper bound is
checked.
-/

import LabKernel.Ipc.Identifiers

set_option autoImplicit false

namespace LabKernel.Ipc

open Common

/-- The number is the identifier of the live queue in this slot. -/
def IpcIds.Names (ids : IpcIds) (msgid : Int) (slot : Fin seqMultiplier) : Prop :=
  ∃ que, ids.entries slot = some que ∧ msgid = ipcBuildin slot que.seq

section

variable {ids : IpcIds} {msgid : Int} {slot : Fin seqMultiplier}

theorem getMsgq_eq_some_iff : getMsgq ids msgid = .ok (some slot) ↔ ids.Names msgid slot := by
  constructor
  · intro found
    obtain ⟨low, que, live, high⟩ := getMsgq_some found
    refine ⟨que, live, ?_⟩
    have split := Int.tmod_add_mul_tdiv msgid seqMultiplier
    rw [← low, high] at split
    unfold ipcBuildin
    rw [← split, Int.mul_comm, Int.add_comm]
  · intro named
    obtain ⟨que, live, same⟩ := named
    rw [same, getMsgq_buildin, live, Option.any_some, decide_eq_true rfl, if_pos rfl]

/-- The remainder indexes the table unless it is negative. -/
theorem tmod_nonneg_iff :
    0 ≤ msgid.tmod seqMultiplier ↔ 0 ≤ msgid ∨ (seqMultiplier : Int) ∣ msgid := by
  constructor
  · intro nonneg
    by_cases below : 0 ≤ msgid
    · exact Or.inl below
    · right
      apply Int.dvd_of_tmod_eq_zero
      have opposite := Int.tmod_nonneg (seqMultiplier : Int) (a := -msgid) (by omega)
      rw [Int.neg_tmod] at opposite
      omega
  · rintro (nonneg | divides)
    · exact Int.tmod_nonneg _ nonneg
    · rw [Int.tmod_eq_zero_of_dvd divides]

/-- The lookup stays inside the table exactly for the numbers with such a remainder. -/
theorem getMsgq_inside_iff : (∃ found, getMsgq ids msgid = .ok found) ↔
    0 ≤ msgid ∨ (seqMultiplier : Int) ∣ msgid := by
  rw [← tmod_nonneg_iff]
  unfold getMsgq
  simp only
  constructor
  · rintro ⟨found, looked⟩
    by_contra negative
    rw [if_pos (Int.not_le.mp negative)] at looked
    cases looked
  · intro nonneg
    rw [if_neg (Int.not_lt.mpr nonneg)]
    split
    · split
      · exact ⟨none, rfl⟩
      · split
        · exact ⟨none, rfl⟩
        · exact ⟨some _, rfl⟩
    · exact ⟨none, rfl⟩

end

/-- The lookup of a number reads the table only and finds exactly the queue it names. The calls
on a number that names no queue fail, or do nothing. -/
structure LookupExact (state : System) (msgid : Int) : Prop where
  found : ∃ result, getMsgq state.ids msgid = .ok result ∧
    ∀ slot, result = some slot ↔ state.ids.Names msgid slot
  send : (∀ slot, ¬state.ids.Names msgid slot) → ∀ proc call,
    state.proc proc = .sending call true → call.msgid = msgid →
      sendSection state proc = .ok (refuse state proc call.letter eidrm)
  receive : (∀ slot, ¬state.ids.Names msgid slot) → ∀ proc msgp msgsz mtype msgflg,
    state.proc proc = .running → 0 ≤ msgsz →
      msgrcv state proc msgid (some msgp) msgsz mtype msgflg = .ok (state.ret proc eidrm)
  control : (∀ slot, ¬state.ids.Names msgid slot) → ∀ proc cmd, state.proc proc = .running →
    msgctl state proc msgid cmd =
      .ok (state.ret proc (if cmd = ipcRmid then 0 else einval))

variable {state : System} {msgid : Int}

theorem LookupExact.of_inside (inside : 0 ≤ msgid ∨ (seqMultiplier : Int) ∣ msgid) :
    LookupExact state msgid := by
  obtain ⟨result, looked⟩ := getMsgq_inside_iff.mpr inside
  have exact : ∀ slot, result = some slot ↔ state.ids.Names msgid slot := by
    intro slot
    rw [← getMsgq_eq_some_iff, looked, Except.ok.injEq]
  have missing : (∀ slot, ¬state.ids.Names msgid slot) →
      getMsgq state.ids msgid = .ok none := by
    intro unnamed
    cases result with
    | none => exact looked
    | some slot => exact absurd ((exact slot).mp rfl) (unnamed slot)
  constructor
  · exact ⟨result, looked, exact⟩
  · intro unnamed proc call located same
    unfold sendSection
    simp only [located, same, missing unnamed]
  · intro unnamed proc msgp msgsz mtype msgflg idle size
    unfold msgrcv
    simp only [idle, if_neg (Int.not_lt.mpr size), missing unnamed]
  · intro unnamed proc cmd idle
    unfold msgctl freeque
    simp only [idle, missing unnamed]
    split
    · rfl
    · rfl

/-- A number is looked up exactly when it is not negative or is a multiple of 16. -/
theorem lookup_exact_iff (state : System) (msgid : Int) :
    LookupExact state msgid ↔ 0 ≤ msgid ∨ (seqMultiplier : Int) ∣ msgid := by
  constructor
  · intro exact
    obtain ⟨result, looked, -⟩ := exact.found
    exact getMsgq_inside_iff.mp ⟨result, looked⟩
  · exact LookupExact.of_inside

/-- The error codes of `sys_msgget` index in front of the table. -/
theorem lookup_of_error : ¬LookupExact (System.initial []) enomem := by
  intro exact
  obtain ⟨result, looked, -⟩ := exact.found
  cases looked

end LabKernel.Ipc
