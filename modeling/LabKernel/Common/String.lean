/-
`memmove` of `string.c`.

An address is 64 bits wide and pointers move by wrapping arithmetic, so that a range may end at
the top of the address space.
-/

import LabKernel.Lib.Copying
import Mathlib.Algebra.Group.Nat.Defs
import Mathlib.Data.List.Range

set_option autoImplicit false

namespace LabKernel.Common

open Copying

abbrev AddressSpace := UInt64 → UInt8

/-- `while (n-- > 0) *--d = *--s;` -/
def moveDown (mem : AddressSpace) (d s : UInt64) : Nat → AddressSpace
  | 0 => mem
  | n + 1 => moveDown (Function.update mem (d - 1) (mem (s - 1))) (d - 1) (s - 1) n

/-- `while (n-- > 0) *d++ = *s++;` -/
def moveUp (mem : AddressSpace) (d s : UInt64) : Nat → AddressSpace
  | 0 => mem
  | n + 1 => moveUp (Function.update mem d (mem s)) (d + 1) (s + 1) n

/-- `memmove`, with the pointer that it returns. -/
def memmove (mem : AddressSpace) (dest src n : UInt64) : UInt64 × AddressSpace :=
  if src < dest ∧ dest - src < n then (dest, moveDown mem (dest + n) (src + n) n.toNat)
  else (dest, moveUp mem dest src n.toNat)

/-- The move of one byte, by its place in the two ranges. -/
def byteMove (dest src : UInt64) (index : Nat) : Move UInt64 :=
  { target := dest + UInt64.ofNat index
    origin := src + UInt64.ofNat index }

variable {dest src : UInt64} {size index : Nat}

theorem offset_succ (base : UInt64) (index : Nat) :
    base + UInt64.ofNat (index + 1) = base + 1 + UInt64.ofNat index := by
  rw [UInt64.ofNat_add, UInt64.add_comm (UInt64.ofNat index), ← UInt64.add_assoc]
  rfl

theorem moveUp_eq (mem : AddressSpace) (dest src : UInt64) (size : Nat) :
    moveUp mem dest src size = makeAll mem ((List.range size).map (byteMove dest src)) := by
  induction size generalizing mem dest src with
  | zero => rfl
  | succ size ih =>
      have shifted : byteMove dest src ∘ Nat.succ = byteMove (dest + 1) (src + 1) := by
        funext index
        exact congrArg₂ Move.mk (offset_succ dest index) (offset_succ src index)
      have first : make mem (byteMove dest src 0) = Function.update mem dest (mem src) := by
        unfold make byteMove
        exact congrArg₂ (fun target origin => Function.update mem target (mem origin))
          (UInt64.add_zero dest) (UInt64.add_zero src)
      rw [List.range_succ_eq_map, List.map_cons, List.map_map, makeAll_cons, shifted, first]
      exact ih _ _ _

theorem moveDown_eq (mem : AddressSpace) (dest src : UInt64) (size : Nat) :
    moveDown mem (dest + UInt64.ofNat size) (src + UInt64.ofNat size) size =
      makeAll mem ((List.range size).reverse.map (byteMove dest src)) := by
  induction size generalizing mem with
  | zero => rfl
  | succ size ih =>
      have back (base : UInt64) :
          base + UInt64.ofNat (size + 1) - 1 = base + UInt64.ofNat size := by
        rw [UInt64.ofNat_add, ← UInt64.add_assoc]
        exact UInt64.add_sub_cancel _ _
      rw [List.range_succ, List.reverse_concat, List.map_cons, makeAll_cons]
      unfold moveDown
      rw [back, back, ih]
      rfl

/-- Inside a range that does not wrap around, addresses are added up. -/
theorem toNat_offset {base : UInt64} (inside : index < size) (fits : base.toNat + size ≤ 2 ^ 64) :
    (base + UInt64.ofNat index).toNat = base.toNat + index := by
  rw [UInt64.toNat_add, UInt64.toNat_ofNat', Nat.mod_eq_of_lt (a := index) (by omega)]
  exact Nat.mod_eq_of_lt (by omega)

/-- Two moves are clear of each other if the later one does not read what the earlier one wrote. -/
theorem byteMove_clear (origin : src.toNat + size ≤ 2 ^ 64) (target : dest.toNat + size ≤ 2 ^ 64)
    {earlier later : Nat} (before : earlier < size) (behind : later < size)
    (different : earlier ≠ later) (apart : src.toNat + later ≠ dest.toNat + earlier) :
    (byteMove dest src earlier).Clear (byteMove dest src later) := by
  constructor
  · intro same
    have places := congrArg UInt64.toNat same
    change (src + UInt64.ofNat later).toNat = (dest + UInt64.ofNat earlier).toNat at places
    rw [toNat_offset behind origin, toNat_offset before target] at places
    exact apart places
  · intro same
    have places := congrArg UInt64.toNat same
    change (dest + UInt64.ofNat later).toNat = (dest + UInt64.ofNat earlier).toNat at places
    rw [toNat_offset behind target, toNat_offset before target] at places
    exact different (Nat.add_left_cancel places).symm

/-- From the first byte on, no byte is written before it is read unless the target begins inside the
source. -/
theorem clear_up (origin : src.toNat + size ≤ 2 ^ 64) (target : dest.toNat + size ≤ 2 ^ 64)
    (outside : dest.toNat ≤ src.toNat ∨ src.toNat + size ≤ dest.toNat) :
    ((List.range size).map (byteMove dest src)).Pairwise Move.Clear := by
  rw [List.pairwise_map]
  apply List.pairwise_lt_range.imp_of_mem
  intro earlier later before behind less
  rw [List.mem_range] at before behind
  apply byteMove_clear origin target before behind (Nat.ne_of_lt less)
  omega

/-- From the last byte on, no byte is if the target begins behind the source. -/
theorem clear_down (origin : src.toNat + size ≤ 2 ^ 64) (target : dest.toNat + size ≤ 2 ^ 64)
    (above : src.toNat < dest.toNat) :
    ((List.range size).reverse.map (byteMove dest src)).Pairwise Move.Clear := by
  rw [List.pairwise_map, List.pairwise_reverse]
  apply List.pairwise_lt_range.imp_of_mem
  intro later earlier behind before less
  rw [List.mem_range] at before behind
  apply byteMove_clear origin target before behind (Nat.ne_of_gt less)
  omega

/-- The direction that the test picks is clear. -/
theorem memmove_eq (mem : AddressSpace) {n : UInt64} (origin : src.toNat + n.toNat ≤ 2 ^ 64)
    (target : dest.toNat + n.toNat ≤ 2 ^ 64) :
    ∃ order : List Nat, (∀ index, index ∈ order ↔ index < n.toNat) ∧
      (order.map (byteMove dest src)).Pairwise Move.Clear ∧
      memmove mem dest src n = (dest, makeAll mem (order.map (byteMove dest src))) := by
  by_cases down : src < dest ∧ dest - src < n
  · refine ⟨(List.range n.toNat).reverse, ?_, clear_down origin target ?_, ?_⟩
    · intro index
      rw [List.mem_reverse, List.mem_range]
    · exact UInt64.lt_iff_toNat_lt.mp down.1
    · unfold memmove
      rw [if_pos down, ← moveDown_eq, UInt64.ofNat_toNat]
  · refine ⟨List.range n.toNat, ?_, clear_up origin target ?_, ?_⟩
    · intro index
      exact List.mem_range
    · by_contra inside
      rw [not_or, Nat.not_le, Nat.not_le] at inside
      have less : src < dest := UInt64.lt_iff_toNat_lt.mpr inside.1
      apply down
      refine ⟨less, UInt64.lt_iff_toNat_lt.mpr ?_⟩
      rw [UInt64.toNat_sub_of_le _ _ (UInt64.le_of_lt less)]
      omega
    · unfold memmove
      rw [if_neg down, moveUp_eq]

theorem memmove_inside (mem : AddressSpace) {n : UInt64} (origin : src.toNat + n.toNat ≤ 2 ^ 64)
    (target : dest.toNat + n.toNat ≤ 2 ^ 64) (within : index < n.toNat) :
    (memmove mem dest src n).2 (dest + UInt64.ofNat index) = mem (src + UInt64.ofNat index) := by
  obtain ⟨order, listed, clear, moved⟩ := memmove_eq mem origin target
  have member : byteMove dest src index ∈ order.map (byteMove dest src) :=
    List.mem_map_of_mem ((listed index).mpr within)
  rw [moved]
  exact makeAll_target mem clear member

theorem memmove_outside (mem : AddressSpace) {n : UInt64} (origin : src.toNat + n.toNat ≤ 2 ^ 64)
    (target : dest.toNat + n.toNat ≤ 2 ^ 64) {place : UInt64}
    (outside : place.toNat < dest.toNat ∨ dest.toNat + n.toNat ≤ place.toNat) :
    (memmove mem dest src n).2 place = mem place := by
  obtain ⟨order, listed, _, moved⟩ := memmove_eq mem origin target
  rw [moved]
  apply makeAll_other
  intro move member same
  obtain ⟨index, indexed, rfl⟩ := List.mem_map.mp member
  have within := (listed index).mp indexed
  rw [same] at outside
  change (dest + UInt64.ofNat index).toNat < _ ∨ _ ≤ (dest + UInt64.ofNat index).toNat at outside
  rw [toNat_offset within target] at outside
  omega

/-- However the two ranges overlap, the target gets what the source was and nothing else changes. -/
theorem memmove_overlap (mem : AddressSpace) (dest src n : UInt64)
    (origin : src.toNat + n.toNat ≤ 2 ^ 64) (target : dest.toNat + n.toNat ≤ 2 ^ 64) :
    ∃ after, memmove mem dest src n = (dest, after) ∧
      (∀ i : UInt64, i < n → after (dest + i) = mem (src + i)) ∧
      ∀ place : UInt64, place.toNat < dest.toNat ∨ dest.toNat + n.toNat ≤ place.toNat →
        after place = mem place := by
  refine ⟨(memmove mem dest src n).2, ?_, ?_, ?_⟩
  · obtain ⟨order, _, _, moved⟩ := memmove_eq mem origin target
    rw [moved]
  · intro i within
    have copied := memmove_inside mem origin target (UInt64.lt_iff_toNat_lt.mp within)
    rw [UInt64.ofNat_toNat] at copied
    exact copied
  · intro place outside
    exact memmove_outside mem origin target outside

/-- Three bytes one place up, and three one place down from the top of the address space. -/
theorem memmove_overlap_both :
    (∃ after, memmove UInt64.toUInt8 11 10 3 = (11, after) ∧
      after 11 = 10 ∧ after 12 = 11 ∧ after 13 = 12 ∧ after 10 = 10 ∧ after 14 = 14) ∧
    ∃ after, memmove UInt64.toUInt8 (0 - 4) (0 - 3) 3 = (0 - 4, after) ∧
      after (0 - 4) = 253 ∧ after (0 - 3) = 254 ∧ after (0 - 2) = 255 ∧ after (0 - 1) = 255 ∧
        after 0 = 0 := by
  obtain ⟨up, raised, above, around⟩ :=
    memmove_overlap UInt64.toUInt8 11 10 3 (by decide) (by decide)
  obtain ⟨down, lowered, below, beside⟩ :=
    memmove_overlap UInt64.toUInt8 (0 - 4) (0 - 3) 3 (by decide) (by decide)
  constructor
  · exact ⟨up, raised, above 0 (by decide), above 1 (by decide), above 2 (by decide),
      around 10 (by decide), around 14 (by decide)⟩
  · exact ⟨down, lowered, below 0 (by decide), below 1 (by decide), below 2 (by decide),
      beside (0 - 1) (by decide), beside 0 (by decide)⟩

end LabKernel.Common
