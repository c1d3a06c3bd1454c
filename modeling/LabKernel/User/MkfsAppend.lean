/-
The loop of `iappend`. Each round finds the block of its piece, which takes up to two new ones, and
writes the piece there.
-/

import LabKernel.Lib.Outcome
import LabKernel.User.MkfsFiles

set_option autoImplicit false

namespace LabKernel.User.Mkfs

open Fs LittleEndian LabKernel.Numbering Outcomes

/-- What the loop leaves as it is: everything outside the data area and `freeblock`. -/
structure Keeps (origin image : Image) : Prop where
  size : image.size = origin.size
  low : ∀ sec, sec < nmeta → image.sector sec = origin.sector sec
  freeinode : image.freeinode = origin.freeinode
  handed : image.handed = origin.handed
  writes : image.writes = origin.writes

theorem Keeps.trans {origin middle image : Image} (first : Keeps origin middle)
    (second : Keeps middle image) : Keeps origin image :=
  ⟨second.size.trans first.size, fun sec small => (second.low sec small).trans (first.low sec small),
    second.freeinode.trans first.freeinode, second.handed.trans first.handed,
    second.writes.trans first.writes⟩

theorem keeps_grab (image : Image) : Keeps image image.grab :=
  ⟨rfl, fun _ _ => rfl, rfl, rfl, rfl⟩

theorem keeps_wsect (image : Image) {sec : Nat} (buf : BlockData) (high : nmeta ≤ sec)
    (inside : sec < image.size) : Keeps image (image.wsect sec buf) :=
  ⟨Nat.max_eq_left inside, fun _ small => Function.update_of_ne (by omega) _ _, rfl, rfl, rfl⟩

theorem rsect_eq {image : Image} {sec : Nat} (inside : sec < image.size) :
    image.rsect sec = .ok (image.sector sec) :=
  if_pos inside

theorem rsect_outcome (image : Image) (sec : Nat) :
    Outcome (image.rsect sec) (image.size ≤ sec)
      (fun buf => sec < image.size ∧ buf = image.sector sec) := by
  unfold Image.rsect
  split
  case isTrue inside => exact .ok ⟨inside, rfl⟩
  case isFalse outside => exact .error (Nat.not_lt.mp outside)

/-- While the loop appends to an inode, the blocks of all inodes hold their contents, of which
`bytes` are those of this inode. -/
structure Appending (origin : Image) (table : Nat → InodeEntry) (contents : Nat → List UInt8)
    (inum : Nat) (state : Append) (bytes : List UInt8) : Prop where
  filled : Filled state.image.sector (Function.update table inum state.din) state.image.freeblock
    (Function.update contents inum bytes)
  kept : Keeps origin state.image
  off : state.off = bytes.length

variable {origin : Image} {table : Nat → InodeEntry} {contents : Nat → List UInt8} {inum : Nat}
  {state next : Append} {bytes : List UInt8}

/-! ### Finding the block -/

/-- The block of a file block is found, with at most two new blocks, and the newest is this one. -/
structure Located (origin : Image) (table : Nat → InodeEntry) (contents : Nat → List UInt8)
    (inum : Nat) (bytes : List UInt8) (fbn before : Nat) (found : Nat × Append) : Prop where
  appending : Appending origin table contents inum found.2 bytes
  block : fileBlock found.2.image.sector found.2.din fbn = found.1
  nonzero : found.1 ≠ 0
  newest : found.2.image.freeblock ≤ max before (found.1 + 1)
  few : found.2.image.freeblock ≤ before + 2

theorem toNat_ofNat_small {block : Nat} (small : block < 2 ^ 32) :
    (UInt32.ofNat block).toNat = block := by
  rw [UInt32.toNat_ofNat']
  exact Nat.mod_eq_of_lt small

namespace Appending

/-- The inode takes a block, and no sector changes. -/
theorem taken (appending : Appending origin table contents inum state bytes) (usage : Usage)
    (din : InodeEntry) (none : usedBlock state.image.sector state.din usage = 0)
    (here : usedBlock state.image.sector din usage = state.image.freeblock)
    (kept : ∀ usage', usage' ≠ usage → usedBlock state.image.sector din usage' =
      usedBlock state.image.sector state.din usage') :
    Appending origin table contents inum { state with image := state.image.grab, din := din }
      bytes := by
  constructor
  · change Filled state.image.sector _ (state.image.freeblock + 1) _
    apply appending.filled.take inum usage
    · rw [Function.update_self]
      exact none
    · rw [Function.update_self]
      exact here
    · intro other usage' different
      by_cases own : other = inum
      · rw [own, Function.update_self, Function.update_self]
        apply kept
        intro same
        apply different
        rw [own, same]
      · rw [Function.update_of_ne own, Function.update_of_ne own]
    · exact fun _ _ _ => rfl
    · exact fun _ _ => rfl
  · exact appending.kept.trans (keeps_grab _)
  · exact appending.off

theorem direct (appending : Appending origin table contents inum state bytes)
    (small : state.image.freeblock < 2 ^ 32) (index : Fin nDirect) :
    Located origin table contents inum bytes index.val state.image.freeblock
      (state.direct index) := by
  have low := appending.filled.low
  unfold Append.direct
  by_cases none : state.din.addrs index = 0
  · rw [if_pos none]
    have here : (state.din.setAddr index state.image.freeblock).addrs index =
        UInt32.ofNat state.image.freeblock := Function.update_self _ _ _
    have number : ((state.din.setAddr index state.image.freeblock).addrs index).toNat =
        state.image.freeblock := by
      rw [here]
      exact toNat_ofNat_small small
    constructor
    · apply appending.taken (.data index.val) (state.din.setAddr index state.image.freeblock)
      · change fileBlock _ _ _ = 0
        rw [fileBlock_direct index.isLt, none]
        rfl
      · change fileBlock _ _ _ = _
        rw [fileBlock_direct index.isLt]
        exact number
      · intro usage different
        cases usage with
        | indirect => rfl
        | data fbn =>
            change fileBlock _ _ fbn = fileBlock _ _ fbn
            by_cases within : fbn < nDirect
            · rw [fileBlock_direct within, fileBlock_direct within]
              apply congrArg UInt32.toNat
              apply Function.update_of_ne
              intro same
              exact different (congrArg (fun place : Fin nDirect => Usage.data place.val) same)
            · unfold fileBlock
              rw [dif_neg within, dif_neg within]
              rfl
    · exact fileBlock_direct index.isLt
    · change ((state.din.setAddr index state.image.freeblock).addrs index).toNat ≠ 0
      rw [number]
      unfold nmeta at low
      omega
    · change state.image.freeblock + 1 ≤
        max _ (((state.din.setAddr index state.image.freeblock).addrs index).toNat + 1)
      rw [number]
      exact Nat.le_max_right _ _
    · exact Nat.le_succ _
  · rw [if_neg none]
    exact ⟨appending, fileBlock_direct index.isLt, toNat_ne_zero.mpr none, Nat.le_max_left _ _,
      Nat.le_add_right _ _⟩

theorem withIndirect (appending : Appending origin table contents inum state bytes)
    (small : state.image.freeblock < 2 ^ 32) :
    Appending origin table contents inum state.withIndirect bytes ∧
      state.withIndirect.din.indirect ≠ 0 ∧
      (state.withIndirect = state ∨
        state.withIndirect.image.freeblock = state.image.freeblock + 1 ∧
          state.withIndirect.image.sector state.withIndirect.din.indirect.toNat = fun _ => 0) := by
  have low := appending.filled.low
  unfold Append.withIndirect
  by_cases none : state.din.indirect = 0
  · rw [if_pos none]
    have number := toNat_ofNat_small small
    have clear := appending.filled.clear state.image.freeblock (Nat.le_refl _)
    refine ⟨?_, ?_, Or.inr ⟨rfl, ?_⟩⟩
    · apply appending.taken .indirect
        { state.din with indirect := UInt32.ofNat state.image.freeblock }
      · change state.din.indirect.toNat = 0
        rw [none]
        rfl
      · exact number
      · intro usage different
        cases usage with
        | indirect => exact absurd rfl different
        | data fbn =>
            change fileBlock _ _ fbn = fileBlock _ _ fbn
            by_cases within : fbn < nDirect
            · rw [fileBlock_direct within, fileBlock_direct within]
            · by_cases inside : fbn - nDirect < nIndirect
              · rw [fileBlock_indirect within inside, fileBlock_indirect within inside, if_pos none]
                change (if _ then 0 else (indirectOf (state.image.sector
                  (UInt32.ofNat state.image.freeblock).toNat) _).toNat) = 0
                rw [number, clear, indirectOf_clear]
                split <;> rfl
              · unfold fileBlock
                rw [dif_neg within, dif_neg within, dif_neg inside, dif_neg inside]
    · apply toNat_ne_zero.mp
      change (UInt32.ofNat state.image.freeblock).toNat ≠ 0
      rw [number]
      unfold nmeta at low
      omega
    · change state.image.sector (UInt32.ofNat state.image.freeblock).toNat = _
      rw [number]
      exact clear
  · rw [if_neg none]
    exact ⟨appending, none, Or.inl rfl⟩

/-- An entry of the indirect block takes a block. -/
theorem entered (appending : Appending origin table contents inum state bytes)
    (some : state.din.indirect ≠ 0) (inside : state.din.indirect.toNat < state.image.size)
    (small : state.image.freeblock < 2 ^ 32) {fbn : Nat} (behind : ¬fbn < nDirect)
    (within : fbn - nDirect < nIndirect)
    (none : indirectOf (state.image.sector state.din.indirect.toNat) ⟨fbn - nDirect, within⟩ = 0) :
    Located origin table contents inum bytes fbn state.image.freeblock
      (state.image.freeblock,
        { state with
          image := state.image.grab.wsect state.din.indirect.toNat
            (indirectBlock (Function.update
              (indirectOf (state.image.sector state.din.indirect.toNat)) ⟨fbn - nDirect, within⟩
              (UInt32.ofNat state.image.freeblock))) }) := by
  have low := appending.filled.low
  have number := toNat_ofNat_small small
  have nonzero : usedBlock state.image.sector (Function.update table inum state.din inum)
      .indirect ≠ 0 := by
    rw [Function.update_self]
    exact toNat_ne_zero.mpr some
  have range := appending.filled.numbered.inRange (inum, .indirect) nonzero
  have apart := fun other usage => appending.filled.apart other .indirect usage nonzero
  simp only [blockOf, usedBlock, Function.update_self] at range apart
  have here : fileBlock (Function.update state.image.sector state.din.indirect.toNat
      (indirectBlock (Function.update
        (indirectOf (state.image.sector state.din.indirect.toNat)) ⟨fbn - nDirect, within⟩
        (UInt32.ofNat state.image.freeblock)))) state.din fbn = state.image.freeblock := by
    rw [fileBlock_written _ some behind within, Function.update_self]
    exact number
  constructor
  · constructor
    · apply appending.filled.take inum (.data fbn)
      · rw [Function.update_self]
        change fileBlock _ _ _ = 0
        rw [fileBlock_indirect behind within, if_neg some, none]
        rfl
      · rw [Function.update_self]
        exact here
      · intro other usage different
        by_cases own : other = inum
        · rw [own, Function.update_self]
          apply usedBlock_written some behind within
          intro same
          apply different
          rw [own, same]
        · rw [Function.update_of_ne own]
          apply usedBlock_congr rfl rfl
          intro _
          apply Function.update_of_ne
          have separate := apart other .indirect (Or.inl (Ne.symm own))
          rw [Function.update_of_ne own] at separate
          exact separate
      · intro other fbn' _
        apply Function.update_of_ne
        exact apart other (.data fbn') (Or.inr (fun impossible => by cases impossible))
      · intro sec above
        apply Function.update_of_ne
        omega
    · exact (appending.kept.trans (keeps_grab _)).trans (keeps_wsect _ _ range.1 inside)
    · exact appending.off
  · exact here
  · change state.image.freeblock ≠ 0
    unfold nmeta at low
    omega
  · exact Nat.le_max_right _ _
  · exact Nat.le_succ _

theorem blockFor (appending : Appending origin table contents inum state bytes)
    (size : origin.size = fsSize) (enough : state.image.freeblock ≤ fsSize)
    (fbn : Fin inodeMaxBlocks) :
    Outcome (state.blockFor fbn) (fsSize < state.image.freeblock + 2)
      (Located origin table contents inum bytes fbn.val state.image.freeblock) := by
  have limit : fsSize + 2 < 2 ^ 32 := by decide
  unfold Append.blockFor
  split
  case isTrue within =>
    exact .ok (appending.direct (by omega) ⟨fbn.val, within⟩)
  case isFalse behind =>
    have within : fbn.val - nDirect < nIndirect := by
      have bound := fbn.isLt
      unfold inodeMaxBlocks at bound
      omega
    obtain ⟨found, some, indirect⟩ := appending.withIndirect (by omega)
    have grown : state.withIndirect.image.freeblock ≤ state.image.freeblock + 1 := by
      rcases indirect with same | ⟨grown, _⟩
      · rw [same]
        exact Nat.le_succ _
      · exact Nat.le_of_eq grown
    have entries : indirectOf (state.withIndirect.image.sector
        state.withIndirect.din.indirect.toNat) ⟨fbn.val - nDirect, within⟩ ≠ 0 →
        state.withIndirect = state := by
      intro nonzero
      rcases indirect with same | ⟨_, clear⟩
      · exact same
      · rw [clear] at nonzero
        exact absurd (indirectOf_clear _) nonzero
    generalize state.withIndirect = next at found some grown entries
    have range : next.din.indirect.toNat < next.image.freeblock := by
      have bounds := found.filled.indirect_range inum
      rw [Function.update_self] at bounds
      exact (bounds some).2
    unfold Append.entry
    apply Outcome.bind ((rsect_outcome next.image next.din.indirect.toNat).mono _ (fun _ => id))
    · rintro buf ⟨inside, rfl⟩
      by_cases none : indirectOf (next.image.sector next.din.indirect.toNat)
          ⟨fbn.val - nDirect, within⟩ = 0
      · have located := found.entered some inside (by omega) behind within none
        simp only [if_pos none, Function.update_self]
        rw [toNat_ofNat_small (by omega)]
        exact .ok ⟨located.appending, located.block, located.nonzero, Nat.le_max_right _ _,
          Nat.succ_le_succ grown⟩
      · have same := entries none
        subst same
        simp only [if_neg none]
        refine .ok ⟨found, ?_, toNat_ne_zero.mpr none, Nat.le_max_left _ _,
          Nat.le_add_right _ _⟩
        rw [fileBlock_indirect behind within, if_neg some]
    · intro outside
      rw [found.kept.size, size] at outside
      omega

theorem written {p : List UInt8} {fbn n1 : Nat}
    (appending : Appending origin table contents inum next bytes)
    (place : fbn = bytes.length / blockSize) (within : fbn < inodeMaxBlocks)
    (count : n1 = min p.length ((fbn + 1) * blockSize - bytes.length))
    (nonzero : fileBlock next.image.sector next.din fbn ≠ 0)
    (inside : fileBlock next.image.sector next.din fbn < next.image.size) :
    Appending origin table contents inum
      { next with
        image := next.image.wsect (fileBlock next.image.sector next.din fbn)
          (overwrite (next.image.sector (fileBlock next.image.sector next.din fbn))
            (next.off - fbn * blockSize) (p.take n1))
        off := next.off + n1 }
      (bytes ++ p.take n1) := by
  have filled := appending.filled
  have off := appending.off
  have own : Function.update table inum next.din inum = next.din := Function.update_self _ _ _
  have taken : (p.take n1).length = n1 := by
    rw [List.length_take, Nat.min_eq_left (by omega)]
  have length : (bytes ++ p.take n1).length = bytes.length + n1 := by
    rw [List.length_append, taken]
  have here : fileBlock next.image.sector (Function.update table inum next.din inum) fbn ≠ 0 := by
    rw [own]
    exact nonzero
  have range := filled.fileBlock_range here
  rw [own] at range
  have result := filled.write here
    (overwrite (next.image.sector (fileBlock next.image.sector next.din fbn))
      (next.off - fbn * blockSize) (p.take n1)) (bytes ++ p.take n1)
  rw [own, Function.update_idem, Function.update_self] at result
  constructor
  · apply result
    · unfold inodeMaxBlocks nDirect nIndirect blockSize at *
      omega
    · intro offset bound block
      rw [off, place]
      rw [place] at block
      by_cases old : offset < bytes.length
      · have held := filled.holds inum offset (by rw [Function.update_self]; exact old)
        simp only [own, Function.update_self] at held
        rw [overwrite_before (place_before block old), List.getElem_append_left old, ← held, ← block]
        rfl
      · have new := Nat.not_lt.mp old
        obtain ⟨later, index⟩ := place_after block new
        rw [overwrite_inside later (by rw [index, taken]; omega), List.getElem_append_right new]
        simp only [index]
    · intro offset bound block
      have old : offset < bytes.length := by
        unfold blockSize at *
        omega
      exact ⟨old, List.getElem_append_left old⟩
  · exact appending.kept.trans (keeps_wsect _ _ range.1 inside)
  · change next.off + n1 = _
    rw [length, off]

theorem piece {p : List UInt8} (appending : Appending origin table contents inum state bytes)
    (size : origin.size = fsSize) (enough : state.image.freeblock ≤ fsSize) :
    Outcome (state.piece p)
      (fsSize < state.image.freeblock + 2 ∨ inodeMaxBlocks * blockSize ≤ bytes.length)
      (fun taken =>
        taken.1 = min p.length
          ((bytes.length / blockSize + 1) * blockSize - bytes.length) ∧
        Appending origin table contents inum taken.2 (bytes ++ p.take taken.1) ∧
        taken.2.image.freeblock ≤ fsSize ∧
        taken.2.image.freeblock ≤ state.image.freeblock + 2) := by
  unfold Append.piece
  split
  case isTrue within =>
    apply Outcome.bind ((appending.blockFor size enough ⟨_, within⟩).mono Or.inl (fun _ => id))
    rintro ⟨x, next⟩ ⟨found, block, nonzero, newest, few⟩
    change Appending origin table contents inum next bytes at found
    change fileBlock next.image.sector next.din (state.off / blockSize) = x at block
    change next.image.freeblock ≤ max _ (x + 1) at newest
    change next.image.freeblock ≤ _ at few
    subst block
    have here : fileBlock next.image.sector (Function.update table inum next.din inum)
        (state.off / blockSize) ≠ 0 := by
      rw [Function.update_self]
      exact nonzero
    have below := (found.filled.fileBlock_range here).2
    rw [Function.update_self] at below
    apply Outcome.bind ((rsect_outcome next.image _).mono _ (fun _ => id))
    · rintro buf ⟨inside, rfl⟩
      have off := found.off
      have imageSize : next.image.size = fsSize := found.kept.size.trans size
      rw [appending.off] at below newest nonzero inside within ⊢
      have count : min p.length ((bytes.length / blockSize + 1) * blockSize - next.off) =
          min p.length ((bytes.length / blockSize + 1) * blockSize - bytes.length) := by rw [off]
      refine .ok ⟨count, found.written rfl within count nonzero inside, ?_, few⟩
      change next.image.freeblock ≤ fsSize
      omega
    · intro outside
      rw [found.kept.size, size] at outside
      exact Or.inl (by omega)
  case isFalse outside =>
    refine .error (Or.inr ?_)
    rw [appending.off] at outside
    exact (Nat.le_div_iff_mul_le (by decide)).mp (Nat.not_lt.mp outside)

end Appending

/-! ### All rounds -/

/-- How many rounds it takes to append a number of bytes at an offset. -/
def pieces (off n : Nat) : Nat :=
  if n = 0 then 0 else (off % blockSize + n - 1) / blockSize + 1

theorem pieces_round {off n n1 : Nat} (some : n ≠ 0)
    (count : n1 = min n ((off / blockSize + 1) * blockSize - off)) :
    n1 ≠ 0 ∧ n1 ≤ n ∧ pieces off n = pieces (off + n1) (n - n1) + 1 := by
  unfold pieces blockSize at *
  rw [if_neg some]
  split
  case isTrue last => omega
  case isFalse more => omega

theorem pieces_chunk (off : Nat) {n : Nat} (small : n ≤ blockSize) : pieces off n ≤ 2 := by
  unfold pieces blockSize at *
  split
  case isTrue => exact Nat.zero_le _
  case isFalse => omega

theorem Appending.loop {rounds : Nat} {p : List UInt8}
    (appending : Appending origin table contents inum state bytes)
    (size : origin.size = fsSize) (enough : state.image.freeblock ≤ fsSize)
    (fuel : p.length ≤ rounds) :
    Outcome (Append.loop rounds state p)
      (fsSize < state.image.freeblock + 2 * pieces bytes.length p.length ∨
        inodeMaxBlocks * blockSize < bytes.length + p.length)
      (fun final =>
        Appending origin table contents inum final (bytes ++ p) ∧
        final.image.freeblock ≤ fsSize ∧
        final.image.freeblock ≤ state.image.freeblock + 2 * pieces bytes.length p.length) := by
  induction rounds generalizing state bytes p with
  | zero =>
      obtain rfl := List.eq_nil_of_length_eq_zero (Nat.le_zero.mp fuel)
      rw [List.append_nil]
      exact .ok ⟨appending, enough, Nat.le_add_right _ _⟩
  | succ rounds ih =>
      cases p with
      | nil =>
          rw [List.append_nil]
          exact .ok ⟨appending, enough, Nat.le_add_right _ _⟩
      | cons first rest =>
          have some : (first :: rest).length ≠ 0 := Nat.succ_ne_zero _
          unfold Append.loop
          generalize first :: rest = p at some fuel
          have positive : 1 ≤ pieces bytes.length p.length := by
            unfold pieces
            rw [if_neg some]
            exact Nat.le_add_left _ _
          apply Outcome.bind ((appending.piece size enough).mono _ (fun _ => id))
          · rintro ⟨n1, next⟩ ⟨count, appended, enough', few⟩
            change n1 = _ at count
            change Appending origin table contents inum next (bytes ++ p.take n1) at appended
            change next.image.freeblock ≤ fsSize at enough'
            change next.image.freeblock ≤ _ at few
            obtain ⟨taken, within, counted⟩ := pieces_round some count
            have length : (bytes ++ p.take n1).length = bytes.length + n1 := by
              rw [List.length_append, List.length_take, Nat.min_eq_left within]
            have left : (p.drop n1).length = p.length - n1 := List.length_drop
            have rest := ih (p := p.drop n1) appended enough' (by omega)
            rw [length, left, List.append_assoc, List.take_append_drop] at rest
            apply rest.mono
            · intro reason
              omega
            · rintro final ⟨appended, enough, few'⟩
              exact ⟨appended, enough, by omega⟩
          · intro reason
            omega

end LabKernel.User.Mkfs
