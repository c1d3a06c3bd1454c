/-
The block bitmap as a set of block numbers.

One bit of a bitmap block stands for one block of the volume. `cache_alloc` looks for the first
clear bit and sets it, `cache_free` clears a bit, and `mkfs` writes the bitmap that both begin
with.
-/

import LabKernel.Fs.Content
import Mathlib.Data.Nat.Bitwise
import Mathlib.Order.Bounds.Basic

set_option autoImplicit false

namespace LabKernel.Fs

open Common Transition Outcomes

/-! ### Bits of a block -/

theorem bitPerBlock_eq : bitPerBlock = 4096 := rfl

/-- The bit `bi` of a block of bits: bit `bi % 8` of byte `bi / 8`. -/
def bitAt (data : BlockData) (bi : Fin bitPerBlock) : Bool :=
  (data (bitByte bi)).toNat.testBit (bi.val % 8)

theorem bitMask_toNat (bi : Nat) : (bitMask bi).toNat = 2 ^ (bi % 8) := by
  have small : bi % 8 < 8 := Nat.mod_lt _ (by decide)
  have fits : 2 ^ (bi % 8) < 2 ^ 8 := Nat.pow_lt_pow_right (by decide) small
  unfold bitMask
  rw [UInt8.toNat_ofNat', Nat.one_shiftLeft]
  exact Nat.mod_eq_of_lt fits

theorem bitClear_eq (data : BlockData) (bi : Fin bitPerBlock) :
    bitClear data bi = !bitAt data bi := by
  have masked : (data (bitByte bi) &&& bitMask bi.val).toNat =
      (bitAt data bi).toNat * 2 ^ (bi.val % 8) := by
    rw [UInt8.toNat_and, bitMask_toNat, Nat.and_two_pow]
    rfl
  unfold bitClear
  cases set : bitAt data bi with
  | false =>
      rw [set, Bool.toNat_false, Nat.zero_mul] at masked
      have zero : data (bitByte bi) &&& bitMask bi.val = 0 := UInt8.toNat.inj masked
      simp [zero]
  | true =>
      rw [set, Bool.toNat_true, Nat.one_mul] at masked
      have positive := Nat.two_pow_pos (bi.val % 8)
      have nonzero : data (bitByte bi) &&& bitMask bi.val ≠ 0 := by
        intro zero
        rw [zero] at masked
        simp only [UInt8.toNat_zero] at masked
        omega
      simp [nonzero]

theorem bit_eq_iff (bi other : Fin bitPerBlock) :
    other = bi ↔ bitByte other = bitByte bi ∧ other.val % 8 = bi.val % 8 := by
  simp only [bitByte, Fin.ext_iff]
  omega

theorem bitAt_setBit (data : BlockData) (bi other : Fin bitPerBlock) :
    bitAt (setBit data bi) other = (bitAt data other || decide (other = bi)) := by
  unfold bitAt setBit
  by_cases same : bitByte other = bitByte bi
  · rw [same, Function.update_self, UInt8.toNat_or, Nat.testBit_or, bitMask_toNat,
      Nat.testBit_two_pow]
    simp only [bit_eq_iff bi other, same, true_and]
    congr 1
    exact decide_eq_decide.mpr eq_comm
  · rw [Function.update_of_ne same]
    simp only [bit_eq_iff bi other, same, false_and, decide_false, Bool.or_false]

theorem bitAt_clearBit (data : BlockData) (bi other : Fin bitPerBlock) :
    bitAt (clearBit data bi) other = (bitAt data other && decide (other ≠ bi)) := by
  have small : other.val % 8 < 8 := Nat.mod_lt _ (by decide)
  unfold bitAt clearBit
  by_cases same : bitByte other = bitByte bi
  · have flipped : (~~~bitMask bi.val).toNat = 2 ^ 8 - (2 ^ (bi.val % 8) + 1) := by
      rw [UInt8.toNat_not, bitMask_toNat, Nat.sub_add_eq, Nat.sub_right_comm]
      rfl
    have fits : 2 ^ (bi.val % 8) < 2 ^ 8 :=
      Nat.pow_lt_pow_right (by decide) (Nat.mod_lt _ (by decide))
    rw [same, Function.update_self, UInt8.toNat_and, Nat.testBit_and, flipped,
      Nat.testBit_two_pow_sub_succ fits, Nat.testBit_two_pow]
    simp only [ne_eq, bit_eq_iff bi other, same, true_and, small, decide_true, Bool.true_and,
      decide_not]
    congr 2
    exact decide_eq_decide.mpr eq_comm
  · rw [Function.update_of_ne same]
    simp only [ne_eq, bit_eq_iff bi other, same, false_and, not_false_eq_true, decide_true,
      Bool.and_true]

theorem bits_ext {left right : BlockData} (same : ∀ bi, bitAt left bi = bitAt right bi) :
    left = right := by
  funext index
  apply UInt8.toNat.inj
  apply Nat.eq_of_testBit_eq
  intro place
  by_cases small : place < 8
  · have inside : 8 * index.val + place < bitPerBlock := by
      have bound := index.isLt
      unfold bitPerBlock
      omega
    have byte : bitByte ⟨8 * index.val + place, inside⟩ = index := by
      apply Fin.ext
      change (8 * index.val + place) / 8 = index.val
      omega
    have bit : (8 * index.val + place) % 8 = place := by omega
    have equal := same ⟨8 * index.val + place, inside⟩
    unfold bitAt at equal
    simp only [byte, bit] at equal
    exact equal
  · have high : 2 ^ 8 ≤ 2 ^ place := Nat.pow_le_pow_right (by decide) (by omega)
    rw [Nat.testBit_lt_two_pow (Nat.lt_of_lt_of_le (left index).toNat_lt high),
      Nat.testBit_lt_two_pow (Nat.lt_of_lt_of_le (right index).toNat_lt high)]

theorem toUInt64_eq (n : UInt32) : n.toUInt64 = UInt64.ofNat n.toNat := by
  apply UInt64.toNat.inj
  have small := n.toNat_lt
  rw [UInt32.toNat_toUInt64, UInt64.toNat_ofNat']
  omega

theorem scanBits_spec {data : BlockData} {b numBlocks : UInt32}
    (fits : b.toNat + bitPerBlock ≤ 2 ^ 32) :
    ∀ rounds bi, bitPerBlock ≤ bi + rounds →
      (∃ found, scanBits data b numBlocks rounds bi = some found ∧ bi ≤ found.val ∧
        b.toNat + found.val < numBlocks.toNat ∧ bitAt data found = false ∧
        ∀ other : Fin bitPerBlock, bi ≤ other.val → other.val < found.val →
          bitAt data other = true) ∨
      scanBits data b numBlocks rounds bi = none ∧
        ∀ other : Fin bitPerBlock, bi ≤ other.val → b.toNat + other.val < numBlocks.toNat →
          bitAt data other = true := by
  intro rounds
  induction rounds with
  | zero =>
      intro bi enough
      refine Or.inr ⟨rfl, ?_⟩
      intro other above
      have bound := other.isLt
      omega
  | succ rounds ih =>
      intro bi enough
      unfold scanBits
      by_cases within : bi < bitPerBlock
      · have small : (b + UInt32.ofNat bi).toNat = b.toNat + bi := by
          rw [UInt32.toNat_add, UInt32.toNat_ofNat']
          omega
        rw [dif_pos within]
        simp only [UInt32.lt_iff_toNat_lt, small, bitClear_eq]
        by_cases inside : b.toNat + bi < numBlocks.toNat
        · rw [if_pos inside]
          cases set : bitAt data ⟨bi, within⟩ with
          | false =>
              refine Or.inl ⟨⟨bi, within⟩, rfl, Nat.le_refl _, inside, set, ?_⟩
              intro other above below
              change other.val < bi at below
              omega
          | true =>
              have here : ∀ other : Fin bitPerBlock, bi ≤ other.val → ¬bi + 1 ≤ other.val →
                  bitAt data other = true := by
                intro other above below
                have same : other = ⟨bi, within⟩ := by
                  apply Fin.ext
                  change other.val = bi
                  omega
                rw [same]
                exact set
              rcases ih (bi + 1) (by omega) with ⟨found, result, above, inside', clear, before⟩ |
                ⟨result, all⟩
              · refine Or.inl ⟨found, result, by omega, inside', clear, ?_⟩
                intro other low high
                by_cases next : bi + 1 ≤ other.val
                · exact before other next high
                · exact here other low next
              · refine Or.inr ⟨result, ?_⟩
                intro other low high
                by_cases next : bi + 1 ≤ other.val
                · exact all other next high
                · exact here other low next
        · rw [if_neg inside]
          refine Or.inr ⟨rfl, ?_⟩
          intro other low high
          omega
      · rw [dif_neg within]
        refine Or.inr ⟨rfl, ?_⟩
        intro other low
        have bound := other.isLt
        omega

/-! ### The blocks in use -/

def SuperBlock.bitmapBlock (sblock : SuperBlock) (n : Nat) : BlockNo :=
  UInt64.ofNat (sblock.bitmapStart.toNat + n / bitPerBlock)

def bitOf (n : Nat) : Fin bitPerBlock := ⟨n % bitPerBlock, Nat.mod_lt _ (by decide)⟩

def SuperBlock.inUse (sblock : SuperBlock) (content : BlockNo → BlockData) : Set Nat :=
  { n | n < sblock.numBlocks.toNat ∧
    bitAt (content (sblock.bitmapBlock n)) (bitOf n) = true }

/-- The blocks of the volume whose bit is clear. -/
def SuperBlock.unused (sblock : SuperBlock) (content : BlockNo → BlockData) : Set Nat :=
  { n | n < sblock.numBlocks.toNat ∧ n ∉ sblock.inUse content }

/-- The disk layout: the log area, then the bitmap blocks, then the data blocks. -/
structure SuperBlock.Arranged (sblock : SuperBlock) (dataStart : Nat) : Prop where
  log : sblock.logStart.toNat + sblock.numLogBlocks.toNat ≤ sblock.bitmapStart.toNat
  bitmap : ∀ n, n < sblock.numBlocks.toNat →
    sblock.bitmapStart.toNat + n / bitPerBlock < dataStart

section Blocks

variable {sblock : SuperBlock} {dataStart n other : Nat} {view : BlockNo → BlockData}

theorem SuperBlock.bitmapBlock_toNat (sblock : SuperBlock) (within : n < 2 ^ 32) :
    (sblock.bitmapBlock n).toNat = sblock.bitmapStart.toNat + n / bitPerBlock := by
  have small := sblock.bitmapStart.toNat_lt
  have quotient := Nat.div_le_self n bitPerBlock
  unfold bitmapBlock
  rw [UInt64.toNat_ofNat']
  exact Nat.mod_eq_of_lt (by omega)

theorem bblock_eq (sblock : SuperBlock) {blockNo : UInt64} (within : blockNo.toNat < 2 ^ 32) :
    bblock sblock blockNo = sblock.bitmapBlock blockNo.toNat := by
  have small := sblock.bitmapStart.toNat_lt
  have quotient := Nat.div_le_self blockNo.toNat bitPerBlock
  have divisor : (UInt64.ofNat bitPerBlock).toNat = bitPerBlock := by decide
  apply UInt64.toNat.inj
  unfold bblock
  rw [sblock.bitmapBlock_toNat within, UInt64.toNat_add, UInt64.toNat_div, divisor,
    UInt32.toNat_toUInt64, Nat.add_comm]
  exact Nat.mod_eq_of_lt (by omega)

theorem SuperBlock.bitmapBlock_eq_iff (sblock : SuperBlock) (within : n < 2 ^ 32)
    (within' : other < 2 ^ 32) :
    sblock.bitmapBlock other = sblock.bitmapBlock n ↔ other / bitPerBlock = n / bitPerBlock := by
  constructor
  · intro same
    have numbers := congrArg UInt64.toNat same
    rw [sblock.bitmapBlock_toNat within, sblock.bitmapBlock_toNat within'] at numbers
    omega
  · intro same
    unfold bitmapBlock
    rw [same]

theorem bitOf_eq_iff (same : other / bitPerBlock = n / bitPerBlock) :
    bitOf other = bitOf n ↔ other = n := by
  have parts := Nat.div_add_mod other bitPerBlock
  have parts' := Nat.div_add_mod n bitPerBlock
  constructor
  · intro equal
    have rest : other % bitPerBlock = n % bitPerBlock := congrArg Fin.val equal
    rw [← parts, ← parts', same, rest]
  · intro equal
    rw [equal]

theorem SuperBlock.bitmapBlock_add (sblock : SuperBlock) {b : Nat} (whole : b % bitPerBlock = 0)
    (place : Fin bitPerBlock) :
    sblock.bitmapBlock (b + place.val) = sblock.bitmapBlock b ∧ bitOf (b + place.val) = place := by
  have bound : place.val < 4096 := place.isLt
  change b % 4096 = 0 at whole
  have quotient : (b + place.val) / 4096 = b / 4096 := by omega
  constructor
  · change UInt64.ofNat (sblock.bitmapStart.toNat + (b + place.val) / 4096) = _
    rw [quotient]
    rfl
  · apply Fin.ext
    change (b + place.val) % 4096 = place.val
    omega

theorem SuperBlock.bitmapBlock_outside (arranged : sblock.Arranged dataStart)
    (within : n < 2 ^ 32) : ¬sblock.InLog (sblock.bitmapBlock n) := by
  have order := arranged.log
  unfold InLog
  rw [sblock.bitmapBlock_toNat within, bitPerBlock_eq]
  omega

theorem SuperBlock.data_outside (arranged : sblock.Arranged dataStart)
    (within : n < sblock.numBlocks.toNat) (data : dataStart ≤ n) :
    ¬sblock.InLog (UInt64.ofNat n) := by
  have order := arranged.log
  have bitmap := arranged.bitmap n within
  have small := sblock.numBlocks.toNat_lt
  rw [bitPerBlock_eq] at bitmap
  have number : (UInt64.ofNat n).toNat = n := by
    rw [UInt64.toNat_ofNat']
    exact Nat.mod_eq_of_lt (by omega)
  unfold InLog
  rw [number]
  omega

theorem SuperBlock.bitmapBlock_ne_data (arranged : sblock.Arranged dataStart)
    (within : n < sblock.numBlocks.toNat) (data : dataStart ≤ n)
    (within' : other < sblock.numBlocks.toNat) :
    sblock.bitmapBlock other ≠ UInt64.ofNat n := by
  intro same
  have bitmap := arranged.bitmap other within'
  have small := sblock.numBlocks.toNat_lt
  have numbers := congrArg UInt64.toNat same
  rw [sblock.bitmapBlock_toNat (by omega), UInt64.toNat_ofNat'] at numbers
  omega

theorem SuperBlock.mem_inUse : n ∈ sblock.inUse view ↔
    n < sblock.numBlocks.toNat ∧ bitAt (view (sblock.bitmapBlock n)) (bitOf n) = true :=
  Iff.rfl

theorem SuperBlock.inUse_congr {content : BlockNo → BlockData}
    (same : ∀ n, n < sblock.numBlocks.toNat →
      content (sblock.bitmapBlock n) = view (sblock.bitmapBlock n)) :
    sblock.inUse content = sblock.inUse view := by
  ext n
  rw [mem_inUse, mem_inUse]
  constructor
  · rintro ⟨within, set⟩
    rw [same n within] at set
    exact ⟨within, set⟩
  · rintro ⟨within, set⟩
    rw [← same n within] at set
    exact ⟨within, set⟩

theorem SuperBlock.mem_inUse_add {b : Nat} (whole : b % bitPerBlock = 0)
    (place : Fin bitPerBlock) (within : b + place.val < sblock.numBlocks.toNat) :
    b + place.val ∈ sblock.inUse view ↔ bitAt (view (sblock.bitmapBlock b)) place = true := by
  obtain ⟨same, bit⟩ := sblock.bitmapBlock_add whole place
  rw [mem_inUse, same, bit]
  exact and_iff_right within

theorem SuperBlock.inUse_of_scan {b : Nat} (whole : b % bitPerBlock = 0)
    (before : ∀ n, n < b → n < sblock.numBlocks.toNat → n ∈ sblock.inUse view) {last : Nat}
    (all : ∀ place : Fin bitPerBlock, b + place.val < sblock.numBlocks.toNat → place.val < last →
      bitAt (view (sblock.bitmapBlock b)) place = true) (short : last ≤ bitPerBlock)
    (within : n < sblock.numBlocks.toNat) (below : n < b + last) : n ∈ sblock.inUse view := by
  by_cases low : n < b
  · exact before n low within
  · have place : n - b < bitPerBlock := by omega
    have split : b + (n - b) = n := by omega
    have inside : b + (⟨n - b, place⟩ : Fin bitPerBlock).val < sblock.numBlocks.toNat := by
      rw [split]
      exact within
    have set := (mem_inUse_add whole ⟨n - b, place⟩ inside).mpr
      (all ⟨n - b, place⟩ inside (by change n - b < last; omega))
    rw [split] at set
    exact set

theorem SuperBlock.least_of_scan {b : Nat} (whole : b % bitPerBlock = 0)
    (before : ∀ n, n < b → n < sblock.numBlocks.toNat → n ∈ sblock.inUse view)
    {found : Fin bitPerBlock} (inside : b + found.val < sblock.numBlocks.toNat)
    (clear : bitAt (view (sblock.bitmapBlock b)) found = false)
    (earlier : ∀ place : Fin bitPerBlock, place.val < found.val →
      bitAt (view (sblock.bitmapBlock b)) place = true) :
    IsLeast (sblock.unused view) (b + found.val) := by
  have bound := found.isLt
  constructor
  · constructor
    · exact inside
    · rw [mem_inUse_add whole found inside, clear]
      exact Bool.false_ne_true
  · intro other unused
    by_contra less
    exact unused.2 (inUse_of_scan whole before (fun place _ => earlier place) (by omega) unused.1
      (by omega))

theorem SuperBlock.inUse_setBit (within : n < sblock.numBlocks.toNat) :
    sblock.inUse (Function.update view (sblock.bitmapBlock n)
      (setBit (view (sblock.bitmapBlock n)) (bitOf n))) = insert n (sblock.inUse view) := by
  have small := sblock.numBlocks.toNat_lt
  ext other
  rw [Set.mem_insert_iff, mem_inUse, mem_inUse, Function.update_apply]
  by_cases inside : other < sblock.numBlocks.toNat
  · have iff : sblock.bitmapBlock other = sblock.bitmapBlock n ↔ _ :=
      sblock.bitmapBlock_eq_iff (by omega) (by omega)
    by_cases same : other / bitPerBlock = n / bitPerBlock
    · rw [if_pos (iff.mpr same), bitAt_setBit, iff.mpr same, Bool.or_eq_true, decide_eq_true_eq,
        bitOf_eq_iff same]
      constructor
      · rintro ⟨_, set | equal⟩
        · exact Or.inr ⟨inside, set⟩
        · exact Or.inl equal
      · rintro (equal | ⟨_, set⟩)
        · exact ⟨inside, Or.inr equal⟩
        · exact ⟨inside, Or.inl set⟩
    · rw [if_neg (fun equal => same (iff.mp equal))]
      have different : other ≠ n := fun equal => same (by rw [equal])
      simp [different]
  · have different : other ≠ n := by omega
    simp [inside, different]

theorem SuperBlock.inUse_clearBit (within : n < sblock.numBlocks.toNat) :
    sblock.inUse (Function.update view (sblock.bitmapBlock n)
      (clearBit (view (sblock.bitmapBlock n)) (bitOf n))) = sblock.inUse view \ {n} := by
  have small := sblock.numBlocks.toNat_lt
  ext other
  rw [Set.mem_sdiff, Set.mem_singleton_iff, mem_inUse, mem_inUse, Function.update_apply]
  by_cases inside : other < sblock.numBlocks.toNat
  · have iff : sblock.bitmapBlock other = sblock.bitmapBlock n ↔ _ :=
      sblock.bitmapBlock_eq_iff (by omega) (by omega)
    by_cases same : other / bitPerBlock = n / bitPerBlock
    · rw [if_pos (iff.mpr same), bitAt_clearBit, iff.mpr same, Bool.and_eq_true,
        decide_eq_true_eq, ne_eq, bitOf_eq_iff same]
      exact (and_assoc).symm
    · rw [if_neg (fun equal => same (iff.mp equal))]
      have different : other ≠ n := fun equal => same (by rw [equal])
      simp [different]
  · simp [inside]

end Blocks

/-! ### The calls -/

def SuperBlock.allocated (sblock : SuperBlock) (view : BlockNo → BlockData) (n : Nat) :
    BlockNo → BlockData :=
  Function.update (Function.update view (sblock.bitmapBlock n)
    (setBit (view (sblock.bitmapBlock n)) (bitOf n))) (UInt64.ofNat n) (fun _ => 0)

def SuperBlock.freed (sblock : SuperBlock) (view : BlockNo → BlockData) (n : Nat) :
    BlockNo → BlockData :=
  Function.update view (sblock.bitmapBlock n)
    (clearBit (view (sblock.bitmapBlock n)) (bitOf n))

namespace Bcache.Sound

variable {sblock : SuperBlock} {dataStart : Nat} {view : BlockNo → BlockData} {bcache : Bcache}
  {ctx : CtxId}

theorem bzero (sound : bcache.Sound sblock view) {blockNo : UInt32}
    (outside : ¬sblock.InLog blockNo.toUInt64) (member : ctx ∈ bcache.running)
    (affords : bcache.Affords ctx [blockNo.toUInt64]) :
    ∃ after, bcache.bzero (some ctx) blockNo = .ok after ∧
      after.Sound sblock (Function.update view blockNo.toUInt64 (fun _ => 0)) ∧
      after.running = bcache.running := by
  obtain ⟨synced, paid, -⟩ := affords
  obtain ⟨bp, first, acquired, holding⟩ := sound.acquire outside
  obtain ⟨second, third, after, stored, logged, released, kept, -, -, -, running⟩ :=
    holding.put sound outside member paid (fun _ => 0)
  refine ⟨after, ?_, kept, running⟩
  unfold Bcache.bzero
  rw [acquired]
  simp only [ok_bind]
  rw [stored]
  simp only [ok_bind]
  rw [logged]
  exact released

/-- The end of `cache_alloc` at the clear bit of a data block. -/
theorem take (sound : bcache.Sound sblock view) (arranged : sblock.Arranged dataStart)
    {n : UInt32} (within : n.toNat < sblock.numBlocks.toNat) (data : dataStart ≤ n.toNat)
    (member : ctx ∈ bcache.running)
    (affords : bcache.Affords ctx [sblock.bitmapBlock n.toNat, UInt64.ofNat n.toNat])
    {block : BlockNo} (same : sblock.bitmapBlock n.toNat = block) {bi : Fin bitPerBlock}
    (bit : bitOf n.toNat = bi) {bp : Addr} {first : Bcache}
    (holding : bcache.Holding view block bp first) :
    ∃ after, first.take (some ctx) bp bi n = .ok after ∧
      after.Sound sblock (sblock.allocated view n.toNat) ∧ after.running = bcache.running := by
  subst same
  subst bit
  have number := toUInt64_eq n
  obtain ⟨synced, paid, rest⟩ := affords
  obtain ⟨second, third, fourth, stored, logged, released, kept, log, header, rm, running⟩ :=
    holding.put sound (SuperBlock.bitmapBlock_outside arranged n.toNat_lt) member paid
      (setBit (view (sblock.bitmapBlock n.toNat)) (bitOf n.toNat))
  have affords' : fourth.Affords ctx [n.toUInt64] := by
    unfold Bcache.Affords
    rw [log, header, rm, number]
    exact rest
  have member' : ctx ∈ fourth.running := by
    rw [running]
    exact member
  obtain ⟨after, cleared, final, same⟩ := kept.bzero
    (by rw [number]; exact SuperBlock.data_outside arranged within data) member' affords'
  refine ⟨after, ?_, ?_, same.trans running⟩
  · unfold Bcache.take
    rw [holding.data, stored]
    simp only [ok_bind]
    rw [logged]
    simp only [ok_bind]
    rw [released]
    exact cleared
  · rw [number] at final
    exact final

/-- What `cache_alloc` does: it takes the least unused block, or panics if there is none. -/
inductive Alloc (sblock : SuperBlock) (view : BlockNo → BlockData) (running : List CtxId) :
    Except Stop (UInt32 × Bcache) → Prop
  | full (all : ∀ n, n < sblock.numBlocks.toNat → n ∈ sblock.inUse view) :
      Alloc sblock view running (.error .panicNoFreeBlock)
  | took (n : UInt32) (after : Bcache) (least : IsLeast (sblock.unused view) n.toNat)
      (sound : after.Sound sblock (sblock.allocated view n.toNat))
      (same : after.running = running) : Alloc sblock view running (.ok (n, after))

theorem allocLoop (arranged : sblock.Arranged dataStart)
    (bounded : sblock.numBlocks.toNat ≤ 2 ^ 32 - bitPerBlock)
    (reserved : ∀ n, n < sblock.numBlocks.toNat → n < dataStart → n ∈ sblock.inUse view) :
    ∀ (rounds : Nat) (b : UInt32) (bcache : Bcache), bcache.Sound sblock view →
      ctx ∈ bcache.running →
      (∀ n, IsLeast (sblock.unused view) n →
        bcache.Affords ctx [sblock.bitmapBlock n, UInt64.ofNat n]) →
      b.toNat + rounds * bitPerBlock = 2 ^ 32 → b.toNat % bitPerBlock = 0 →
      (∀ n, n < b.toNat → n < sblock.numBlocks.toNat → n ∈ sblock.inUse view) →
        Alloc sblock view bcache.running (bcache.allocLoop sblock (some ctx) rounds b) := by
  have size := bitPerBlock_eq
  intro rounds
  induction rounds with
  | zero =>
      intro b bcache sound member affords total whole before
      have small := b.toNat_lt
      omega
  | succ rounds ih =>
      intro b bcache sound member affords total whole before
      have small := b.toNat_lt
      unfold Bcache.allocLoop
      by_cases more : b.toNat < sblock.numBlocks.toNat
      · rw [if_pos (UInt32.lt_iff_toNat_lt.mpr more)]
        have block : bblock sblock b.toUInt64 = sblock.bitmapBlock b.toNat :=
          bblock_eq sblock (by rw [UInt32.toNat_toUInt64]; exact small)
        have outside := SuperBlock.bitmapBlock_outside arranged small
        obtain ⟨bp, first, acquired, holding⟩ := sound.acquire outside
        rw [block, acquired]
        simp only [ok_bind]
        rw [holding.data]
        have fits : b.toNat + bitPerBlock ≤ 2 ^ 32 := by omega
        rcases scanBits_spec fits bitPerBlock 0 (Nat.le_add_left _ _) with
          ⟨found, scanned, -, inside, clear, earlier⟩ | ⟨scanned, all⟩
        · rw [scanned]
          simp only
          have bound := found.isLt
          have number : (b + UInt32.ofNat found.val).toNat = b.toNat + found.val := by
            rw [UInt32.toNat_add, UInt32.toNat_ofNat']
            omega
          obtain ⟨same, bit⟩ := sblock.bitmapBlock_add whole found
          have least : IsLeast (sblock.unused view) (b + UInt32.ofNat found.val).toNat := by
            rw [number]
            exact SuperBlock.least_of_scan whole before inside clear
              (fun place => earlier place (Nat.zero_le _))
          have data : dataStart ≤ (b + UInt32.ofNat found.val).toNat := by
            by_contra low
            exact least.1.2 (reserved _ least.1.1 (by omega))
          rw [← number] at same bit
          obtain ⟨after, taken, final, running⟩ := sound.take arranged least.1.1 data member
            (affords _ least) same bit holding
          rw [taken]
          exact .took _ _ least final running
        · rw [scanned]
          simp only
          obtain ⟨after, released, kept, log, header, rm, running⟩ :=
            holding.release sound outside
          have next : (b + UInt32.ofNat bitPerBlock).toNat = b.toNat + bitPerBlock := by
            rw [UInt32.toNat_add, UInt32.toNat_ofNat']
            omega
          rw [released, ← running]
          apply ih (b + UInt32.ofNat bitPerBlock) after kept
          · rw [running]
            exact member
          · intro n least
            unfold Bcache.Affords
            rw [log, header, rm]
            exact affords n least
          · rw [next]
            rw [Nat.succ_mul] at total
            omega
          · rw [next, Nat.add_mod_right]
            exact whole
          · intro n below within
            rw [next] at below
            exact SuperBlock.inUse_of_scan whole before
              (fun place within _ => all place (Nat.zero_le _) within) (Nat.le_refl _) within below
      · rw [if_neg (fun less => more (UInt32.lt_iff_toNat_lt.mp less))]
        apply Alloc.full
        intro n within
        exact before n (by omega) within

theorem alloc (sound : bcache.Sound sblock view) (arranged : sblock.Arranged dataStart)
    (bounded : sblock.numBlocks.toNat ≤ 2 ^ 32 - bitPerBlock)
    (reserved : ∀ n, n < sblock.numBlocks.toNat → n < dataStart → n ∈ sblock.inUse view)
    (member : ctx ∈ bcache.running)
    (affords : ∀ n, IsLeast (sblock.unused view) n →
      bcache.Affords ctx [sblock.bitmapBlock n, UInt64.ofNat n]) :
    Alloc sblock view bcache.running (bcache.alloc sblock (some ctx)) := by
  apply allocLoop arranged bounded reserved _ _ _ sound member affords
  · rfl
  · rfl
  · intro n below
    exact absurd below (Nat.not_lt_zero n)

/-- What `cache_free` does: it clears a bit that is set, and panics at one that is clear. -/
inductive Free (sblock : SuperBlock) (view : BlockNo → BlockData) (running : List CtxId)
    (n : Nat) : Except Stop Bcache → Prop
  | unused (clear : n ∉ sblock.inUse view) : Free sblock view running n (.error .panicDoubleFree)
  | freed (after : Bcache) (set : n ∈ sblock.inUse view)
      (sound : after.Sound sblock (sblock.freed view n)) (same : after.running = running) :
      Free sblock view running n (.ok after)

theorem free (sound : bcache.Sound sblock view) (arranged : sblock.Arranged dataStart)
    (member : ctx ∈ bcache.running) {blockNo : UInt64}
    (within : blockNo.toNat < sblock.numBlocks.toNat)
    (affords : bcache.Affords ctx [sblock.bitmapBlock blockNo.toNat]) :
    Free sblock view bcache.running blockNo.toNat
      (bcache.free sblock (some ctx) blockNo) := by
  have small := sblock.numBlocks.toNat_lt
  have short : blockNo.toNat < 2 ^ 32 := by omega
  have outside := SuperBlock.bitmapBlock_outside arranged short
  obtain ⟨synced, paid, -⟩ := affords
  obtain ⟨bp, first, acquired, holding⟩ := sound.acquire outside
  obtain ⟨second, third, after, stored, logged, released, kept, -, -, -, running⟩ :=
    holding.put sound outside member paid
      (clearBit (view (sblock.bitmapBlock blockNo.toNat)) (bitOf blockNo.toNat))
  have mine : blockNo.toNat ∈ sblock.inUse view ↔
      bitAt (view (sblock.bitmapBlock blockNo.toNat)) (bitOf blockNo.toNat) = true :=
    and_iff_right within
  have bit : (⟨blockNo.toNat % bitPerBlock, Nat.mod_lt _ (by decide)⟩ : Fin bitPerBlock) =
      bitOf blockNo.toNat := rfl
  unfold Bcache.free
  rw [bblock_eq sblock short, acquired]
  simp only [ok_bind, bit]
  rw [holding.data, bitClear_eq]
  cases set : bitAt (view (sblock.bitmapBlock blockNo.toNat)) (bitOf blockNo.toNat) with
  | false =>
      apply Free.unused
      rw [mine, set]
      exact Bool.false_ne_true
  | true =>
      simp only [Bool.not_true, Bool.false_eq_true, if_false]
      rw [stored]
      simp only [ok_bind]
      rw [logged]
      simp only [ok_bind]
      rw [released]
      exact .freed after (mine.mpr set) kept running

end Bcache.Sound

/-! ### `mkfs` -/

/-- The loop of `balloc` up to a bit. -/
def ballocLoop : Nat → BlockData
  | 0 => fun _ => 0
  | i + 1 => setBit (ballocLoop i) (bitOf i)

/-- The bitmap block that `balloc` writes, if its assertion holds. -/
def balloc (used : Nat) : Option BlockData :=
  if used < blockSize * 8 then some (ballocLoop used) else none

theorem bitAt_ballocLoop (used : Nat) (small : used < bitPerBlock) (bi : Fin bitPerBlock) :
    bitAt (ballocLoop used) bi = decide (bi.val < used) := by
  induction used with
  | zero =>
      unfold bitAt ballocLoop
      simp
  | succ used ih =>
      have same : bi = bitOf used ↔ bi.val = used := by
        rw [Fin.ext_iff]
        change bi.val = used % bitPerBlock ↔ _
        rw [Nat.mod_eq_of_lt (by omega)]
      unfold ballocLoop
      rw [bitAt_setBit, ih (by omega), ← Bool.decide_or, decide_eq_decide, same]
      omega

theorem SuperBlock.inUse_balloc {sblock : SuperBlock} {content : BlockNo → BlockData}
    {used : Nat} {data : BlockData} (written : balloc used = some data)
    (first : content (sblock.bitmapBlock 0) = data)
    (others : ∀ n, n < sblock.numBlocks.toNat → bitPerBlock ≤ n →
      content (sblock.bitmapBlock n) = fun _ => 0) :
    sblock.inUse content = { n | n < sblock.numBlocks.toNat ∧ n < used } := by
  unfold balloc at written
  split at written
  · rename_i small
    cases written
    change used < bitPerBlock at small
    ext n
    rw [mem_inUse]
    change _ ↔ n < sblock.numBlocks.toNat ∧ n < used
    apply and_congr_right
    intro within
    by_cases low : n < bitPerBlock
    · have same : sblock.bitmapBlock n = sblock.bitmapBlock 0 := by
        unfold bitmapBlock
        rw [Nat.div_eq_of_lt low, Nat.zero_div]
      have bit : (bitOf n).val = n := Nat.mod_eq_of_lt low
      rw [same, first, bitAt_ballocLoop used small, decide_eq_true_eq, bit]
    · rw [others n within (by omega)]
      simp only [bitAt, UInt8.toNat_zero, Nat.zero_testBit, Bool.false_eq_true, false_iff]
      omega
  · cases written

/-! ### Whole runs -/

def Bcache.inUse (sblock : SuperBlock) (bcache : Bcache) : Set Nat :=
  sblock.inUse bcache.volume.content

/-- The block that `cache_alloc` will return, if there is one. -/
def Bcache.NextFree (sblock : SuperBlock) (bcache : Bcache) (n : Nat) : Prop :=
  IsLeast { n | n < sblock.numBlocks.toNat ∧ n ∉ bcache.inUse sblock } n

/-- Allocating and freeing data blocks, inside operations with enough log budget. -/
def BitmapCall (sblock : SuperBlock) (dataStart : Nat) (bcache : Bcache) : Call → Prop
  | .beginOp _ | .endOp _ => True
  | .alloc (some ctx) => ∀ n, bcache.NextFree sblock n →
      bcache.Affords ctx [sblock.bitmapBlock n, UInt64.ofNat n]
  | .free (some ctx) blockNo => dataStart ≤ blockNo.toNat ∧
      blockNo.toNat < sblock.numBlocks.toNat ∧
      bcache.Affords ctx [sblock.bitmapBlock blockNo.toNat]
  | _ => False

/-- Nothing outside the log area has changed but these blocks. -/
def Bcache.SameBut (sblock : SuperBlock) (bcache after : Bcache) (blocks : List BlockNo) : Prop :=
  ∀ blockNo, ¬sblock.InLog blockNo → blockNo ∉ blocks →
    after.volume.content blockNo = bcache.volume.content blockNo

/-- `cache_alloc` on the set: it adds the least number that is missing, and panics if none is. -/
def AllocOnSet (sblock : SuperBlock) (bcache : Bcache) : Except Stop (UInt32 × Bcache) → Prop
  | .ok (n, after) => bcache.NextFree sblock n.toNat ∧
      after.inUse sblock = insert n.toNat (bcache.inUse sblock) ∧
      (after.volume.content n.toUInt64 = fun _ => 0) ∧
      bcache.SameBut sblock after [n.toUInt64, sblock.bitmapBlock n.toNat]
  | .error reason => reason = .panicNoFreeBlock ∧
      ∀ n, n < sblock.numBlocks.toNat → n ∈ bcache.inUse sblock

/-- `cache_free` on the set: it removes a number, and panics if it is missing. -/
def FreeOnSet (sblock : SuperBlock) (bcache : Bcache) (n : Nat) : Except Stop Bcache → Prop
  | .ok after => n ∈ bcache.inUse sblock ∧ after.inUse sblock = bcache.inUse sblock \ {n} ∧
      bcache.SameBut sblock after [sblock.bitmapBlock n] ∧
      ∀ bi, bi ≠ bitOf n → bitAt (after.volume.content (sblock.bitmapBlock n)) bi =
        bitAt (bcache.volume.content (sblock.bitmapBlock n)) bi
  | .error reason => reason = .panicDoubleFree ∧ n ∉ bcache.inUse sblock

section Runs

variable {sblock : SuperBlock} {dataStart n : Nat} {view : BlockNo → BlockData}
  {bcache after : Bcache} {ctx : CtxId}

/-- The blocks before the data blocks are in use. -/
structure Bcache.Mapped (sblock : SuperBlock) (dataStart : Nat) (view : BlockNo → BlockData)
    (bcache : Bcache) : Prop where
  sound : bcache.Sound sblock view
  reserved : ∀ n, n < sblock.numBlocks.toNat → n < dataStart → n ∈ sblock.inUse view

theorem Bcache.Sound.inUse_eq (sound : bcache.Sound sblock view)
    (arranged : sblock.Arranged dataStart) : bcache.inUse sblock = sblock.inUse view := by
  apply SuperBlock.inUse_congr
  intro n within
  have small := sblock.numBlocks.toNat_lt
  exact sound.content_eq (SuperBlock.bitmapBlock_outside arranged (by omega))

theorem Bcache.Sound.nextFree_iff (sound : bcache.Sound sblock view)
    (arranged : sblock.Arranged dataStart) :
    bcache.NextFree sblock n ↔ IsLeast (sblock.unused view) n := by
  unfold Bcache.NextFree SuperBlock.unused
  rw [sound.inUse_eq arranged]

theorem SuperBlock.inUse_allocated (arranged : sblock.Arranged dataStart)
    (within : n < sblock.numBlocks.toNat) (data : dataStart ≤ n) :
    sblock.inUse (sblock.allocated view n) = insert n (sblock.inUse view) := by
  rw [← inUse_setBit within]
  apply inUse_congr
  intro other within'
  exact Function.update_of_ne (bitmapBlock_ne_data arranged within data within') _ _

theorem Bcache.Mapped.data_of_least (mapped : bcache.Mapped sblock dataStart view)
    (least : IsLeast (sblock.unused view) n) : dataStart ≤ n := by
  by_contra low
  exact least.1.2 (mapped.reserved n least.1.1 (by omega))

theorem Bcache.Mapped.allocOnSet (mapped : bcache.Mapped sblock dataStart view)
    (arranged : sblock.Arranged dataStart) {result : Except Stop (UInt32 × Bcache)}
    (alloc : Bcache.Sound.Alloc sblock view bcache.running result) :
    AllocOnSet sblock bcache result := by
  have sound := mapped.sound
  cases alloc with
  | full all =>
      constructor
      · exact rfl
      · rw [sound.inUse_eq arranged]
        exact all
  | took n after least final same =>
      have data := mapped.data_of_least least
      have number := toUInt64_eq n
      refine ⟨(sound.nextFree_iff arranged).mpr least, ?_, ?_, ?_⟩
      · rw [final.inUse_eq arranged, sound.inUse_eq arranged,
          SuperBlock.inUse_allocated arranged least.1.1 data]
      · rw [number, final.content_eq (SuperBlock.data_outside arranged least.1.1 data)]
        exact Function.update_self _ _ _
      · intro blockNo outside others
        rw [List.mem_cons, List.mem_singleton, not_or, number] at others
        rw [final.content_eq outside, sound.content_eq outside]
        unfold SuperBlock.allocated
        rw [Function.update_of_ne others.1, Function.update_of_ne others.2]

theorem Bcache.Sound.freeOnSet (sound : bcache.Sound sblock view)
    (arranged : sblock.Arranged dataStart) (within : n < sblock.numBlocks.toNat)
    {result : Except Stop Bcache} (free : Bcache.Sound.Free sblock view bcache.running n result) :
    FreeOnSet sblock bcache n result := by
  have small := sblock.numBlocks.toNat_lt
  cases free with
  | unused clear =>
      constructor
      · exact rfl
      · rw [sound.inUse_eq arranged]
        exact clear
  | freed after set final same =>
      refine ⟨?_, ?_, ?_, ?_⟩
      · rw [sound.inUse_eq arranged]
        exact set
      · rw [final.inUse_eq arranged, sound.inUse_eq arranged]
        exact SuperBlock.inUse_clearBit within
      · intro blockNo outside others
        rw [List.mem_singleton] at others
        rw [final.content_eq outside, sound.content_eq outside]
        exact Function.update_of_ne others _ _
      · intro bi different
        have outside : ¬sblock.InLog (sblock.bitmapBlock n) :=
          SuperBlock.bitmapBlock_outside arranged (by omega)
        rw [final.content_eq outside, sound.content_eq outside]
        unfold SuperBlock.freed
        rw [Function.update_self, bitAt_clearBit, decide_eq_true different, Bool.and_true]

theorem Bcache.Mapped.step (mapped : bcache.Mapped sblock dataStart view)
    (arranged : sblock.Arranged dataStart)
    (bounded : sblock.numBlocks.toNat ≤ 2 ^ 32 - bitPerBlock) {call : Call}
    (met : BitmapCall sblock dataStart bcache call)
    (taken : callStep sblock bcache call = .ok after) :
    ∃ view, after.Mapped sblock dataStart view := by
  obtain ⟨sound, reserved⟩ := id mapped
  unfold callStep at taken
  split at taken
  · rename_i permitted
    cases call with
    | acquire blockNo => cases met
    | store addr data => cases met
    | release addr => cases met
    | sync ctx addr => cases met
    | beginOp ctx => exact ⟨view, sound.beginOp (of_decide_eq_true permitted) taken, reserved⟩
    | endOp ctx =>
        obtain ⟨next, ended, kept⟩ := sound.endOp (of_decide_eq_true permitted)
        have returned : bcache.endOp sblock ctx = .ok after := taken
        rw [returned] at ended
        cases ended
        exact ⟨view, kept, reserved⟩
    | alloc ctx =>
        cases ctx with
        | none => cases met
        | some ctx =>
            have member := of_decide_eq_true permitted ctx rfl
            obtain ⟨⟨blockNo, next⟩, returned, same⟩ := map_eq_ok taken
            have alloc := sound.alloc arranged bounded reserved member (by
              intro n least
              exact met n ((sound.nextFree_iff arranged).mpr least))
            rw [returned] at alloc
            cases alloc with
            | took n after least final running =>
                have data := mapped.data_of_least least
                subst same
                refine ⟨_, final, ?_⟩
                intro n within low
                rw [SuperBlock.inUse_allocated arranged least.1.1 data]
                exact Set.mem_insert_of_mem _ (reserved n within low)
    | free ctx blockNo =>
        cases ctx with
        | none => cases met
        | some ctx =>
            obtain ⟨data, within, affords⟩ := met
            have member := of_decide_eq_true permitted ctx rfl
            have free := sound.free arranged member within affords
            have returned : bcache.free sblock (some ctx) blockNo = .ok after := taken
            rw [returned] at free
            cases free with
            | freed after set final running =>
                refine ⟨_, final, ?_⟩
                intro n within' low
                unfold SuperBlock.freed
                rw [SuperBlock.inUse_clearBit within]
                constructor
                · exact reserved n within' low
                · rw [Set.mem_singleton_iff]
                  omega
  · cases taken

end Runs

theorem clearBit_setBit {data : BlockData} {bi : Fin bitPerBlock} (clear : bitAt data bi = false) :
    clearBit (setBit data bi) bi = data := by
  apply bits_ext
  intro other
  rw [bitAt_clearBit, bitAt_setBit]
  by_cases same : other = bi
  · rw [same, clear]
    simp
  · simp [same]

theorem SuperBlock.freed_allocated {sblock : SuperBlock} {dataStart n other : Nat}
    {view : BlockNo → BlockData} (arranged : sblock.Arranged dataStart)
    (unused : n ∈ sblock.unused view) (data : dataStart ≤ n)
    (within : other < sblock.numBlocks.toNat) :
    sblock.freed (sblock.allocated view n) n (sblock.bitmapBlock other) =
      view (sblock.bitmapBlock other) := by
  have clear : bitAt (view (sblock.bitmapBlock n)) (bitOf n) = false := by
    rw [← Bool.not_eq_true]
    intro set
    exact unused.2 ⟨unused.1, set⟩
  have apart : ∀ other, other < sblock.numBlocks.toNat →
      sblock.allocated view n (sblock.bitmapBlock other) =
        Function.update view (sblock.bitmapBlock n)
          (setBit (view (sblock.bitmapBlock n)) (bitOf n)) (sblock.bitmapBlock other) := by
    intro other within
    exact Function.update_of_ne (bitmapBlock_ne_data arranged unused.1 data within) _ _
  unfold freed
  by_cases same : sblock.bitmapBlock other = sblock.bitmapBlock n
  · rw [same, Function.update_self, apart n unused.1, Function.update_self, clearBit_setBit clear]
  · rw [Function.update_of_ne same, apart other within, Function.update_of_ne same]

/-- Over every run of allocating and freeing data blocks the bitmap is a set of numbers:
`cache_alloc` adds the least one that is missing and clears that block, `cache_free` takes one
away, and nothing else outside the log area changes. -/
theorem bitmap_as_set (sblock : SuperBlock) (dataStart : Nat)
    (arranged : sblock.Arranged dataStart)
    (bounded : sblock.numBlocks.toNat ≤ 2 ^ 32 - bitPerBlock) {heap : Addr → Block} {disk : Disk}
    {start : Bcache} (initialised : Bcache.init sblock heap disk = .ok start)
    (reserved : ∀ n, n < sblock.numBlocks.toNat → n < dataStart → n ∈ start.inUse sblock)
    {calls : List Call} {state : Bcache}
    (run : Run (callStep sblock) (BitmapCall sblock dataStart) start calls state) :
    (∀ n, n < sblock.numBlocks.toNat → n < dataStart → n ∈ state.inUse sblock) ∧
    (∀ ctx ∈ state.running, ∀ blocks : List BlockNo, blocks.length ≤ state.rm ctx →
      state.Affords ctx blocks) ∧
    (∀ ctx ∈ state.running, (∀ n, state.NextFree sblock n →
        state.Affords ctx [sblock.bitmapBlock n, UInt64.ofNat n]) →
      AllocOnSet sblock state (state.alloc sblock (some ctx)) ∧
      ∀ n next, state.alloc sblock (some ctx) = .ok (n, next) → ∀ other ∈ next.running,
        next.Affords other [sblock.bitmapBlock n.toNat] →
        ∃ after, next.free sblock (some other) n.toUInt64 = .ok after ∧
          ∀ m, m < sblock.numBlocks.toNat → after.volume.content (sblock.bitmapBlock m) =
            state.volume.content (sblock.bitmapBlock m)) ∧
    (∀ ctx ∈ state.running, ∀ blockNo : UInt64, blockNo.toNat < sblock.numBlocks.toNat →
      state.Affords ctx [sblock.bitmapBlock blockNo.toNat] →
      FreeOnSet sblock state blockNo.toNat (state.free sblock (some ctx) blockNo)) ∧
    (∀ ctx ∈ state.running, ∃ after, state.endOp sblock ctx = .ok after ∧
      state.SameBut sblock after []) ∧
    (∀ used data content, balloc used = some data → content (sblock.bitmapBlock 0) = data →
      (∀ n, n < sblock.numBlocks.toNat → bitPerBlock ≤ n →
        content (sblock.bitmapBlock n) = fun _ => 0) →
      sblock.inUse content = { n | n < sblock.numBlocks.toNat ∧ n < used }) := by
  have mapped : ∃ view, state.Mapped sblock dataStart view := by
    have begun := Bcache.Sound.init initialised
    rw [begun.inUse_eq arranged] at reserved
    apply run.invariant (P := fun state => ∃ view, state.Mapped sblock dataStart view)
      ⟨_, begun, reserved⟩
    rintro before call after ⟨view, mapped⟩ met taken
    exact mapped.step arranged bounded met taken
  obtain ⟨view, mapped⟩ := mapped
  have sound := mapped.sound
  have small := sblock.numBlocks.toNat_lt
  refine ⟨?_, ?_, ?_, ?_, ?_, ?_⟩
  · rw [sound.inUse_eq arranged]
    exact mapped.reserved
  · intro ctx member blocks enough
    exact sound.affords member enough
  · intro ctx member affords
    have alloc := sound.alloc arranged bounded mapped.reserved member (by
      intro n least
      exact affords n ((sound.nextFree_iff arranged).mpr least))
    constructor
    · exact mapped.allocOnSet arranged alloc
    · intro n next returned other running affords'
      rw [returned] at alloc
      cases alloc with
      | took _ _ least final same =>
          have data := mapped.data_of_least least
          have number : n.toUInt64.toNat = n.toNat := UInt32.toNat_toUInt64 n
          have within : n.toUInt64.toNat < sblock.numBlocks.toNat := by
            rw [number]
            exact least.1.1
          have set : n.toNat ∈ sblock.inUse (sblock.allocated view n.toNat) := by
            rw [SuperBlock.inUse_allocated arranged least.1.1 data]
            exact Set.mem_insert _ _
          have free := final.free arranged running within (by rw [number]; exact affords')
          rw [number] at free
          generalize freed : next.free sblock (some other) n.toUInt64 = result at free
          cases free with
          | unused clear => exact absurd set clear
          | freed after _ last _ =>
              refine ⟨after, rfl, ?_⟩
              intro m within
              have outside : ¬sblock.InLog (sblock.bitmapBlock m) :=
                SuperBlock.bitmapBlock_outside arranged (by omega)
              rw [last.content_eq outside, sound.content_eq outside]
              exact SuperBlock.freed_allocated arranged least.1 data within
  · intro ctx member blockNo within affords
    exact sound.freeOnSet arranged within (sound.free arranged member within affords)
  · intro ctx member
    obtain ⟨after, ended, kept⟩ := sound.endOp member
    refine ⟨after, ended, ?_⟩
    intro blockNo outside _
    rw [kept.content_eq outside, sound.content_eq outside]
  · intro used data content written first others
    exact SuperBlock.inUse_balloc written first others

/-- The device as `mkfs` leaves it for the blocks that are read here. -/
def mkfsDisk : Disk := Function.update (fun _ _ => 0) 91 (ballocLoop 92)

/-- The first allocation on a volume made by `mkfs` returns its first data block. -/
theorem bitmap_as_set_mkfs :
    ∃ start state n after,
      Bcache.init mkfsSuperBlock (fun _ => initBlock) mkfsDisk = .ok start ∧
      Run (callStep mkfsSuperBlock) (BitmapCall mkfsSuperBlock 92) start [.beginOp 0] state ∧
      state.alloc mkfsSuperBlock (some 0) = .ok (n, after) ∧ n.toNat = 92 ∧
      92 ∈ after.inUse mkfsSuperBlock := by
  have arranged : mkfsSuperBlock.Arranged 92 := by
    constructor
    · decide
    · intro n within
      change n < 1000 at within
      change 91 + n / 4096 < 92
      omega
  have checked : ∃ start state,
      Bcache.init mkfsSuperBlock (fun _ => initBlock) mkfsDisk = .ok start ∧
      callStep mkfsSuperBlock start (.beginOp 0) = .ok state ∧
      start.volume.content (mkfsSuperBlock.bitmapBlock 0) = ballocLoop 92 ∧
      state.volume.content (mkfsSuperBlock.bitmapBlock 0) = ballocLoop 92 ∧
      state.running = [0] ∧ state.rm 0 = 10 := ⟨_, _, rfl, rfl, rfl, rfl, rfl, rfl⟩
  obtain ⟨start, state, initialised, begun, before, now, running, budget⟩ := checked
  have used : ∀ content : BlockNo → BlockData,
      content (mkfsSuperBlock.bitmapBlock 0) = ballocLoop 92 →
        mkfsSuperBlock.inUse content = { n | n < 1000 ∧ n < 92 } := by
    intro content first
    apply SuperBlock.inUse_balloc rfl first
    intro n within large
    change n < 1000 at within
    change 4096 ≤ n at large
    omega
  have run : Run (callStep mkfsSuperBlock) (BitmapCall mkfsSuperBlock 92) start [.beginOp 0] state :=
    Run.start.next trivial begun
  have reserved : ∀ n, n < mkfsSuperBlock.numBlocks.toNat → n < 92 →
      n ∈ start.inUse mkfsSuperBlock := by
    intro n within low
    unfold Bcache.inUse
    rw [used _ before]
    exact ⟨within, low⟩
  obtain ⟨-, affords, allocs, -⟩ := bitmap_as_set mkfsSuperBlock 92 arranged (by decide) initialised
    reserved run
  have member : 0 ∈ state.running := by simp [running]
  obtain ⟨set, -⟩ := allocs 0 member (fun n _ => affords 0 member _ (by simp [budget]))
  have missing : 92 ∉ state.inUse mkfsSuperBlock := by
    unfold Bcache.inUse
    rw [used _ now]
    exact fun both => absurd both.2 (Nat.lt_irrefl 92)
  cases result : state.alloc mkfsSuperBlock (some 0) with
  | error reason =>
      rw [result] at set
      exact absurd (set.2 92 (by decide)) missing
  | ok pair =>
      obtain ⟨n, after⟩ := pair
      rw [result] at set
      obtain ⟨least, inserted, -⟩ := set
      have number : n.toNat = 92 := by
        have upper : n.toNat ≤ 92 := least.2 ⟨by decide, missing⟩
        have lower : n.toNat ∉ state.inUse mkfsSuperBlock := least.1.2
        unfold Bcache.inUse at lower
        rw [used _ now] at lower
        by_contra different
        exact lower ⟨least.1.1, by omega⟩
      refine ⟨start, state, n, after, initialised, run, result, number, ?_⟩
      rw [inserted, number]
      exact Set.mem_insert _ _

end LabKernel.Fs
