/-
Messages of `ipc.c`: loading a payload into pages and storing it in a buffer.

The first page of a message holds its header and the first bytes, every further
page holds a link and more bytes. Memory is a function from offsets to bytes, so
that a copy says what it leaves alone. The offset of a copy advances by what
remains after it, not by what was copied; both loops do so.
-/

import Mathlib.Data.Nat.Basic
import Mathlib.Logic.Basic

set_option autoImplicit false

namespace LabKernel.Ipc

def pageSize : Nat := 4096

/-- `MSG_MSGSZ`: the header has two list links, two integers and the link to the segments. -/
def msgMsgSz : Nat := pageSize - 32

def msgMsgSegSz : Nat := pageSize - 8

abbrev Bytes := Nat → UInt8

def memcpy (dst : Bytes) (dstOff : Nat) (src : Bytes) (srcOff count : Nat) : Bytes := fun index =>
  if dstOff ≤ index ∧ index < dstOff + count then src (srcOff + (index - dstOff)) else dst index

/-- A page, by its number, with the bytes of its data area. -/
structure Page where
  number : Nat
  data : Bytes

/-- `struct msg_msg`, its segments as the list along the links. -/
structure Msg where
  mtype : Int
  size : Nat
  page : Page
  segs : List Page

structure MsgBuf where
  mtype : Int
  data : Bytes

/-- The pages of a message in the order `free_msg` frees them. -/
def Msg.pages (msg : Msg) : List Page := msg.segs ++ [msg.page]

/-- `free_msg` onto the list of free pages. -/
def freeMsg (msg : Msg) (pool : List Page) : List Page := msg.pages.reverse ++ pool

/-- The loop of `load_msg`: the segments it links, whether it got all its pages, and the
pages that remain free. -/
def loadLoop (src : Bytes) : List Page → Nat → Nat → List Page × Bool × List Page
  | pool, _, 0 => ([], true, pool)
  | [], _, _ + 1 => ([], false, [])
  | page :: pool, offset, len + 1 =>
      let count := min msgMsgSegSz (len + 1)
      let rest := len + 1 - count
      let (segs, complete, free) := loadLoop src pool (offset + min msgMsgSegSz rest) rest
      ({ page with data := memcpy page.data 0 src offset count } :: segs, complete, free)

/-- `load_msg` with the type and size its caller fills in. A load that runs out of pages
frees those it has linked. -/
def loadMsg (pool : List Page) (mtype : Int) (src : Bytes) (len : Nat) :
    Option Msg × List Page :=
  match pool with
  | [] => (none, [])
  | page :: pool =>
      let count := min msgMsgSz len
      let rest := len - count
      let loaded := loadLoop src pool (min msgMsgSz rest) rest
      let msg : Msg :=
        { mtype := mtype
          size := len
          page := { page with data := memcpy page.data 0 src 0 count }
          segs := loaded.1 }
      if loaded.2.1 then (some msg, loaded.2.2) else (none, freeMsg msg loaded.2.2)

/-- The loop of `store_msg`. There is no result when it follows the link behind the last
segment. -/
def storeLoop : List Page → Nat → Nat → Bytes → Option Bytes
  | _, _, 0, data => some data
  | [], _, _ + 1, _ => none
  | seg :: segs, offset, msgsz + 1, data =>
      let count := min (msgsz + 1) msgMsgSegSz
      let rest := msgsz + 1 - count
      storeLoop segs (offset + min rest msgMsgSegSz) rest (memcpy data offset seg.data 0 count)

def storeMsg (msgp : MsgBuf) (msg : Msg) (msgsz : Nat) : Option MsgBuf :=
  let count := min msgsz msgMsgSz
  let rest := msgsz - min msgMsgSz msgsz
  let data := memcpy msgp.data 0 msg.page.data 0 count
  match storeLoop msg.segs (min msgMsgSz rest) rest data with
  | none => none
  | some data => some { mtype := msg.mtype, data := data }

/-- The end of `sys_msgrcv`, for a message found on the queue or handed over: the result, the
buffer and the free pages. -/
def deliver (msgp : MsgBuf) (found : Msg) (msgsz : Nat) (pool : List Page) :
    Option (Nat × MsgBuf × List Page) :=
  let msgsz := min msgsz found.size
  match storeMsg msgp found msgsz with
  | none => none
  | some stored => some (msgsz, stored, freeMsg found pool)

/-! ### Copies -/

theorem memcpy_inside {dst src : Bytes} {dstOff srcOff count index : Nat}
    (lower : dstOff ≤ index) (upper : index < dstOff + count) :
    memcpy dst dstOff src srcOff count index = src (srcOff + (index - dstOff)) := by
  unfold memcpy
  rw [if_pos ⟨lower, upper⟩]

theorem memcpy_outside {dst src : Bytes} {dstOff srcOff count index : Nat}
    (outside : index < dstOff ∨ dstOff + count ≤ index) :
    memcpy dst dstOff src srcOff count index = dst index := by
  unfold memcpy
  rw [if_neg (by omega)]

theorem memcpy_memcpy (data page src : Bytes) (offset count : Nat) :
    memcpy data offset (memcpy page 0 src offset count) 0 count =
      fun index => if offset ≤ index ∧ index < offset + count then src index else data index := by
  funext index
  by_cases inside : offset ≤ index ∧ index < offset + count
  · rw [memcpy_inside inside.1 inside.2, memcpy_inside (Nat.zero_le _) (by omega), if_pos inside]
    congr 1
    omega
  · rw [memcpy_outside (by omega), if_neg inside]

/-! ### How far the loops reach -/

/-- How many bytes from its offset on the loops transfer, for a remaining length. -/
def loopReach (len : Nat) : Nat :=
  if len ≤ msgMsgSegSz then len
  else max msgMsgSegSz (min msgMsgSegSz (len - msgMsgSegSz) + loopReach (len - msgMsgSegSz))
termination_by len
decreasing_by
  unfold msgMsgSegSz pageSize at *
  omega

/-- How many bytes of a payload arrive. -/
def reach (len : Nat) : Nat :=
  if len ≤ msgMsgSz then len
  else max msgMsgSz (min msgMsgSz (len - msgMsgSz) + loopReach (len - msgMsgSz))

/-- The segments a length needs behind the first page. -/
def segsFor (len : Nat) : Nat := (len + (msgMsgSegSz - 1)) / msgMsgSegSz

def pagesFor (len : Nat) : Nat := 1 + segsFor (len - msgMsgSz)

theorem loopReach_small {len : Nat} (small : len ≤ msgMsgSegSz) : loopReach len = len := by
  rw [loopReach, if_pos small]

theorem loopReach_large {len : Nat} (large : msgMsgSegSz < len) :
    loopReach len =
      max msgMsgSegSz (min msgMsgSegSz (len - msgMsgSegSz) + loopReach (len - msgMsgSegSz)) := by
  rw [loopReach, if_neg (by omega)]

theorem loopReach_le (len : Nat) : loopReach len ≤ len := by
  induction len using Nat.strongRecOn with
  | ind len ih =>
      by_cases small : len ≤ msgMsgSegSz
      · rw [loopReach_small small]
      · have positive : 0 < msgMsgSegSz := by decide
        have shorter := ih (len - msgMsgSegSz) (by omega)
        rw [loopReach_large (by omega)]
        omega

theorem loopReach_eq_iff (len : Nat) :
    loopReach len = len ↔ len ≤ msgMsgSegSz ∨ msgMsgSegSz ∣ len := by
  induction len using Nat.strongRecOn with
  | ind len ih =>
      by_cases small : len ≤ msgMsgSegSz
      · exact iff_of_true (loopReach_small small) (Or.inl small)
      · have positive : 0 < msgMsgSegSz := by decide
        have shorter := loopReach_le (len - msgMsgSegSz)
        have recurses := ih (len - msgMsgSegSz) (by omega)
        have multiple : msgMsgSegSz ∣ len ↔ msgMsgSegSz ∣ len - msgMsgSegSz := by
          rw [Nat.dvd_sub_self_right]
          exact (or_iff_left small).symm
        rw [loopReach_large (by omega), multiple]
        constructor
        · intro whole
          have exactly : loopReach (len - msgMsgSegSz) = len - msgMsgSegSz := by omega
          rcases recurses.mp exactly with last | divides
          · have same : len - msgMsgSegSz = msgMsgSegSz := by omega
            rw [same]
            exact Or.inr (Nat.dvd_refl _)
          · exact Or.inr divides
        · intro divides
          have divides := divides.resolve_left small
          have exactly := recurses.mpr (Or.inr divides)
          have large := Nat.le_of_dvd (by omega) divides
          omega

theorem reach_le (len : Nat) : reach len ≤ len := by
  have shorter := loopReach_le (len - msgMsgSz)
  unfold reach
  split
  · exact Nat.le_refl len
  · omega

/-- Lengths for which the loops reach the end. -/
def Whole (len : Nat) : Prop :=
  len ≤ msgMsgSz ∨ (2 * msgMsgSz ≤ len ∧ len ≤ msgMsgSz + msgMsgSegSz) ∨
    (msgMsgSz < len ∧ msgMsgSegSz ∣ len - msgMsgSz)

instance (len : Nat) : Decidable (Whole len) :=
  inferInstanceAs (Decidable (_ ∨ (_ ∧ _) ∨ (_ ∧ _)))

theorem reach_eq_iff (len : Nat) : reach len = len ↔ Whole len := by
  by_cases small : len ≤ msgMsgSz
  · unfold reach
    rw [if_pos small]
    exact iff_of_true rfl (Or.inl small)
  · have shorter := loopReach_le (len - msgMsgSz)
    have exactly := loopReach_eq_iff (len - msgMsgSz)
    have headerLarger : msgMsgSz ≤ msgMsgSegSz := by decide
    unfold reach Whole
    rw [if_neg small]
    constructor
    · intro whole
      have rest : loopReach (len - msgMsgSz) = len - msgMsgSz := by omega
      rcases exactly.mp rest with last | divides
      · exact Or.inr (Or.inl ⟨by omega, by omega⟩)
      · exact Or.inr (Or.inr ⟨by omega, divides⟩)
    · intro whole
      rcases whole with one | ⟨lower, upper⟩ | ⟨large, divides⟩
      · exact absurd one small
      · have rest := exactly.mpr (Or.inl (by omega))
        omega
      · have rest := exactly.mpr (Or.inr divides)
        have full := Nat.le_of_dvd (by omega) divides
        omega

/-! ### Loading and storing -/

theorem segsFor_succ (len : Nat) :
    segsFor (len + 1) = segsFor (len + 1 - min msgMsgSegSz (len + 1)) + 1 := by
  unfold segsFor msgMsgSegSz pageSize
  omega

theorem loadLoop_complete (src : Bytes) :
    ∀ (pool : List Page) (offset len : Nat), segsFor len ≤ pool.length →
      (loadLoop src pool offset len).2.1 = true := by
  intro pool
  induction pool with
  | nil =>
      intro offset len enough
      cases len with
      | zero => rfl
      | succ len =>
          rw [segsFor_succ] at enough
          exact absurd enough (Nat.not_succ_le_zero _)
  | cons page pool ih =>
      intro offset len enough
      cases len with
      | zero => rfl
      | succ len =>
          rw [segsFor_succ, List.length_cons] at enough
          exact ih _ _ (Nat.le_of_succ_le_succ enough)

theorem loadLoop_pages (src : Bytes) :
    ∀ (pool : List Page) (offset len : Nat),
      (loadLoop src pool offset len).1.map Page.number ++
        (loadLoop src pool offset len).2.2.map Page.number = pool.map Page.number := by
  intro pool
  induction pool with
  | nil =>
      intro offset len
      cases len with
      | zero => rfl
      | succ len => rfl
  | cons page pool ih =>
      intro offset len
      cases len with
      | zero => rfl
      | succ len =>
          simp only [loadLoop, List.map_cons, List.cons_append]
          rw [ih]

theorem loadMsg_pages (pool : List Page) (mtype : Int) (src : Bytes) (len : Nat) :
    ((((loadMsg pool mtype src len).1.map Msg.pages).getD []).map Page.number ++
      (loadMsg pool mtype src len).2.map Page.number).Perm (pool.map Page.number) := by
  cases pool with
  | nil => exact List.Perm.refl _
  | cons page pool =>
      have split := loadLoop_pages src pool (min msgMsgSz (len - min msgMsgSz len))
        (len - min msgMsgSz len)
      rw [List.map_cons, ← split]
      simp only [loadMsg]
      split
      · simp only [Option.map_some, Option.getD_some, Msg.pages, List.map_append, List.map_cons,
          List.map_nil, List.append_assoc, List.singleton_append]
        exact List.perm_middle
      · simp only [Option.map_none, Option.getD_none, freeMsg, Msg.pages, List.map_nil,
          List.nil_append, List.reverse_append, List.reverse_singleton, List.cons_append,
           List.map_cons, List.map_append, List.map_reverse]
        exact ((List.reverse_perm _).append_right _).cons _

theorem storeLoop_loadLoop (src : Bytes) :
    ∀ (pool : List Page) (offset len : Nat) (data : Bytes),
      (loadLoop src pool offset len).2.1 = true →
      storeLoop (loadLoop src pool offset len).1 offset len data =
        some (fun index =>
          if offset ≤ index ∧ index < offset + loopReach len then src index else data index) := by
  intro pool
  induction pool with
  | nil =>
      intro offset len data complete
      cases len with
      | zero =>
          rw [loopReach_small (Nat.zero_le _)]
          simp only [loadLoop, storeLoop, Option.some.injEq]
          funext index
          rw [if_neg (by omega)]
      | succ len => cases complete
  | cons page pool ih =>
      intro offset len data complete
      cases len with
      | zero =>
          rw [loopReach_small (Nat.zero_le _)]
          simp only [loadLoop, storeLoop, Option.some.injEq]
          funext index
          rw [if_neg (by omega)]
      | succ len =>
          simp only [loadLoop, storeLoop] at complete ⊢
          rw [Nat.min_comm (len + 1) msgMsgSegSz, Nat.min_comm _ msgMsgSegSz,
            memcpy_memcpy, ih _ _ _ complete, Option.some.injEq]
          funext index
          have positive : 0 < msgMsgSegSz := by decide
          by_cases last : len + 1 ≤ msgMsgSegSz
          · rw [loopReach_small last, Nat.min_eq_right last, Nat.sub_self,
              loopReach_small (Nat.zero_le _), if_neg (by omega)]
          · have full : min msgMsgSegSz (len + 1) = msgMsgSegSz := Nat.min_eq_left (by omega)
            rw [loopReach_large (Nat.lt_of_not_le last), full]
            split_ifs <;> first | rfl | omega

def arrived (payload : Bytes) (len : Nat) (buffer : Bytes) : Bytes := fun index =>
  if index < reach len then payload index else buffer index

/-- Enough pages make a message of any payload, and any buffer at least as large receives what
the loops reach. -/
theorem deliver_loadMsg (pool free : List Page) (mtype : Int) (payload : Bytes) (len : Nat)
    (msgp : MsgBuf) (msgsz : Nat) (enough : pagesFor len ≤ pool.length) (fits : len ≤ msgsz) :
    ∃ msg rest, loadMsg pool mtype payload len = (some msg, rest) ∧
      deliver msgp msg msgsz free = some (len,
        { mtype := mtype, data := arrived payload len msgp.data }, freeMsg msg free) := by
  cases pool with
  | nil =>
      unfold pagesFor at enough
      rw [List.length_nil] at enough
      omega
  | cons page pool =>
      have segments : segsFor (len - min msgMsgSz len) ≤ pool.length := by
        have same : len - min msgMsgSz len = len - msgMsgSz := by omega
        unfold pagesFor at enough
        rw [List.length_cons] at enough
        rw [same]
        omega
      have complete := loadLoop_complete payload pool (min msgMsgSz (len - min msgMsgSz len))
        (len - min msgMsgSz len) segments
      have taken : min msgsz len = len := Nat.min_eq_right fits
      simp only [loadMsg, complete, if_true, Prod.mk.injEq, Option.some.injEq, deliver, storeMsg]
      refine ⟨_, _, ⟨rfl, rfl⟩, ?_⟩
      simp only [taken]
      rw [Nat.min_comm len msgMsgSz, memcpy_memcpy, storeLoop_loadLoop payload _ _ _ _ complete]
      simp only [Option.some.injEq, Prod.mk.injEq, MsgBuf.mk.injEq, true_and, and_true]
      funext index
      unfold arrived reach
      by_cases small : len ≤ msgMsgSz
      · rw [Nat.min_eq_right small, Nat.sub_self, loopReach_small (Nat.zero_le _), if_pos small]
        split_ifs <;> first | rfl | omega
      · have full : min msgMsgSz len = msgMsgSz := Nat.min_eq_left (by omega)
        rw [full, if_neg small]
        split_ifs <;> first | rfl | omega

/-- The receive returned the length, its buffer holds the payload, and nothing behind the
length was touched. -/
def Intact (payload : Bytes) (len : Nat) (msgp : MsgBuf)
    (received : Option (Nat × MsgBuf × List Page)) : Prop :=
  ∃ stored free, received = some (len, stored, free) ∧
    (∀ index, index < len → stored.data index = payload index) ∧
    ∀ index, len ≤ index → stored.data index = msgp.data index

/-- The payload is made into a message, and receiving that message leaves it intact. -/
def SentIntact (pool free : List Page) (mtype : Int) (payload : Bytes) (len : Nat) (msgp : MsgBuf)
    (msgsz : Nat) : Prop :=
  ∃ msg rest, loadMsg pool mtype payload len = (some msg, rest) ∧
    Intact payload len msgp (deliver msgp msg msgsz free)

/-- What arrives is right where the loops reach; behind that the buffer has to hold the
payload already. -/
theorem sentIntact_iff_tail {pool free : List Page} {mtype : Int} {payload : Bytes} {len : Nat}
    {msgp : MsgBuf} {msgsz : Nat} (enough : pagesFor len ≤ pool.length) (fits : len ≤ msgsz) :
    SentIntact pool free mtype payload len msgp msgsz ↔
      ∀ index, reach len ≤ index → index < len → msgp.data index = payload index := by
  obtain ⟨msg, rest, loaded, delivered⟩ :=
    deliver_loadMsg pool free mtype payload len msgp msgsz enough fits
  constructor
  · intro intact
    obtain ⟨again, others, loadedAgain, stored, freed, received, same, _⟩ := intact
    rw [loaded] at loadedAgain
    cases loadedAgain
    rw [delivered] at received
    cases received
    intro index missed within
    rw [← same index within]
    simp only [arrived]
    rw [if_neg (Nat.not_lt.mpr missed)]
  · intro tail
    refine ⟨msg, rest, loaded, _, _, delivered, ?_, ?_⟩
    · intro index within
      simp only [arrived]
      split
      · rfl
      · rename_i missed
        exact tail index (Nat.le_of_not_lt missed) within
    · intro index outside
      have bound := reach_le len
      simp only [arrived]
      rw [if_neg (by omega)]

/-- A payload arrives intact, whatever it is and wherever it goes, exactly for the lengths whose
segments the loops reach to the end; for the other lengths it does so exactly when the
buffer already held the bytes that are missed. -/
theorem payload_intact_iff (pool free : List Page) (mtype : Int) (len msgsz : Nat)
    (enough : pagesFor len ≤ pool.length) (fits : len ≤ msgsz) :
    ((∀ payload msgp, SentIntact pool free mtype payload len msgp msgsz) ↔ Whole len) ∧
      ∀ payload msgp, SentIntact pool free mtype payload len msgp msgsz ↔
        Whole len ∨ ∀ index, reach len ≤ index → index < len →
          msgp.data index = payload index := by
  constructor
  · constructor
    · intro always
      rw [← reach_eq_iff]
      by_contra short
      have bound := reach_le len
      have tail := (sentIntact_iff_tail enough fits).mp
        (always (fun _ => 1) { mtype := 0, data := fun _ => 0 })
      have missed := tail (reach len) (Nat.le_refl _) (by omega)
      cases missed
    · intro whole payload msgp
      rw [sentIntact_iff_tail enough fits]
      intro index missed within
      rw [reach_eq_iff len |>.mpr whole] at missed
      omega
  · intro payload msgp
    rw [sentIntact_iff_tail enough fits]
    constructor
    · intro tail
      exact Or.inr tail
    · intro condition
      rcases condition with whole | tail
      · intro index missed within
        rw [reach_eq_iff len |>.mpr whole] at missed
        omega
      · exact tail

theorem payload_intact_three_pages : pagesFor 12240 ≤ 3 ∧ 12240 ≤ 20000 ∧
    ∀ payload msgp, SentIntact (List.replicate 3 { number := 0, data := fun _ => 0 }) [] 1 payload
      12240 msgp 20000 :=
  ⟨by decide, by decide, (payload_intact_iff _ [] 1 12240 20000 (by decide) (by decide)).1.mpr
    (by decide)⟩

/-- One byte more than the first page holds: that byte is not stored. -/
theorem payload_cut_after_first_page :
    ¬∀ (pool free : List Page) (mtype : Int) (payload : Bytes) (len : Nat) (msgp : MsgBuf)
      (msgsz : Nat), pagesFor len ≤ pool.length → len ≤ msgsz →
        SentIntact pool free mtype payload len msgp msgsz := by
  intro always
  have sent := always (List.replicate 2 { number := 0, data := fun _ => 0 }) [] 1 (fun _ => 1) 4065
    { mtype := 0, data := fun _ => 0 } 4065 (by decide) (by decide)
  have tail := (sentIntact_iff_tail (by decide) (by decide)).mp sent
  have stops : reach 4065 = 4064 := by
    unfold reach
    rw [loopReach_small (by decide)]
    decide
  have missed := tail 4064 (Nat.le_of_eq stops) (by decide)
  cases missed

end LabKernel.Ipc
