/-
Address spaces.

Any number of page directories take their tables from one allocator, and the CPUs run programs in
them. A CPU translates an address of a program with the tables at its `ttbr0_el1`, or with an entry
that it has kept from an earlier walk. What is kept is dropped only when `arch_set_ttbr0` says so.
-/

import LabKernel.Kernel.Sched
import LabKernel.Kernel.TableWalks

set_option autoImplicit false

namespace LabKernel.Kernel.PageTable

open Transition

/-! ### Spaces and CPUs -/

/-- A page directory: `pgdir->pt`, the pages of its tables, and the entries stored through
`get_pte` since it was empty. -/
structure Space where
  pt : UInt64
  taken : List UInt64
  requests : List Request

/-- Whose tables a CPU was given last, if they are still there. -/
inductive Attached where
  | nobody
  | space (index : Nat)
  | stale
  deriving DecidableEq

/-- The memory by the word, the free pages, the pages `kalloc_page` has returned to others,
`alloc_page_cnt.count`, and for each CPU `ttbr0_el1` and the entries it has kept, by the page. -/
structure AddressSpaces where
  mem : UInt64 → UInt64
  free : List UInt64
  held : List UInt64
  count : Int
  space : Nat → Space
  ttbr0 : Fin ncpu → UInt64
  tlb : Fin ncpu → Nat → Option Leaf
  attached : Fin ncpu → Attached

inductive SpaceAction where
  | touch (index : Nat) (va value : UInt64)
  | lookup (index : Nat) (va : UInt64)
  | freePgdir (index : Nat) (junk : UInt64 → UInt64)
  | kallocPage
  | kfreePage (page : UInt64) (junk : UInt64 → UInt64)
  | store (mem : UInt64 → UInt64)
  | attachPgdir (cpu : Fin ncpu) (index : Nat)
  | trapReturn (cpu : Fin ncpu) (index : Nat)
  | fill (cpu : Fin ncpu) (va : UInt64)
  | evict (cpu : Fin ncpu) (page : Nat)

/-- `set_cpu_on` has been called on every CPU. -/
def AddressSpaces.initial (invalidPt : UInt64) (mem : UInt64 → UInt64) (free : List UInt64) :
    AddressSpaces :=
  { mem := mem
    free := free
    held := []
    count := 0
    space := fun _ => { pt := 0, taken := [], requests := [] }
    ttbr0 := fun _ => k2p invalidPt
    tlb := fun _ _ => none
    attached := fun _ => .nobody }

namespace AddressSpaces

variable (spaces : AddressSpaces)

/-- The state in which a call for one page directory runs. -/
def view (index : Nat) : Paging :=
  { mem := spaces.mem
    pt := (spaces.space index).pt
    pages := spaces.free
    taken := (spaces.space index).taken
    freed := []
    count := spaces.count }

def put (index : Nat) (after : Paging) (requests : List Request) : AddressSpaces :=
  { spaces with
    mem := after.mem
    free := after.pages
    count := after.count
    space := Function.update spaces.space index
      { pt := after.pt, taken := after.taken, requests := requests } }

/-- `free_pgdir`: `kfree_page` puts each page in front of the free ones. -/
def freePgdir (index : Nat) (junk : UInt64 → UInt64) : AddressSpaces :=
  let after := (spaces.view index).freePgdir junk
  { spaces with
    mem := after.mem
    free := after.freed.reverse ++ spaces.free
    count := after.count
    space := Function.update spaces.space index { pt := after.pt, taken := [], requests := [] }
    attached := fun cpu =>
      if spaces.attached cpu = .space index then .stale else spaces.attached cpu }

def kallocPage : AddressSpaces :=
  match spaces.free with
  | [] => { spaces with count := spaces.count + 1 }
  | page :: rest =>
      { spaces with
        free := rest
        held := page :: spaces.held
        count := spaces.count + 1 }

def kfreePage (page : UInt64) (junk : UInt64 → UInt64) : AddressSpaces :=
  { spaces with
    mem := fun addr => if inPage page addr then junk addr else spaces.mem addr
    free := page :: spaces.free
    held := spaces.held.erase page
    count := spaces.count - 1 }

/-- `attach_pgdir`. `arch_set_ttbr0` makes all CPUs drop what they have kept. -/
def attachPgdir (invalidPt : UInt64) (cpu : Fin ncpu) (index : Nat) : AddressSpaces :=
  let pt := (spaces.space index).pt
  { spaces with
    ttbr0 := Function.update spaces.ttbr0 cpu (if pt ≠ 0 then k2p pt else k2p invalidPt)
    tlb := fun _ _ => none
    attached := Function.update spaces.attached cpu
      (if pt ≠ 0 then .space index else .nobody) }

/-- `trap_return` loads the `ttbr0` of a program's context, which is its page directory. What the
CPU has kept stays. -/
def trapReturn (cpu : Fin ncpu) (index : Nat) : AddressSpaces :=
  { spaces with
    ttbr0 := Function.update spaces.ttbr0 cpu (k2p (spaces.space index).pt)
    attached := Function.update spaces.attached cpu (.space index) }

/-- What the tables have for an address of a program. -/
def walked (cpu : Fin ncpu) (va : UInt64) : Option Leaf :=
  if va >>> 48 = 0 then tableWalk (physical spaces.mem) va 4 (spaces.ttbr0 cpu) else none

def keep (cpu : Fin ncpu) (page : Nat) (leaf : Option Leaf) : AddressSpaces :=
  { spaces with
    tlb := Function.update spaces.tlb cpu (Function.update (spaces.tlb cpu) page leaf) }

/-- A CPU translates with what it has kept, else with the tables. -/
def found (cpu : Fin ncpu) (va : UInt64) : Option Leaf :=
  if va >>> 48 = 0 then (spaces.tlb cpu (pageNumber va)).or (spaces.walked cpu va) else none

/-- The physical address that an access of a program comes to, if it does not fault. -/
def userAccess (cpu : Fin ncpu) (write : Bool) (va : UInt64) : Option UInt64 :=
  (spaces.found cpu va).bind (fun leaf => leaf.reach { user := true, write := write } va)

end AddressSpaces

def spaceStep (invalidPt : UInt64) (spaces : AddressSpaces) :
    SpaceAction → Except Stop AddressSpaces
  | .touch index va value =>
      match (spaces.view index).getPte va true with
      | .error reason => .error reason
      | .ok (none, _) => .error .nullSlot
      | .ok (some slot, after) =>
          .ok (spaces.put index (after.write slot value)
            ((spaces.space index).requests ++ [{ va := va, slot := slot, value := value }]))
  | .lookup index va =>
      match (spaces.view index).getPte va false with
      | .error reason => .error reason
      | .ok (_, after) => .ok (spaces.put index after (spaces.space index).requests)
  | .freePgdir index junk => .ok (spaces.freePgdir index junk)
  | .kallocPage => .ok spaces.kallocPage
  | .kfreePage page junk => .ok (spaces.kfreePage page junk)
  | .store mem => .ok { spaces with mem := mem }
  | .attachPgdir cpu index => .ok (spaces.attachPgdir invalidPt cpu index)
  | .trapReturn cpu index => .ok (spaces.trapReturn cpu index)
  | .fill cpu va => .ok (spaces.keep cpu (pageNumber va) (spaces.walked cpu va))
  | .evict cpu page => .ok (spaces.keep cpu page none)

def Space.entry (space : Space) (page : Nat) : UInt64 := lastStored space.requests page

/-- Others write neither into tables nor into `invalid_pt`, and free only pages they have. While
tables are attached to a CPU, an entry that maps a page is not replaced. As `trap_return` lets a
CPU keep its entries, it loads a program's tables only where those of the CPU have not been freed
and map no page that the program's do not map alike. -/
def AddressSpaces.Allowed (invalidPt : UInt64) (spaces : AddressSpaces) : SpaceAction → Prop
  | .touch index va value => ∀ cpu, spaces.attached cpu = .space index →
      (leafOf ((spaces.space index).entry (pageNumber va))).isSome →
        value = (spaces.space index).entry (pageNumber va)
  | .kfreePage page _ => page ∈ spaces.held
  | .store mem =>
      (∀ index, ∀ page ∈ (spaces.space index).taken, ∀ id,
        mem (entryAddr page id) = spaces.mem (entryAddr page id)) ∧
      ∀ id, mem (entryAddr invalidPt id) = 0
  | .trapReturn cpu index =>
      (spaces.space index).pt ≠ 0 ∧ spaces.attached cpu ≠ .stale ∧
        ∀ other, spaces.attached cpu = .space other → ∀ page,
          (leafOf ((spaces.space other).entry page)).isSome →
            (spaces.space index).entry page = (spaces.space other).entry page
  | _ => True

/-! ### What holds in every run -/

/-- What is attached to a CPU is what it translates with. -/
structure AddressSpaces.Serves (invalidPt : UInt64) (spaces : AddressSpaces) (cpu : Fin ncpu) :
    Prop where
  nobody : spaces.attached cpu = .nobody →
    spaces.ttbr0 cpu = k2p invalidPt ∧ ∀ page, spaces.tlb cpu page = none
  space : ∀ index, spaces.attached cpu = .space index →
    (spaces.space index).pt ≠ 0 ∧ spaces.ttbr0 cpu = k2p (spaces.space index).pt ∧
      ∀ page leaf, spaces.tlb cpu page = some leaf →
        leafOf ((spaces.space index).entry page) = some leaf

/-- Every page is free, somebody else's, or of the tables of one page directory, and each page
directory is a map to what was stored last. -/
structure AddressSpaces.Sound (invalidPt : UInt64) (spaces : AddressSpaces) : Prop where
  recorded : ∀ index, PageRun.Recorded
    { paging := spaces.view index, requests := (spaces.space index).requests }
  linked : ∀ index, (spaces.view index).Linked
  kernel : ∀ page ∈ spaces.free ++ spaces.held, KernelPage page
  once : (spaces.free ++ spaces.held).Nodup
  unused : ∀ index, ∀ page ∈ (spaces.space index).taken, page ∉ spaces.free ++ spaces.held
  apart : ∀ index other, index ≠ other → ∀ page ∈ (spaces.space index).taken,
    page ∉ (spaces.space other).taken
  outside : invalidPt ∉ spaces.free ++ spaces.held
  beside : ∀ index, invalidPt ∉ (spaces.space index).taken
  clear : ∀ id, spaces.mem (entryAddr invalidPt id) = 0
  serves : ∀ cpu, spaces.Serves invalidPt cpu

namespace AddressSpaces

variable {invalidPt : UInt64} {spaces after : AddressSpaces} {index : Nat} {cpu : Fin ncpu}

/-- A step that changes no table and moves pages only between the free and the held. -/
theorem Sound.of_same (sound : spaces.Sound invalidPt)
    (order : (after.free ++ after.held).Perm (spaces.free ++ spaces.held))
    (space : after.space = spaces.space)
    (same : ∀ index, ∀ page ∈ (spaces.space index).taken, ∀ id,
      after.mem (entryAddr page id) = spaces.mem (entryAddr page id))
    (clear : ∀ id, after.mem (entryAddr invalidPt id) = 0)
    (serves : ∀ cpu, after.Serves invalidPt cpu) : after.Sound invalidPt := by
  constructor
  · intro index
    rw [space]
    apply (sound.recorded index).congr
    · exact congrArg Space.pt (congrFun space index)
    · exact congrArg Space.taken (congrFun space index)
    · exact same index
  · intro index
    apply (sound.linked index).congr (sound.recorded index).mapped
    · exact congrArg Space.pt (congrFun space index)
    · exact same index
  · exact fun page member => sound.kernel page (order.mem_iff.mp member)
  · exact order.nodup_iff.mpr sound.once
  · rw [space]
    exact fun index page member left => sound.unused index page member (order.mem_iff.mp left)
  · rw [space]
    exact sound.apart
  · exact fun left => sound.outside (order.mem_iff.mp left)
  · rw [space]
    exact sound.beside
  · exact clear
  · exact serves

theorem Serves.of_same (serves : spaces.Serves invalidPt cpu)
    (attached : after.attached cpu = spaces.attached cpu) (ttbr0 : after.ttbr0 cpu = spaces.ttbr0 cpu)
    (tlb : ∀ page leaf, after.tlb cpu page = some leaf → spaces.tlb cpu page = some leaf)
    (space : ∀ index, spaces.attached cpu = .space index →
      (spaces.space index).pt ≠ 0 → (after.space index).pt = (spaces.space index).pt ∧
        ∀ page, (leafOf ((spaces.space index).entry page)).isSome →
          (after.space index).entry page = (spaces.space index).entry page) :
    after.Serves invalidPt cpu := by
  constructor
  · intro nobody
    rw [attached] at nobody
    obtain ⟨root, empty⟩ := serves.nobody nobody
    refine ⟨ttbr0.trans root, ?_⟩
    intro page
    cases kept : after.tlb cpu page with
    | none => rfl
    | some leaf =>
        have before := tlb page leaf kept
        rw [empty page] at before
        cases before
  · intro index mine
    rw [attached] at mine
    obtain ⟨made, root, kept⟩ := serves.space index mine
    obtain ⟨pt, entries⟩ := space index mine made
    rw [pt]
    refine ⟨made, ttbr0.trans root, ?_⟩
    intro page leaf found
    have before := kept page leaf (tlb page leaf found)
    rw [entries page (by rw [before]; rfl)]
    exact before

/-- A call for one page directory moves pages between its tables and the free ones, and leaves the
others alone. -/
theorem Sound.replace (sound : spaces.Sound invalidPt) (invalid : KernelPage invalidPt)
    {paging : Paging} {requests : List Request}
    (recorded : PageRun.Recorded { paging := paging, requests := requests })
    (linked : paging.Linked) (mem : after.mem = paging.mem) (held : after.held = spaces.held)
    (space : after.space = Function.update spaces.space index
      { pt := paging.pt, taken := paging.taken, requests := requests })
    (owned : (paging.taken ++ after.free).Perm ((spaces.space index).taken ++ spaces.free))
    (frame : ∀ page, KernelPage page → page ∉ (spaces.space index).taken → page ∉ paging.taken →
      ∀ id, paging.mem (entryAddr page id) = spaces.mem (entryAddr page id))
    (serves : ∀ cpu, after.Serves invalidPt cpu) : after.Sound invalidPt := by
  have self : after.space index =
      { pt := paging.pt, taken := paging.taken, requests := requests } := by
    rw [space]
    exact Function.update_self _ _ _
  have others : ∀ other, other ≠ index → after.space other = spaces.space other := by
    intro other apart
    rw [space]
    exact Function.update_of_ne apart _ _
  have order : (paging.taken ++ (after.free ++ after.held)).Perm
      ((spaces.space index).taken ++ (spaces.free ++ spaces.held)) := by
    rw [held, ← List.append_assoc, ← List.append_assoc]
    exact owned.append_right spaces.held
  have distinct : (paging.taken ++ (after.free ++ after.held)).Nodup := by
    rw [order.nodup_iff, List.nodup_append]
    refine ⟨(sound.recorded index).mapped.once, sound.once, ?_⟩
    intro page mine other free same
    exact sound.unused index page mine (same ▸ free)
  rw [List.nodup_append] at distinct
  have before : ∀ page, page ∈ paging.taken ∨ page ∈ after.free ++ after.held →
      page ∈ (spaces.space index).taken ∨ page ∈ spaces.free ++ spaces.held := by
    intro page member
    rw [← List.mem_append, ← order.mem_iff, List.mem_append]
    exact member
  have foreign : ∀ other, other ≠ index → ∀ page ∈ (spaces.space other).taken,
      ¬ (page ∈ paging.taken ∨ page ∈ after.free ++ after.held) := by
    intro other apart page member mine
    rcases before page mine with old | free
    · exact sound.apart other index apart page member old
    · exact sound.unused other page member free
  have same : ∀ other, other ≠ index → ∀ page ∈ (spaces.space other).taken, ∀ id,
      after.mem (entryAddr page id) = spaces.mem (entryAddr page id) := by
    intro other apart page member id
    rw [mem]
    exact frame page ((sound.recorded other).mapped.kernel page member)
      (sound.apart other index apart page member)
      (fun mine => foreign other apart page member (Or.inl mine)) id
  constructor
  · intro other
    by_cases mine : other = index
    · rw [mine, self]
      apply recorded.congr
      · exact congrArg Space.pt self
      · exact congrArg Space.taken self
      · intro page _ id
        exact congrFun mem _
    · rw [others other mine]
      apply (sound.recorded other).congr
      · exact congrArg Space.pt (others other mine)
      · exact congrArg Space.taken (others other mine)
      · exact same other mine
  · intro other
    by_cases mine : other = index
    · rw [mine]
      apply linked.congr recorded.mapped
      · exact congrArg Space.pt self
      · intro page _ id
        exact congrFun mem _
    · apply (sound.linked other).congr (sound.recorded other).mapped
      · exact congrArg Space.pt (others other mine)
      · exact same other mine
  · intro page member
    rcases before page (Or.inr member) with old | free
    · exact (sound.recorded index).mapped.kernel page old
    · exact sound.kernel page free
  · exact distinct.2.1
  · intro other page member
    by_cases mine : other = index
    · rw [mine, self] at member
      exact fun left => distinct.2.2 page member page left rfl
    · rw [others other mine] at member
      exact fun left => foreign other mine page member (Or.inr left)
  · intro one other apart page member
    by_cases mine : one = index
    · rw [others other (fun same => apart (mine.trans same.symm))]
      rw [mine, self] at member
      exact fun theirs => foreign other (fun same => apart (mine.trans same.symm)) page theirs
        (Or.inl member)
    · rw [others one mine] at member
      by_cases theirs : other = index
      · rw [theirs, self]
        exact fun listed => foreign one mine page member (Or.inl listed)
      · rw [others other theirs]
        exact sound.apart one other apart page member
  · intro left
    rcases before invalidPt (Or.inr left) with old | free
    · exact sound.beside index old
    · exact sound.outside free
  · intro other
    by_cases mine : other = index
    · rw [mine, self]
      intro listed
      rcases before invalidPt (Or.inl listed) with old | free
      · exact sound.beside index old
      · exact sound.outside free
    · rw [others other mine]
      exact sound.beside other
  · intro id
    rw [mem, frame invalidPt invalid (sound.beside index)]
    · exact sound.clear id
    · intro listed
      rcases before invalidPt (Or.inl listed) with old | free
      · exact sound.beside index old
      · exact sound.outside free
  · exact serves

theorem put_self (spaces : AddressSpaces) (index : Nat) (after : Paging) (requests : List Request) :
    (spaces.put index after requests).space index =
      { pt := after.pt, taken := after.taken, requests := requests } := Function.update_self _ _ _

theorem put_other (spaces : AddressSpaces) {index other : Nat} (apart : other ≠ index)
    (after : Paging) (requests : List Request) :
    (spaces.put index after requests).space other = spaces.space other :=
  Function.update_of_ne apart _ _

theorem Sound.put (sound : spaces.Sound invalidPt) (invalid : KernelPage invalidPt)
    {paging : Paging} {requests : List Request}
    (recorded : PageRun.Recorded { paging := paging, requests := requests })
    (linked : paging.Linked) (laid : Paging.Laid (spaces.view index) paging)
    (kept : (spaces.space index).pt ≠ 0 → paging.pt = (spaces.space index).pt)
    (entries : ∀ cpu, spaces.attached cpu = .space index → ∀ page,
      (leafOf ((spaces.space index).entry page)).isSome →
        lastStored requests page = (spaces.space index).entry page) :
    (spaces.put index paging requests).Sound invalidPt := by
  obtain ⟨more, pages, taken⟩ := laid.pages
  change spaces.free = more ++ paging.pages at pages
  change paging.taken = (spaces.space index).taken ++ more at taken
  apply sound.replace invalid recorded linked
  · rfl
  · rfl
  · rfl
  · change (paging.taken ++ paging.pages).Perm _
    rw [taken, pages, List.append_assoc]
  · intro page kernel _ absent id
    exact laid.frame page kernel absent id
  · intro cpu
    apply (sound.serves cpu).of_same
    · rfl
    · rfl
    · exact fun _ _ => id
    · intro other attached made
      by_cases mine : other = index
      · rw [mine] at attached made ⊢
        rw [put_self]
        exact ⟨kept made, entries cpu attached⟩
      · rw [put_other spaces mine]
        exact ⟨rfl, fun _ _ => rfl⟩

theorem Sound.freePgdir (sound : spaces.Sound invalidPt) (invalid : KernelPage invalidPt)
    (index : Nat) (junk : UInt64 → UInt64) : (spaces.freePgdir index junk).Sound invalidPt := by
  obtain ⟨freed, unmade, frame⟩ := (sound.recorded index).mapped.freePgdir rfl junk
  have empty : PageRun.Recorded
      { paging := { Paging.initial ((spaces.view index).freePgdir junk).mem 0 with
          pt := ((spaces.view index).freePgdir junk).pt }, requests := [] } :=
    (PageRun.Recorded.initial ((spaces.view index).freePgdir junk).mem 0).congr unmade rfl
      (fun _ _ _ => rfl)
  apply sound.replace invalid empty
  · intro path table id _ reached
    rw [Paging.tableAt, if_pos unmade] at reached
    cases reached
  · rfl
  · rfl
  · rfl
  · exact List.Perm.append_right spaces.free ((List.reverse_perm _).trans freed)
  · intro page kernel absent _ id
    exact frame page kernel absent id
  · intro cpu
    have serves := sound.serves cpu
    have attached : (spaces.freePgdir index junk).attached cpu =
        if spaces.attached cpu = .space index then .stale else spaces.attached cpu := rfl
    by_cases mine : spaces.attached cpu = .space index
    · rw [if_pos mine] at attached
      constructor
      · intro nobody
        rw [attached] at nobody
        cases nobody
      · intro other mine
        rw [attached] at mine
        cases mine
    · rw [if_neg mine] at attached
      apply serves.of_same attached
      · rfl
      · exact fun _ _ => id
      · intro other theirs _
        have apart : other ≠ index := by
          intro same
          rw [same] at theirs
          exact mine theirs
        have same : (spaces.freePgdir index junk).space other = spaces.space other :=
          Function.update_of_ne apart _ _
        rw [same]
        exact ⟨rfl, fun _ _ => rfl⟩

theorem Sound.kallocPage (sound : spaces.Sound invalidPt) :
    spaces.kallocPage.Sound invalidPt := by
  unfold AddressSpaces.kallocPage
  split
  · exact sound.of_same (List.Perm.refl _) rfl (fun _ _ _ _ => rfl) sound.clear
      (fun cpu => ⟨(sound.serves cpu).nobody, (sound.serves cpu).space⟩)
  · rename_i page rest pages
    apply sound.of_same
    · change (rest ++ page :: spaces.held).Perm (spaces.free ++ spaces.held)
      rw [pages]
      exact List.perm_middle
    · rfl
    · exact fun _ _ _ _ => rfl
    · exact sound.clear
    · exact fun cpu => ⟨(sound.serves cpu).nobody, (sound.serves cpu).space⟩

theorem Sound.kfreePage (sound : spaces.Sound invalidPt) (invalid : KernelPage invalidPt)
    {page : UInt64} (mine : page ∈ spaces.held) (junk : UInt64 → UInt64) :
    (spaces.kfreePage page junk).Sound invalidPt := by
  have kernel := sound.kernel page (List.mem_append_right _ mine)
  have frame : ∀ other, KernelPage other → other ≠ page → ∀ id,
      (spaces.kfreePage page junk).mem (entryAddr other id) = spaces.mem (entryAddr other id) := by
    intro other known apart id
    unfold AddressSpaces.kfreePage
    simp only [kernel.inPage_entryAddr known, Ne.symm apart, decide_false, Bool.false_eq_true,
      if_false]
  apply sound.of_same
  · exact List.perm_middle.symm.trans
      (List.Perm.append_left spaces.free (List.perm_cons_erase mine).symm)
  · rfl
  · intro index other member
    apply frame other ((sound.recorded index).mapped.kernel other member)
    intro alike
    exact sound.unused index other member (alike ▸ List.mem_append_right _ mine)
  · intro id
    rw [frame invalidPt invalid _ id]
    · exact sound.clear id
    · intro alike
      exact sound.outside (alike ▸ List.mem_append_right _ mine)
  · exact fun cpu => ⟨(sound.serves cpu).nobody, (sound.serves cpu).space⟩

theorem Sound.walked_space (sound : spaces.Sound invalidPt) (mine : spaces.attached cpu = .space index)
    {va : UInt64} (low : va >>> 48 = 0) :
    spaces.walked cpu va = leafOf ((spaces.space index).entry (pageNumber va)) := by
  obtain ⟨made, root, -⟩ := (sound.serves cpu).space index mine
  unfold walked
  rw [if_pos low, root]
  exact (sound.recorded index).walk (sound.linked index) made va

theorem Sound.walked_nobody (sound : spaces.Sound invalidPt)
    (nobody : spaces.attached cpu = .nobody) (va : UInt64) : spaces.walked cpu va = none := by
  obtain ⟨root, -⟩ := (sound.serves cpu).nobody nobody
  unfold walked
  split
  · rw [root]
    apply tableWalk_invalid
    rw [physical_entry, sound.clear]
    rfl
  · rfl

theorem Sound.attachPgdir (sound : spaces.Sound invalidPt) (cpu : Fin ncpu) (index : Nat) :
    (spaces.attachPgdir invalidPt cpu index).Sound invalidPt := by
  refine sound.of_same (List.Perm.refl _) rfl (fun _ _ _ _ => rfl) sound.clear ?_
  intro other
  have serves := sound.serves other
  by_cases mine : other = cpu
  · have attached : (spaces.attachPgdir invalidPt cpu index).attached other =
        if (spaces.space index).pt ≠ 0 then .space index else .nobody := by
      rw [mine]
      exact Function.update_self _ _ _
    have root : (spaces.attachPgdir invalidPt cpu index).ttbr0 other =
        if (spaces.space index).pt ≠ 0 then k2p (spaces.space index).pt else k2p invalidPt := by
      rw [mine]
      exact Function.update_self _ _ _
    by_cases made : (spaces.space index).pt ≠ 0
    · rw [if_pos made] at attached root
      constructor
      · intro nobody
        rw [attached] at nobody
        cases nobody
      · intro number same
        rw [attached] at same
        cases same
        exact ⟨made, root, fun _ _ kept => nomatch kept⟩
    · rw [if_neg made] at attached root
      constructor
      · intro nobody
        exact ⟨root, fun _ => rfl⟩
      · intro number same
        rw [attached] at same
        cases same
  · apply serves.of_same
    · exact Function.update_of_ne mine _ _
    · exact Function.update_of_ne mine _ _
    · exact fun _ _ kept => nomatch kept
    · exact fun _ _ _ => ⟨rfl, fun _ _ => rfl⟩

theorem Sound.trapReturn (sound : spaces.Sound invalidPt)
    (allowed : spaces.Allowed invalidPt (.trapReturn cpu index)) :
    (spaces.trapReturn cpu index).Sound invalidPt := by
  obtain ⟨made, fresh, alike⟩ := allowed
  refine sound.of_same (List.Perm.refl _) rfl (fun _ _ _ _ => rfl) sound.clear ?_
  intro other
  have serves := sound.serves other
  by_cases mine : other = cpu
  · have attached : (spaces.trapReturn cpu index).attached other = .space index := by
      rw [mine]
      exact Function.update_self _ _ _
    have root : (spaces.trapReturn cpu index).ttbr0 other = k2p (spaces.space index).pt := by
      rw [mine]
      exact Function.update_self _ _ _
    constructor
    · intro nobody
      rw [attached] at nobody
      cases nobody
    · intro number same
      rw [attached] at same
      cases same
      refine ⟨made, root, ?_⟩
      intro page leaf kept
      change spaces.tlb other page = some leaf at kept
      rw [mine] at kept serves
      cases before : spaces.attached cpu with
      | nobody =>
          rw [(serves.nobody before).2 page] at kept
          cases kept
      | space old =>
          obtain ⟨-, -, entries⟩ := serves.space old before
          have entry := entries page leaf kept
          change leafOf ((spaces.space index).entry page) = some leaf
          rw [alike old before page (by rw [entry]; rfl)]
          exact entry
      | stale => exact absurd before fresh
  · apply serves.of_same
    · exact Function.update_of_ne mine _ _
    · exact Function.update_of_ne mine _ _
    · exact fun _ _ => id
    · exact fun _ _ _ => ⟨rfl, fun _ _ => rfl⟩

theorem Sound.keep (sound : spaces.Sound invalidPt) (cpu : Fin ncpu) {page : Nat}
    {leaf : Option Leaf}
    (nobody : spaces.attached cpu = .nobody → leaf = none)
    (space : ∀ index, spaces.attached cpu = .space index → ∀ entry, leaf = some entry →
      leafOf ((spaces.space index).entry page) = some entry) :
    (spaces.keep cpu page leaf).Sound invalidPt := by
  refine sound.of_same (List.Perm.refl _) rfl (fun _ _ _ _ => rfl) sound.clear ?_
  intro other
  have serves := sound.serves other
  by_cases mine : other = cpu
  · have kept : ∀ number, (spaces.keep cpu page leaf).tlb other number =
        if number = page then leaf else spaces.tlb other number := by
      intro number
      rw [mine]
      change Function.update spaces.tlb cpu _ cpu number = _
      rw [Function.update_self, Function.update_apply]
    constructor
    · intro free
      obtain ⟨root, empty⟩ := serves.nobody free
      refine ⟨root, ?_⟩
      intro number
      rw [kept number]
      split
      · exact nobody (mine ▸ free)
      · exact empty number
    · intro index taken
      obtain ⟨made, root, entries⟩ := serves.space index taken
      refine ⟨made, root, ?_⟩
      intro number entry found
      rw [kept number] at found
      split at found
      · rename_i same
        rw [same]
        exact space index (mine ▸ taken) entry found
      · exact entries number entry found
  · apply serves.of_same
    · rfl
    · rfl
    · intro number entry found
      have other : (spaces.keep cpu page leaf).tlb other = spaces.tlb other :=
        Function.update_of_ne mine _ _
      rw [← other]
      exact found
    · exact fun _ _ _ => ⟨rfl, fun _ _ => rfl⟩

theorem Sound.supplied (sound : spaces.Sound invalidPt) (index : Nat) :
    (spaces.view index).Supplied := by
  constructor
  · exact fun page member => sound.kernel page (List.mem_append_left _ member)
  · exact (List.nodup_append.mp sound.once).1
  · exact fun page member mine => sound.unused index page mine (List.mem_append_left _ member)

theorem Sound.touch (sound : spaces.Sound invalidPt) (invalid : KernelPage invalidPt)
    {va value slot : UInt64} {after : Paging}
    (allowed : spaces.Allowed invalidPt (.touch index va value))
    (called : (spaces.view index).getPte va true = .ok (some slot, after)) :
    (spaces.put index (after.write slot value)
      ((spaces.space index).requests ++ [{ va := va, slot := slot, value := value }])).Sound
        invalidPt := by
  have recorded := sound.recorded index
  have supplied := sound.supplied index
  obtain ⟨laid, linked⟩ := Paging.getPte_laid recorded.mapped supplied (sound.linked index) called
  obtain ⟨grown, table, found, same⟩ := Paging.getPte_alloc recorded.mapped supplied called
  cases same
  have member := grown.mapped.tableAt_mem (tablePath_short va) found
  apply sound.put invalid
  · exact recorded.touch grown found
  · exact linked.write grown.mapped rfl found (index3 va) value
  · exact laid.trans
      (Paging.write_laid after (grown.mapped.kernel table member) member (index3 va) value)
  · exact grown.root
  · intro cpu mine page mapped
    rw [lastStored_append]
    split
    · rename_i same
      change pageNumber va = page at same
      have kept := allowed cpu mine
      rw [same] at kept
      exact kept mapped
    · rfl

theorem Sound.lookup (sound : spaces.Sound invalidPt) (invalid : KernelPage invalidPt)
    {va : UInt64} {result : Option UInt64} {after : Paging}
    (called : (spaces.view index).getPte va false = .ok (result, after)) :
    (spaces.put index after (spaces.space index).requests).Sound invalidPt := by
  have recorded := sound.recorded index
  have supplied := sound.supplied index
  obtain ⟨laid, linked⟩ := Paging.getPte_laid recorded.mapped supplied (sound.linked index) called
  have grown := Paging.getPte_lookup recorded.mapped supplied called
  exact sound.put invalid (recorded.lookup grown) linked laid grown.root (fun _ _ _ _ => rfl)

theorem Sound.step (sound : spaces.Sound invalidPt) (invalid : KernelPage invalidPt)
    {action : SpaceAction} (allowed : spaces.Allowed invalidPt action)
    (stepped : spaceStep invalidPt spaces action = .ok after) : after.Sound invalidPt := by
  cases action with
  | touch index va value =>
      simp only [spaceStep] at stepped
      split at stepped
      · cases stepped
      · cases stepped
      · rename_i called
        cases stepped
        exact sound.touch invalid allowed called
  | lookup index va =>
      simp only [spaceStep] at stepped
      split at stepped
      · cases stepped
      · rename_i called
        cases stepped
        exact sound.lookup invalid called
  | freePgdir index junk =>
      cases stepped
      exact sound.freePgdir invalid index junk
  | kallocPage =>
      cases stepped
      exact sound.kallocPage
  | kfreePage page junk =>
      cases stepped
      exact sound.kfreePage invalid allowed junk
  | store mem =>
      cases stepped
      exact sound.of_same (List.Perm.refl _) rfl allowed.1 allowed.2
        (fun cpu => ⟨(sound.serves cpu).nobody, (sound.serves cpu).space⟩)
  | attachPgdir cpu index =>
      cases stepped
      exact sound.attachPgdir cpu index
  | trapReturn cpu index =>
      cases stepped
      exact sound.trapReturn allowed
  | fill cpu va =>
      cases stepped
      apply sound.keep cpu
      · exact fun nobody => sound.walked_nobody nobody va
      · intro index mine entry found
        have low : va >>> 48 = 0 := by
          by_contra high
          rw [walked, if_neg high] at found
          cases found
        rw [← sound.walked_space mine low]
        exact found
  | evict cpu page =>
      cases stepped
      exact sound.keep cpu (fun _ => rfl) (fun _ _ _ found => nomatch found)

/-- The free pages are pages of the memory, each listed once, and `invalid_pt` is none of them and
has no entries. -/
structure Booted (invalidPt : UInt64) (mem : UInt64 → UInt64) (free : List UInt64) : Prop where
  invalid : KernelPage invalidPt
  kernel : ∀ page ∈ free, KernelPage page
  once : free.Nodup
  outside : invalidPt ∉ free
  clear : ∀ id, mem (entryAddr invalidPt id) = 0

theorem Sound.initial {mem : UInt64 → UInt64} {free : List UInt64}
    (booted : Booted invalidPt mem free) : (initial invalidPt mem free).Sound invalidPt := by
  constructor
  · intro index
    exact (PageRun.Recorded.initial mem 0).congr rfl rfl (fun _ _ _ => rfl)
  · intro index path table id _ reached
    cases reached
  · intro page member
    rw [show (AddressSpaces.initial invalidPt mem free).held = [] from rfl, List.append_nil] at member
    exact booted.kernel page member
  · rw [show (AddressSpaces.initial invalidPt mem free).held = [] from rfl, List.append_nil]
    exact booted.once
  · intro index page member
    cases member
  · intro index other _ page member
    cases member
  · rw [show (AddressSpaces.initial invalidPt mem free).held = [] from rfl, List.append_nil]
    exact booted.outside
  · exact fun _ => List.not_mem_nil
  · exact booted.clear
  · intro cpu
    exact ⟨fun _ => ⟨rfl, fun _ => rfl⟩, fun index attached => nomatch attached⟩

theorem Sound.run {mem : UInt64 → UInt64} {free : List UInt64} {actions : List SpaceAction}
    (booted : Booted invalidPt mem free)
    (run : Run (spaceStep invalidPt) (Allowed invalidPt) (.initial invalidPt mem free) actions
      spaces) : spaces.Sound invalidPt :=
  run.invariant (P := fun spaces => spaces.Sound invalidPt) (Sound.initial booted)
    (fun _ _ _ sound allowed stepped => sound.step booted.invalid allowed stepped)

theorem Sound.found_space (sound : spaces.Sound invalidPt)
    (mine : spaces.attached cpu = .space index) {va : UInt64} (low : va >>> 48 = 0) :
    spaces.found cpu va = leafOf ((spaces.space index).entry (pageNumber va)) := by
  unfold found
  rw [if_pos low]
  cases kept : spaces.tlb cpu (pageNumber va) with
  | none =>
      rw [Option.none_or]
      exact sound.walked_space mine low
  | some leaf =>
      rw [Option.some_or]
      exact (((sound.serves cpu).space index mine).2.2 _ leaf kept).symm

theorem Sound.found_nobody (sound : spaces.Sound invalidPt)
    (nobody : spaces.attached cpu = .nobody) (va : UInt64) : spaces.found cpu va = none := by
  unfold found
  rw [((sound.serves cpu).nobody nobody).2, Option.none_or, sound.walked_nobody nobody, ite_self]

end AddressSpaces

/-! ### Accesses -/

/-- The page of an entry and the offset in it, if the entry is one of a page that a program may
use. -/
def userPage (pte : UInt64) (write : Bool) (va : UInt64) : Option UInt64 :=
  if pte &&& pteValid ≠ 0 ∧ pte &&& 2 ≠ 0 ∧ pte &&& afUsed ≠ 0 ∧ pte &&& pteUser ≠ 0 ∧
      (write = true → pte &&& pteRo = 0) then
    some (pteAddress pte + (va &&& 0xFFF))
  else none

theorem target_last (pte va : UInt64) :
    Leaf.target { level := 3, pte := pte } va = pteAddress pte + (va &&& 0xFFF) := by
  have address : (pteAddress pte).toNat = pte.toNat / 2 ^ 12 % 2 ^ 36 * 2 ^ 12 := by
    unfold pteAddress
    rw [UInt64.toNat_and]
    have mask : (~~~(0xFFFF000000000FFF : UInt64)).toNat = (2 ^ 36 - 1) <<< 12 := by decide
    rw [mask, Bits.and_shifted_mask]
  have offset : (va &&& 0xFFF).toNat = va.toNat % 2 ^ 12 := by
    rw [UInt64.toNat_and]
    exact Nat.and_two_pow_sub_one_eq_mod va.toNat 12
  apply UInt64.toNat.inj
  change (UInt64.ofNat ((pteAddress pte).toNat / 2 ^ 12 * 2 ^ 12 + va.toNat % 2 ^ 12)).toNat = _
  rw [UInt64.toNat_ofNat', UInt64.toNat_add, address, offset]
  omega

theorem leafOf_reach (pte : UInt64) (write : Bool) (va : UInt64) :
    (leafOf pte).bind (fun leaf => leaf.reach { user := true, write := write } va) =
      userPage pte write va := by
  unfold leafOf readEntry userPage
  by_cases valid : pte &&& 1 = 0
  · rw [if_pos valid, if_neg (by decide), if_neg (fun all => all.1 valid)]
    rfl
  · by_cases page : pte &&& 2 = 0
    · rw [if_neg valid, if_pos page, if_neg (by decide), if_neg (fun all => all.2.1 page)]
      rfl
    · rw [if_neg valid, if_neg page, if_pos rfl, if_pos rfl, Option.bind_some]
      unfold Leaf.reach
      rw [target_last]
      apply if_congr _ rfl rfl
      unfold Leaf.permits
      simp only [Bool.and_eq_true, bne_iff_ne, Bool.or_eq_true, Bool.not_eq_true', beq_iff_eq,
        Bool.true_eq_false, false_or]
      constructor
      · rintro ⟨⟨used, user⟩, writable⟩
        refine ⟨valid, page, used, user, ?_⟩
        intro writes
        exact writable.resolve_left (fun reads => by rw [writes] at reads; cases reads)
      · rintro ⟨-, -, used, user, writable⟩
        refine ⟨⟨used, user⟩, ?_⟩
        cases write with
        | false => exact Or.inl rfl
        | true => exact Or.inr (writable rfl)

/-- Whatever is done with any page directories on any CPU, and whatever entries the CPUs keep and
drop: a program's access on a CPU comes to the page stored last for its address in the page
directory attached to that CPU, if the entry lets it, and else faults. With `invalid_pt` it faults
everywhere. -/
theorem user_access_as_stored {invalidPt : UInt64} {mem : UInt64 → UInt64} {free : List UInt64}
    {actions : List SpaceAction} {spaces : AddressSpaces}
    (booted : AddressSpaces.Booted invalidPt mem free)
    (run : Run (spaceStep invalidPt) (AddressSpaces.Allowed invalidPt)
      (.initial invalidPt mem free) actions spaces)
    (cpu : Fin ncpu) (write : Bool) (va : UInt64) :
    (∀ index, spaces.attached cpu = .space index → spaces.userAccess cpu write va =
      if va >>> 48 = 0 then userPage ((spaces.space index).entry (pageNumber va)) write va
      else none) ∧
    (spaces.attached cpu = .nobody → spaces.userAccess cpu write va = none) := by
  have sound := AddressSpaces.Sound.run booted run
  constructor
  · intro index mine
    unfold AddressSpaces.userAccess
    split
    · rename_i low
      rw [sound.found_space mine low]
      exact leafOf_reach _ write va
    · rename_i high
      rw [AddressSpaces.found, if_neg high]
      rfl
  · intro nobody
    unfold AddressSpaces.userAccess
    rw [sound.found_nobody nobody]
    rfl

theorem zero_lt_ncpu : 0 < ncpu := by decide

theorem one_lt_ncpu : 1 < ncpu := by decide

/-- Two programs at the same address, on two CPUs. -/
def twoSpaces : List SpaceAction :=
  [.touch 0 0x400000 (0x900000 ||| pteUserData), .touch 1 0x400000 (0xa00000 ||| pteUserData),
    .attachPgdir ⟨0, zero_lt_ncpu⟩ 0, .attachPgdir ⟨1, one_lt_ncpu⟩ 1,
    .fill ⟨0, zero_lt_ncpu⟩ 0x400000]

def twoSpacesPages : List UInt64 :=
  [0xffff000000400000, 0xffff000000401000, 0xffff000000402000, 0xffff000000403000,
    0xffff000000404000, 0xffff000000405000, 0xffff000000406000, 0xffff000000407000]

theorem twoSpaces_booted :
    AddressSpaces.Booted 0xffff000000093000 (fun _ => 0) twoSpacesPages := by
  constructor
  · exact ⟨by decide, by decide, by decide⟩
  · intro page member
    simp only [twoSpacesPages, List.mem_cons, List.not_mem_nil, or_false] at member
    rcases member with rfl | rfl | rfl | rfl | rfl | rfl | rfl | rfl <;>
      exact ⟨by decide, by decide, by decide⟩
  · decide
  · decide
  · exact fun _ => rfl

theorem user_access_as_stored_two : ∃ spaces : AddressSpaces,
    Run (spaceStep 0xffff000000093000) (AddressSpaces.Allowed 0xffff000000093000)
      (.initial 0xffff000000093000 (fun _ => 0) twoSpacesPages) twoSpaces spaces ∧
    spaces.userAccess ⟨0, by decide⟩ true 0x400018 = some 0x900018 ∧
      spaces.userAccess ⟨1, by decide⟩ true 0x400018 = some 0xa00018 ∧
        spaces.userAccess ⟨2, by decide⟩ true 0x400018 = none := by
  have executed : exec (spaceStep 0xffff000000093000)
      (.initial 0xffff000000093000 (fun _ => 0) twoSpacesPages) twoSpaces = .ok _ := rfl
  have run : Run (spaceStep 0xffff000000093000) (AddressSpaces.Allowed 0xffff000000093000)
      _ _ _ :=
    Run.of_exec executed ⟨(fun _ attached => nomatch attached),
      (fun _ attached => nomatch attached), True.intro, True.intro, True.intro, True.intro⟩
  refine ⟨_, run, ?_, ?_, ?_⟩
  · exact (user_access_as_stored twoSpaces_booted run ⟨0, by decide⟩ true 0x400018).1 0 rfl
  · exact (user_access_as_stored twoSpaces_booted run ⟨1, by decide⟩ true 0x400018).1 1 rfl
  · exact (user_access_as_stored twoSpaces_booted run ⟨2, by decide⟩ true 0x400018).2 rfl

end LabKernel.Kernel.PageTable
