/-
Tables as the memory management unit walks them.

`get_pte` writes nothing but tables, and above the last level it writes nothing but entries of
tables. So the unit comes to the table that `get_pte` comes to, and finds what was stored last.
-/

import LabKernel.Kernel.PageMap
import LabKernel.Kernel.Translation

set_option autoImplicit false

namespace LabKernel.Kernel.PageTable

open Descent Transition

/-! ### What a call leaves alone -/

namespace Paging

/-- Pages were taken from the front, and nothing outside the tables was changed. -/
structure Laid (before after : Paging) : Prop where
  pages : ∃ more, before.pages = more ++ after.pages ∧ after.taken = before.taken ++ more
  frame : ∀ page, KernelPage page → page ∉ after.taken → ∀ id,
    after.mem (entryAddr page id) = before.mem (entryAddr page id)

/-- The valid entries above the last level are those of tables. -/
def Linked (state : Paging) : Prop :=
  ∀ path table id, path.length < 3 → state.tableAt path = some table →
    state.mem (entryAddr table id) &&& pteValid = 0 ∨
      ∃ page, KernelPage page ∧ state.mem (entryAddr table id) = k2p page + pteTable

variable {state before middle after : Paging} {path : List Index} {pt page : UInt64} {id : Index}

theorem Laid.refl (state : Paging) : Laid state state :=
  ⟨⟨[], rfl, (List.append_nil _).symm⟩, fun _ _ _ _ => rfl⟩

theorem Laid.trans (first : Laid before middle) (later : Laid middle after) : Laid before after := by
  obtain ⟨some, pages, taken⟩ := first.pages
  obtain ⟨more, pages', taken'⟩ := later.pages
  constructor
  · refine ⟨some ++ more, ?_, ?_⟩
    · rw [pages, pages', List.append_assoc]
    · rw [taken', taken, List.append_assoc]
  · intro page kernel absent id
    rw [later.frame page kernel absent id]
    apply first.frame page kernel
    intro member
    apply absent
    rw [taken']
    exact List.mem_append_left more member

theorem newTable_laid (supplied : state.Supplied) (made : state.newTable = .ok (page, after)) :
    Laid state after := by
  have fresh := newTable_fresh supplied made
  constructor
  · refine ⟨[page], ?_, fresh.taken⟩
    unfold newTable at made
    split at made
    · cases made
    · rename_i first rest pages
      cases made
      exact pages
  · intro other kernel absent id
    apply fresh.kept other kernel
    intro same
    apply absent
    rw [fresh.taken, same]
    exact List.mem_append_right _ (List.mem_singleton_self page)

theorem write_laid (state : Paging) (kernel : KernelPage pt) (member : pt ∈ state.taken)
    (id : Index) (value : UInt64) : Laid state (state.write (entryAddr pt id) value) := by
  constructor
  · exact ⟨[], rfl, (List.append_nil _).symm⟩
  · intro page known absent place
    apply Function.update_of_ne
    intro same
    rw [(known.entryAddr_inj kernel same).1] at absent
    exact absent member

theorem makeRoot_laid (supplied : state.Supplied) (made : state.makeRoot = .ok after) :
    Laid state after := by
  unfold makeRoot at made
  split at made
  · split at made
    · cases made
    · rename_i page fresh allocated
      cases made
      have laid := newTable_laid supplied allocated
      exact ⟨laid.pages, laid.frame⟩
  · cases made
    exact Laid.refl state

theorem makeRoot_linked (supplied : state.Supplied) (linked : state.Linked)
    (made : state.makeRoot = .ok after) : after.Linked := by
  unfold makeRoot at made
  split at made
  · split at made
    · cases made
    · rename_i unmade page fresh allocated
      cases made
      have new := newTable_fresh supplied allocated
      intro path table id short reached
      have single : Descent.Tree (child fresh.mem) page 3 [page] :=
        Descent.Tree.single 3 (child_cleared new.cleared)
      rw [tableAt_made new.kernel.ne_zero] at reached
      have root := single.reached path table (Nat.le_of_lt short) reached
      rw [List.mem_singleton.mp root]
      left
      change fresh.mem (entryAddr page id) &&& pteValid = 0
      rw [new.cleared id]
      rfl
  · cases made
    exact linked

theorem Fresh.linked (fresh : Fresh state page after) (mapped : state.Mapped)
    (linked : state.Linked) (reached : descend (child state.mem) state.pt path = some pt)
    (made : state.pt ≠ 0) (within : path.length < 3) (free : child state.mem pt id = none) :
    (after.write (entryAddr pt id) (k2p page + pteTable)).Linked := by
  have tree := mapped.tree made
  have now := (fresh.grafted mapped reached made within free).descend tree
  have above := tree.reached path pt (Nat.le_of_lt within) reached
  have kernel := mapped.kernel pt above
  have made' : after.pt ≠ 0 := by
    rw [fresh.pt]
    exact made
  intro other table place short found
  change (if after.pt = 0 then none else descend (child
    (after.write (entryAddr pt id) (k2p page + pteTable)).mem) after.pt other) = some table at found
  rw [if_neg made', fresh.pt, now other (Nat.le_of_lt short)] at found
  by_cases here : entryAddr table place = entryAddr pt id
  · right
    refine ⟨page, fresh.kernel, ?_⟩
    rw [here]
    exact Function.update_self _ _ _
  · have value : (after.write (entryAddr pt id) (k2p page + pteTable)).mem (entryAddr table place) =
        after.mem (entryAddr table place) := Function.update_of_ne here _ _
    rw [value]
    split at found
    · cases found
      left
      rw [fresh.cleared place]
      rfl
    · have member := tree.reached other table (Nat.le_of_lt short) found
      rw [fresh.kept table (mapped.kernel table member) (fun same => fresh.unused (same ▸ member))]
      exact linked other table place short ((tableAt_made made other).trans found)

theorem walk_laid {ids : List Index} {result : Option UInt64} (mapped : state.Mapped)
    (supplied : state.Supplied) (linked : state.Linked) (made : state.pt ≠ 0)
    (reached : descend (child state.mem) state.pt path = some pt)
    (whole : (path ++ ids).length = 3) (walked : walk true ids pt state = .ok (result, after)) :
    Laid state after ∧ after.Linked := by
  induction ids generalizing state path pt with
  | nil =>
      cases walked
      exact ⟨Laid.refl _, linked⟩
  | cons id rest ih =>
      have onward : (path ++ [id] ++ rest).length = 3 := by
        rw [List.append_assoc]
        exact whole
      unfold walk at walked
      split at walked
      · rename_i invalid
        have free : child state.mem pt id = none := if_pos invalid
        simp only [if_true] at walked
        split at walked
        · cases walked
        · rename_i page fresh allocated
          have new := newTable_fresh supplied allocated
          have grown := new.grown mapped reached made free whole
          have within : path.length < 3 := by
            rw [List.length_append, List.length_cons] at whole
            omega
          have grafted := new.grafted mapped reached made within free
          have made' : fresh.pt ≠ 0 := by
            rw [new.pt]
            exact made
          have above := (mapped.tree made).reached path pt (Nat.le_of_lt within) reached
          have written := write_laid fresh (mapped.kernel pt above)
            (new.taken ▸ List.mem_append_left [page] above) id (k2p page + pteTable)
          have linked' := new.linked mapped linked reached made within free
          have value : (fresh.write (entryAddr pt id) (k2p page + pteTable)).mem (entryAddr pt id) =
              k2p page + pteTable := Function.update_self _ _ _
          rw [value, new.kernel.packed.2] at walked
          have short : (path ++ [id]).length ≤ 3 := by
            rw [List.length_append, List.length_singleton]
            omega
          have arrived := grafted.descend (mapped.tree made) (path ++ [id]) short
          rw [if_pos rfl] at arrived
          obtain ⟨later, final⟩ := ih grown.mapped grown.supplied linked' made'
            (by rw [← arrived]; exact congrArg (fun pt => descend _ pt _) new.pt) onward walked
          exact ⟨(newTable_laid supplied allocated).trans (written.trans later), final⟩
      · rename_i valid
        have next : child state.mem pt id = some (p2k (pteAddress (state.mem (entryAddr pt id)))) :=
          if_neg valid
        have arrived : descend (child state.mem) state.pt (path ++ [id]) = some _ :=
          (descend_concat reached).trans next
        exact ih mapped supplied linked made arrived onward walked

theorem getPte_laid {va : UInt64} {alloc : Bool} {result : Option UInt64} (mapped : state.Mapped)
    (supplied : state.Supplied) (linked : state.Linked)
    (called : state.getPte va alloc = .ok (result, after)) : Laid state after ∧ after.Linked := by
  unfold getPte at called
  split at called
  · cases called
  · rename_i rooted root
    have first := makeRoot_laid supplied root
    have linked' := makeRoot_linked supplied linked root
    obtain ⟨grown, made⟩ := makeRoot_grown mapped supplied root []
    cases alloc with
    | false =>
        rw [walk_lookup] at called
        cases found : descend (child rooted.mem) rooted.pt (tablePath va) with
        | none =>
            rw [found] at called
            cases called
            exact ⟨first, linked'⟩
        | some table =>
            rw [found] at called
            cases called
            exact ⟨first, linked'⟩
    | true =>
        have onward : ∀ result after, walk true (tablePath va) rooted.pt rooted = .ok (result, after) →
            Laid rooted after ∧ after.Linked := fun _ _ => walk_laid grown.mapped grown.supplied
          linked' made (show descend _ rooted.pt [] = _ from rfl)
          (show (tablePath va).length = 3 from rfl)
        split at called
        · cases called
        · rename_i walked
          cases called
          obtain ⟨later, final⟩ := onward _ _ walked
          exact ⟨first.trans later, final⟩
        · rename_i walked
          cases called
          obtain ⟨later, final⟩ := onward _ _ walked
          exact ⟨first.trans later, final⟩

end Paging

/-! ### Tables that are not written -/

namespace Paging

variable {state after : Paging}

/-- Tables whose entries are the same are reached along the same paths. -/
theorem Mapped.tableAt_same (mapped : state.Mapped) (pt : after.pt = state.pt)
    (same : ∀ page ∈ state.taken, ∀ id, after.mem (entryAddr page id) = state.mem (entryAddr page id))
    {path : List Index} (short : path.length ≤ 3) : after.tableAt path = state.tableAt path := by
  unfold tableAt
  rw [pt]
  by_cases unmade : state.pt = 0
  · rw [if_pos unmade, if_pos unmade]
  · rw [if_neg unmade, if_neg unmade]
    apply descend_congr _ short
    intro above table near reached
    apply child_congr
    exact same table ((mapped.tree unmade).reached above table (Nat.le_of_lt near) reached)

theorem Mapped.congr (mapped : state.Mapped) (pt : after.pt = state.pt)
    (taken : after.taken = state.taken)
    (same : ∀ page ∈ state.taken, ∀ id,
      after.mem (entryAddr page id) = state.mem (entryAddr page id)) : after.Mapped := by
  constructor
  · rw [taken]
    exact mapped.kernel
  · rw [taken]
    exact mapped.once
  · rw [pt, taken]
    exact mapped.unmade
  · intro made
    rw [pt] at made
    rw [pt, taken]
    apply (mapped.tree made).congr
    intro above table near reached
    apply child_congr
    exact same table ((mapped.tree made).reached above table (Nat.le_of_lt near) reached)

theorem Linked.congr (linked : state.Linked) (mapped : state.Mapped) (pt : after.pt = state.pt)
    (same : ∀ page ∈ state.taken, ∀ id,
      after.mem (entryAddr page id) = state.mem (entryAddr page id)) : after.Linked := by
  intro path table id short reached
  rw [mapped.tableAt_same pt same (Nat.le_of_lt short)] at reached
  rw [same table (mapped.tableAt_mem (Nat.le_of_lt short) reached)]
  exact linked path table id short reached

theorem Linked.write (linked : state.Linked) (mapped : state.Mapped) {path : List Index}
    {table : UInt64} (long : path.length = 3) (found : state.tableAt path = some table)
    (id : Index) (value : UInt64) : (state.write (entryAddr table id) value).Linked := by
  obtain ⟨-, paths⟩ := write_tableAt mapped long found id value
  have last := mapped.kernel table (mapped.tableAt_mem (Nat.le_of_eq long) found)
  intro other upper place short reached
  rw [paths other (Nat.le_of_lt short)] at reached
  have kernel := mapped.kernel upper (mapped.tableAt_mem (Nat.le_of_lt short) reached)
  have distinct : entryAddr upper place ≠ entryAddr table id := by
    intro same
    rw [(kernel.entryAddr_inj last same).1] at reached
    have alike := mapped.tableAt_inj (Nat.le_of_lt short) (Nat.le_of_eq long) reached found
    rw [alike] at short
    omega
  have value : (state.write (entryAddr table id) value).mem (entryAddr upper place) =
      state.mem (entryAddr upper place) := Function.update_of_ne distinct _ _
  rw [value]
  exact linked other upper place short reached

theorem Mapped.freePgdir (mapped : state.Mapped) (none : state.freed = [])
    (junk : UInt64 → UInt64) :
    (state.freePgdir junk).freed.Perm state.taken ∧ (state.freePgdir junk).pt = 0 ∧
      ∀ page, KernelPage page → page ∉ state.taken → ∀ id,
        (state.freePgdir junk).mem (entryAddr page id) = state.mem (entryAddr page id) := by
  unfold Paging.freePgdir
  by_cases unmade : state.pt = 0
  · rw [if_pos unmade]
    refine ⟨?_, rfl, fun _ _ _ _ => rfl⟩
    change state.freed.Perm _
    rw [none, mapped.unmade unmade]
  · rw [if_neg unmade]
    have order : (freeOrder state.mem 3 state.pt).Perm state.taken :=
      (mapped.tree unmade).sweep_perm List.mem_finRange (List.nodup_finRange _) mapped.once
    have freed := freePt_freed junk state.mem 3 state.pt state
      (fun page member => mapped.kernel page (order.mem_iff.mp member))
      (order.nodup_iff.mpr mapped.once) (fun _ _ _ => rfl)
    refine ⟨?_, rfl, ?_⟩
    · change (freePt junk 3 state.pt state).freed.Perm _
      rw [freed.freed, none, List.nil_append]
      exact order
    · intro page kernel absent id
      exact freed.mem page kernel (fun member => absent (order.mem_iff.mp member)) id

end Paging

theorem PageRun.Recorded.congr {run : PageRun} {after : Paging} (recorded : run.Recorded)
    (pt : after.pt = run.paging.pt) (taken : after.taken = run.paging.taken)
    (same : ∀ page ∈ run.paging.taken, ∀ id,
      after.mem (entryAddr page id) = run.paging.mem (entryAddr page id)) :
    PageRun.Recorded { paging := after, requests := run.requests } := by
  have mapped := recorded.mapped
  constructor
  · exact mapped.congr pt taken same
  · intro request member
    obtain ⟨table, found, slot⟩ := recorded.handed request member
    exact ⟨table, (mapped.tableAt_same pt same (tablePath_short request.va)).trans found, slot⟩
  · intro path table long found
    rw [mapped.tableAt_same pt same (Nat.le_of_eq long)] at found
    exact recorded.asked path table long found
  · intro va table found
    rw [mapped.tableAt_same pt same (tablePath_short va)] at found
    change after.mem _ = _
    rw [same table (mapped.tableAt_mem (tablePath_short va) found)]
    exact recorded.stored va table found

/-! ### Walks of the unit -/

/-- The physical memory: the kernel has each word at its address plus `KSPACE_MASK`. -/
def physical (mem : UInt64 → UInt64) (addr : UInt64) : UInt64 := mem (p2k addr)

/-- An entry of the last level maps a page, or the unit finds nothing. -/
def leafOf (pte : UInt64) : Option Leaf :=
  if readEntry 3 pte = .leaf then some { level := 3, pte := pte } else none

theorem physical_entry (mem : UInt64 → UInt64) (pt : UInt64) (id : Index) :
    physical mem (entryAddr (k2p pt) id) = mem (entryAddr pt id) := by
  have same : k2p pt + kspaceMask = pt := p2k_k2p pt
  unfold physical p2k entryAddr
  rw [UInt64.add_assoc, UInt64.add_comm _ kspaceMask, ← UInt64.add_assoc, same]

theorem readEntry_last (pte : UInt64) :
    readEntry 3 pte = .leaf ∨ readEntry 3 pte = .invalid := by
  unfold readEntry
  split
  · exact Or.inr rfl
  · split
    · exact Or.inr rfl
    · exact Or.inl rfl

theorem tablePath_get (va : UInt64) {level : Nat} (above : level < 3) :
    (tablePath va)[level]? = some (indexAt va level) := by
  have cases : level = 0 ∨ level = 1 ∨ level = 2 := by omega
  rcases cases with rfl | rfl | rfl
  · rfl
  · rfl
  · rfl

theorem child_none {mem : UInt64 → UInt64} {pt : UInt64} {id : Index}
    (free : child mem pt id = none) (level : Nat) :
    readEntry level (mem (entryAddr pt id)) = .invalid := by
  unfold child at free
  split at free
  · rename_i clear
    exact if_pos clear
  · cases free

theorem Paging.Linked.readEntry {state : Paging} (linked : state.Linked) {path : List Index}
    {table next : UInt64} {id : Index} (reached : state.tableAt path = some table)
    (short : path.length < 3) (found : child state.mem table id = some next) :
    PageTable.readEntry path.length (state.mem (entryAddr table id)) = .table (k2p next) := by
  rcases linked path table id short reached with clear | ⟨page, kernel, entry⟩
  · rw [child, if_pos clear] at found
    cases found
  · unfold child at found
    split at found
    · cases found
    · rw [← Option.some.inj found, entry, kernel.packed.2]
      exact kernel.readEntry (Nat.ne_of_lt short)

/-- The unit comes to the table that `get_pte` comes to. -/
theorem Paging.Linked.tableWalk {state : Paging} (linked : state.Linked) (made : state.pt ≠ 0)
    {va : UInt64} {path ids : List Index} {table : UInt64} (whole : tablePath va = path ++ ids)
    (reached : state.tableAt path = some table) :
    PageTable.tableWalk (physical state.mem) va (ids.length + 1) (k2p table) =
      (descend (child state.mem) table ids).bind (fun last =>
        leafOf (state.mem (entryAddr last (index3 va)))) := by
  induction ids generalizing path table with
  | nil =>
      have entry := physical_entry state.mem table (index3 va)
      change _ = leafOf (state.mem (entryAddr table (index3 va)))
      rcases readEntry_last (state.mem (entryAddr table (index3 va))) with leaf | invalid
      · rw [leafOf, if_pos leaf]
        exact tableWalk_leaf entry leaf
      · rw [leafOf, invalid, if_neg (by decide)]
        apply tableWalk_invalid
        change PageTable.readEntry 3 (physical state.mem (entryAddr (k2p table) (index3 va))) = _
        rw [entry]
        exact invalid
  | cons id rest ih =>
      have total := congrArg List.length whole
      rw [List.length_append, List.length_cons] at total
      change 3 = _ at total
      have level : 3 - (id :: rest).length = path.length := by
        rw [List.length_cons]
        omega
      have short : path.length < 3 := by omega
      have index : indexAt va path.length = id := by
        have place := tablePath_get va short
        rw [whole, List.getElem?_append_right (Nat.le_refl _), Nat.sub_self] at place
        exact (Option.some.inj place).symm
      have entry : physical state.mem (entryAddr (k2p table)
          (indexAt va (3 - (id :: rest).length))) = state.mem (entryAddr table id) := by
        rw [level, index]
        exact physical_entry state.mem table id
      cases found : child state.mem table id with
      | none =>
          change _ = ((child state.mem table id).bind _).bind _
          rw [found]
          apply tableWalk_invalid
          rw [entry]
          exact child_none found _
      | some next =>
          rw [descend_cons found]
          have arrived : state.tableAt (path ++ [id]) = some next := by
            rw [Paging.tableAt_made made] at reached ⊢
            rw [descend_concat reached]
            exact found
          rw [← ih (by rw [whole, List.append_assoc]; rfl) arrived]
          apply tableWalk_table
          rw [entry, level]
          exact linked.readEntry reached short found

theorem Paging.Linked.walk {state : Paging} (linked : state.Linked) (made : state.pt ≠ 0)
    (va : UInt64) : PageTable.tableWalk (physical state.mem) va 4 (k2p state.pt) =
      (state.tableAt (tablePath va)).bind (fun last =>
        leafOf (state.mem (entryAddr last (index3 va)))) := by
  have length : 4 = (tablePath va).length + 1 := rfl
  have whole : tablePath va = [] ++ tablePath va := rfl
  rw [Paging.tableAt_made made, length]
  exact linked.tableWalk made whole (Paging.tableAt_made made [])

theorem PageRun.Recorded.walk {run : PageRun} (recorded : run.Recorded)
    (linked : run.paging.Linked) (made : run.paging.pt ≠ 0) (va : UInt64) :
    tableWalk (physical run.paging.mem) va 4 (k2p run.paging.pt) =
      leafOf (lastStored run.requests (pageNumber va)) := by
  rw [linked.walk made va]
  cases found : run.paging.tableAt (tablePath va) with
  | some table =>
      rw [Option.bind_some, recorded.stored va table found]
  | none =>
      have unasked : ∀ request ∈ run.requests, pageNumber request.va ≠ pageNumber va := by
        intro request member same
        obtain ⟨table, seen, -⟩ := recorded.handed request member
        rw [((entry_eq_iff request.va va).mpr same).1, found] at seen
        cases seen
      rw [lastStored_unasked unasked]
      rfl

end LabKernel.Kernel.PageTable
