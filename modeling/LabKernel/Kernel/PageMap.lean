/-
The map that page tables are.

The tables within three levels are a tree of pages of their own. A walk adds tables to it and
changes nothing that has been stored, so the entries are a map from page numbers to what was
stored last, and the tables are the pages that have to be freed.
-/

import LabKernel.Kernel.PageTable

set_option autoImplicit false

namespace LabKernel.Kernel.PageTable

open Descent Transition

def child (mem : UInt64 → UInt64) (pt : UInt64) (id : Index) : Option UInt64 :=
  if mem (entryAddr pt id) &&& pteValid = 0 then none
  else some (p2k (pteAddress (mem (entryAddr pt id))))

theorem tablePath_short (va : UInt64) : (tablePath va).length ≤ 3 := Nat.le_refl 3

namespace Paging

def tableAt (state : Paging) (path : List Index) : Option UInt64 :=
  if state.pt = 0 then none else descend (child state.mem) state.pt path

/-- The tables are a tree of kernel pages, which are the pages taken. -/
structure Mapped (state : Paging) : Prop where
  kernel : ∀ page ∈ state.taken, KernelPage page
  once : state.taken.Nodup
  unmade : state.pt = 0 → state.taken = []
  tree : state.pt ≠ 0 → Descent.Tree (child state.mem) state.pt 3 state.taken

/-- Tables are added on the way to the end of a path, and nothing stored is changed. -/
structure Grown (before after : Paging) (path : List Index) : Prop where
  mapped : after.Mapped
  supplied : after.Supplied
  root : before.pt ≠ 0 → after.pt = before.pt
  taken : ∃ more, after.taken = before.taken ++ more ∧ after.count = before.count + more.length
  freed : after.freed = before.freed
  old : ∀ other table, other.length ≤ 3 → before.tableAt other = some table →
    after.tableAt other = some table
  new : ∀ other table, other.length = 3 → after.tableAt other = some table →
    before.tableAt other = some table ∨ before.tableAt other = none ∧ other = path ∧
      ∀ id, after.mem (entryAddr table id) = 0
  stored : ∀ other table, other.length = 3 → before.tableAt other = some table → ∀ id,
    after.mem (entryAddr table id) = before.mem (entryAddr table id)

variable {state before middle after : Paging} {path other : List Index} {table pt page : UInt64}
  {id : Index}

theorem tableAt_made (made : state.pt ≠ 0) (path : List Index) :
    state.tableAt path = descend (child state.mem) state.pt path := if_neg made

theorem Mapped.tableAt_mem (mapped : state.Mapped) (short : path.length ≤ 3)
    (reached : state.tableAt path = some table) : table ∈ state.taken := by
  unfold tableAt at reached
  split at reached
  · cases reached
  · rename_i made
    exact (mapped.tree made).reached path table short reached

theorem Mapped.tableAt_inj (mapped : state.Mapped) (short : path.length ≤ 3)
    (brief : other.length ≤ 3) (reached : state.tableAt path = some table)
    (again : state.tableAt other = some table) : path = other := by
  unfold tableAt at reached again
  split at reached
  · cases reached
  · rename_i made
    rw [if_neg made] at again
    exact (mapped.tree made).apart path other table short brief reached again

theorem Grown.refl (mapped : state.Mapped) (supplied : state.Supplied) (path : List Index) :
    Grown state state path := by
  constructor
  · exact mapped
  · exact supplied
  · exact fun _ => rfl
  · exact ⟨[], (List.append_nil _).symm, (Int.add_zero _).symm⟩
  · rfl
  · exact fun _ _ _ => id
  · exact fun _ _ _ reached => Or.inl reached
  · exact fun _ _ _ _ _ => rfl

theorem Grown.trans (first : Grown before middle path) (later : Grown middle after path) :
    Grown before after path := by
  constructor
  · exact later.mapped
  · exact later.supplied
  · intro made
    have same := first.root made
    rw [later.root (by rw [same]; exact made), same]
  · obtain ⟨some, taken, count⟩ := first.taken
    obtain ⟨more, taken', count'⟩ := later.taken
    refine ⟨some ++ more, ?_, ?_⟩
    · rw [taken', taken, List.append_assoc]
    · rw [count', count, List.length_append]
      omega
  · rw [later.freed, first.freed]
  · intro other table short reached
    exact later.old other table short (first.old other table short reached)
  · intro other table long reached
    rcases later.new other table long reached with earlier | ⟨missing, rfl, fresh⟩
    · rcases first.new other table long earlier with oldest | ⟨missing, rfl, fresh⟩
      · exact Or.inl oldest
      · refine Or.inr ⟨missing, rfl, ?_⟩
        intro id
        rw [later.stored _ table long earlier id]
        exact fresh id
    · right
      refine ⟨?_, rfl, fresh⟩
      cases found : before.tableAt other with
      | none => rfl
      | some oldest =>
          rw [first.old other oldest (Nat.le_of_eq long) found] at missing
          cases missing
  · intro other table long reached id
    rw [later.stored other table long (first.old other table (Nat.le_of_eq long) reached) id]
    exact first.stored other table long reached id

/-! ### New tables -/

structure Fresh (before : Paging) (page : UInt64) (after : Paging) : Prop where
  kernel : KernelPage page
  unused : page ∉ before.taken
  taken : after.taken = before.taken ++ [page]
  supplied : after.Supplied
  pt : after.pt = before.pt
  freed : after.freed = before.freed
  count : after.count = before.count + 1
  cleared : ∀ id, after.mem (entryAddr page id) = 0
  kept : ∀ other, KernelPage other → other ≠ page → ∀ id,
    after.mem (entryAddr other id) = before.mem (entryAddr other id)

theorem newTable_fresh (supplied : state.Supplied) (made : state.newTable = .ok (page, after)) :
    Fresh state page after := by
  unfold newTable at made
  split at made
  · cases made
  · rename_i first rest pages
    cases made
    have member : page ∈ state.pages := by
      rw [pages]
      exact List.mem_cons_self
    have distinct := supplied.distinct
    rw [pages, List.nodup_cons] at distinct
    have later : ∀ other ∈ rest, other ∈ state.pages := by
      intro other found
      rw [pages]
      exact List.mem_cons_of_mem page found
    constructor
    · exact supplied.kernel page member
    · exact supplied.unused page member
    · rfl
    · constructor
      · intro other found
        exact supplied.kernel other (later other found)
      · exact distinct.2
      · intro other found listed
        rcases List.mem_append.mp listed with old | last
        · exact supplied.unused other (later other found) old
        · rw [List.mem_singleton.mp last] at found
          exact distinct.1 found
    · rfl
    · rfl
    · rfl
    · intro id
      have kernel := supplied.kernel page member
      simp only [kernel.inPage_entryAddr kernel, decide_true, if_true]
    · intro other kernel different id
      have mine := supplied.kernel page member
      simp only [mine.inPage_entryAddr kernel, Ne.symm different, decide_false,
        Bool.false_eq_true, if_false]

theorem child_cleared {mem : UInt64 → UInt64} (cleared : ∀ id, mem (entryAddr page id) = 0)
    (id : Index) : child mem page id = none := by
  unfold child
  rw [cleared id, if_pos (by decide)]

theorem child_congr {mem mem' : UInt64 → UInt64}
    (same : ∀ id, mem' (entryAddr page id) = mem (entryAddr page id)) :
    child mem' page = child mem page := by
  funext id
  unfold child
  rw [same id]

theorem makeRoot_grown (mapped : state.Mapped) (supplied : state.Supplied)
    (made : state.makeRoot = .ok after) (path : List Index) :
    Grown state after path ∧ after.pt ≠ 0 := by
  unfold makeRoot at made
  split at made
  · rename_i unmade
    split at made
    · cases made
    · rename_i page fresh allocated
      cases made
      have new := newTable_fresh supplied allocated
      have empty := mapped.unmade unmade
      have alone : fresh.taken = [page] := by
        rw [new.taken, empty, List.nil_append]
      have single : Descent.Tree (child fresh.mem) page 3 [page] :=
        Descent.Tree.single 3 (child_cleared new.cleared)
      have nothing : ∀ other, state.tableAt other = none := fun other => if_pos unmade
      refine ⟨?_, new.kernel.ne_zero⟩
      constructor
      · constructor
        · intro other member
          change other ∈ fresh.taken at member
          rw [alone, List.mem_singleton] at member
          rw [member]
          exact new.kernel
        · change fresh.taken.Nodup
          rw [alone]
          exact List.nodup_singleton page
        · intro zero
          exact absurd zero new.kernel.ne_zero
        · intro _
          change Descent.Tree (child fresh.mem) page 3 fresh.taken
          rw [alone]
          exact single
      · exact ⟨new.supplied.kernel, new.supplied.distinct, new.supplied.unused⟩
      · intro made
        exact absurd unmade made
      · exact ⟨[page], new.taken, new.count⟩
      · exact new.freed
      · intro other table _ reached
        rw [nothing other] at reached
        cases reached
      · intro other table long reached
        rw [tableAt_made new.kernel.ne_zero] at reached
        have root := single.reached other table (Nat.le_of_eq long) reached
        rw [List.mem_singleton] at root
        rw [root] at reached
        have same := single.apart other [] page (Nat.le_of_eq long) (Nat.zero_le _) reached rfl
        rw [same] at long
        cases long
      · intro other table _ reached
        rw [nothing other] at reached
        cases reached
  · rename_i made'
    cases made
    exact ⟨Grown.refl mapped supplied path, made'⟩

/-- A table is linked into a free entry above the last level. -/
theorem Fresh.grafted (fresh : Fresh state page after) (mapped : state.Mapped)
    (reached : descend (child state.mem) state.pt path = some pt) (made : state.pt ≠ 0)
    (within : path.length < 3) (free : child state.mem pt id = none) :
    Grafted (child state.mem) (child (after.write (entryAddr pt id) (k2p page + pteTable)).mem)
      state.pt 3 path pt id page := by
  have tree := mapped.tree made
  have above := tree.reached path pt (Nat.le_of_lt within) reached
  have kernel := mapped.kernel pt above
  have apart : pt ≠ page := fun same => fresh.unused (same ▸ above)
  have beside : ∀ other place, KernelPage other → other ≠ page → ¬(other = pt ∧ place = id) →
      (after.write (entryAddr pt id) (k2p page + pteTable)).mem (entryAddr other place) =
        state.mem (entryAddr other place) := by
    intro other place known different elsewhere
    have distinct : entryAddr other place ≠ entryAddr pt id :=
      fun same => elsewhere (known.entryAddr_inj kernel same)
    change Function.update after.mem _ _ _ = _
    rw [Function.update_of_ne distinct]
    exact fresh.kept other known different place
  have linked : (after.write (entryAddr pt id) (k2p page + pteTable)).mem (entryAddr pt id) =
      k2p page + pteTable := Function.update_self _ _ _
  constructor
  · exact reached
  · exact within
  · exact free
  · unfold child
    rw [linked, if_neg fresh.kernel.packed.1, fresh.kernel.packed.2]
  · intro other different
    unfold child
    rw [beside pt other kernel apart (fun same => different same.2)]
  · intro away other near found different
    have member := tree.reached away other (Nat.le_of_lt near) found
    apply child_congr
    intro place
    apply beside other place (mapped.kernel other member)
    · exact fun same => fresh.unused (same ▸ member)
    · exact fun same => different same.1
  · apply child_cleared
    intro place
    have distinct : entryAddr page place ≠ entryAddr pt id :=
      fun same => apart (fresh.kernel.entryAddr_inj kernel same).1.symm
    change Function.update after.mem _ _ _ = _
    rw [Function.update_of_ne distinct]
    exact fresh.cleared place

theorem Fresh.grown (fresh : Fresh state page after) (mapped : state.Mapped)
    (reached : descend (child state.mem) state.pt path = some pt) (made : state.pt ≠ 0)
    (free : child state.mem pt id = none) {rest : List Index}
    (whole : (path ++ id :: rest).length = 3) :
    Grown state (after.write (entryAddr pt id) (k2p page + pteTable)) (path ++ id :: rest) := by
  have within : path.length < 3 := by
    rw [List.length_append, List.length_cons] at whole
    omega
  have tree := mapped.tree made
  have grafted := fresh.grafted mapped reached made within free
  have now := grafted.descend tree
  have made' : after.pt ≠ 0 := by
    rw [fresh.pt]
    exact made
  have above := mapped.kernel pt (tree.reached path pt (Nat.le_of_lt within) reached)
  have at_path : ∀ other, other.length ≤ 3 →
      (after.write (entryAddr pt id) (k2p page + pteTable)).tableAt other =
        if other = path ++ [id] then some page else state.tableAt other := by
    intro other short
    rw [tableAt_made made other, ← now other short, ← fresh.pt]
    exact if_neg made'
  have free_path : state.tableAt (path ++ [id]) = none := by
    rw [tableAt_made made, descend_concat reached, free]
  constructor
  · constructor
    · intro other member
      change other ∈ after.taken at member
      rw [fresh.taken] at member
      rcases List.mem_append.mp member with old | last
      · exact mapped.kernel other old
      · rw [List.mem_singleton.mp last]
        exact fresh.kernel
    · change after.taken.Nodup
      rw [fresh.taken, List.nodup_append]
      refine ⟨mapped.once, List.nodup_singleton page, ?_⟩
      intro old member new last same
      rw [List.mem_singleton] at last
      rw [same, last] at member
      exact fresh.unused member
    · intro unmade
      exact absurd unmade made'
    · intro _
      change Descent.Tree _ after.pt 3 after.taken
      rw [fresh.pt, fresh.taken]
      exact grafted.tree tree fresh.unused
  · exact ⟨fresh.supplied.kernel, fresh.supplied.distinct, fresh.supplied.unused⟩
  · exact fun _ => fresh.pt
  · exact ⟨[page], fresh.taken, fresh.count⟩
  · exact fresh.freed
  · intro other table short found
    rw [at_path other short, if_neg]
    · exact found
    · intro same
      rw [same, free_path] at found
      cases found
  · intro other table long found
    rw [at_path other (Nat.le_of_eq long)] at found
    split at found
    · rename_i same
      cases found
      -- the new table is on the last level only if it ends the walk
      have last : rest = [] := by
        rw [same, List.length_append, List.length_singleton] at long
        rw [List.length_append, List.length_cons] at whole
        exact List.length_eq_zero_iff.mp (by omega)
      refine Or.inr ⟨?_, ?_, ?_⟩
      · rw [same]
        exact free_path
      · rw [same, last]
      · intro place
        have distinct : entryAddr page place ≠ entryAddr pt id := by
          intro equal
          have member := tree.reached path pt (Nat.le_of_lt within) reached
          rw [← (fresh.kernel.entryAddr_inj above equal).1] at member
          exact fresh.unused member
        change Function.update after.mem _ _ _ = _
        rw [Function.update_of_ne distinct]
        exact fresh.cleared place
    · exact Or.inl found
  · intro other table long found place
    have member := mapped.tableAt_mem (Nat.le_of_eq long) found
    have kernel := mapped.kernel table member
    have distinct : entryAddr table place ≠ entryAddr pt id := by
      intro equal
      rw [(kernel.entryAddr_inj above equal).1] at found
      have same := mapped.tableAt_inj (Nat.le_of_eq long) (Nat.le_of_lt within) found
        ((tableAt_made made path).trans reached)
      rw [same] at long
      omega
    change Function.update after.mem _ _ _ = _
    rw [Function.update_of_ne distinct]
    exact fresh.kept table kernel (fun same => fresh.unused (same ▸ member)) place

/-! ### Walks -/

/-- A walk that may allocate comes to the table at the end of its path. -/
theorem walk_grown {ids : List Index} {result : Option UInt64} (mapped : state.Mapped)
    (supplied : state.Supplied) (made : state.pt ≠ 0)
    (reached : descend (child state.mem) state.pt path = some pt)
    (whole : (path ++ ids).length = 3) (walked : walk true ids pt state = .ok (result, after)) :
    Grown state after (path ++ ids) ∧ ∃ table, result = some table ∧
      after.tableAt (path ++ ids) = some table := by
  induction ids generalizing state path pt with
  | nil =>
      cases walked
      rw [List.append_nil]
      exact ⟨Grown.refl mapped supplied path, pt, rfl, (tableAt_made made path).trans reached⟩
  | cons id rest ih =>
      have onward : (path ++ [id] ++ rest).length = 3 := by
        rw [List.append_assoc]
        exact whole
      unfold walk at walked
      split at walked
      · rename_i invalid
        have free : child state.mem pt id = none := if_pos invalid
        simp only [if_true] at walked
        split at walked
        · cases walked
        · rename_i page fresh allocated
          have new := newTable_fresh supplied allocated
          have grown := new.grown mapped reached made free whole
          have within : path.length < 3 := by
            rw [List.length_append, List.length_cons] at whole
            omega
          have grafted := new.grafted mapped reached made within free
          have made' : fresh.pt ≠ 0 := by
            rw [new.pt]
            exact made
          have linked : (fresh.write (entryAddr pt id) (k2p page + pteTable)).mem (entryAddr pt id) =
              k2p page + pteTable := Function.update_self _ _ _
          rw [linked, new.kernel.packed.2] at walked
          have short : (path ++ [id]).length ≤ 3 := by
            rw [List.length_append, List.length_singleton]
            omega
          have arrived := grafted.descend (mapped.tree made) (path ++ [id]) short
          rw [if_pos rfl] at arrived
          obtain ⟨later, table, result, found⟩ := ih grown.mapped grown.supplied made'
            (by rw [← arrived]; exact congrArg (fun pt => descend _ pt _) new.pt) onward walked
          rw [List.append_assoc] at later found
          exact ⟨grown.trans later, table, result, found⟩
      · rename_i valid
        have next : child state.mem pt id = some (p2k (pteAddress (state.mem (entryAddr pt id)))) :=
          if_neg valid
        have arrived : descend (child state.mem) state.pt (path ++ [id]) = some _ :=
          (descend_concat reached).trans next
        obtain ⟨grown, table, result, found⟩ := ih mapped supplied made arrived onward walked
        rw [List.append_assoc] at grown found
        exact ⟨grown, table, result, found⟩

theorem walk_lookup (ids : List Index) (pt : UInt64) (state : Paging) :
    walk false ids pt state = .ok (descend (child state.mem) pt ids, state) := by
  induction ids generalizing pt with
  | nil => rfl
  | cons id rest ih =>
      unfold walk
      split
      · rename_i invalid
        have free : child state.mem pt id = none := if_pos invalid
        change _ = Except.ok ((child state.mem pt id).bind _, state)
        rw [free]
        rfl
      · rename_i valid
        have next : child state.mem pt id = some (p2k (pteAddress (state.mem (entryAddr pt id)))) :=
          if_neg valid
        rw [ih, descend_cons next]

theorem walk_found (alloc : Bool) {ids : List Index}
    (reached : descend (child state.mem) pt ids = some table) :
    walk alloc ids pt state = .ok (some table, state) := by
  induction ids generalizing pt with
  | nil =>
      cases reached
      rfl
  | cons id rest ih =>
      obtain ⟨next, found, reached⟩ := Option.bind_eq_some_iff.mp reached
      unfold child at found
      split at found
      · cases found
      · rename_i valid
        rw [← Option.some.inj found] at reached
        unfold walk
        rw [if_neg valid]
        exact ih reached

/-! ### Calls -/

theorem Mapped.of_same (mapped : before.Mapped) (mem : after.mem = before.mem)
    (pt : after.pt = before.pt) (taken : after.taken = before.taken) : after.Mapped := by
  constructor
  · rw [taken]
    exact mapped.kernel
  · rw [taken]
    exact mapped.once
  · rw [pt, taken]
    exact mapped.unmade
  · rw [mem, pt, taken]
    exact mapped.tree

theorem getPte_alloc {va : UInt64} {result : Option UInt64} (mapped : state.Mapped)
    (supplied : state.Supplied) (called : state.getPte va true = .ok (result, after)) :
    Grown state after (tablePath va) ∧ ∃ table, after.tableAt (tablePath va) = some table ∧
      result = some (entryAddr table (index3 va)) := by
  unfold getPte at called
  split at called
  · cases called
  · rename_i rooted root
    obtain ⟨first, made⟩ := makeRoot_grown mapped supplied root (tablePath va)
    split at called
    · cases called
    · rename_i walked
      obtain ⟨_, table, impossible, _⟩ := walk_grown first.mapped first.supplied made
        (show descend _ rooted.pt [] = _ from rfl) (show (tablePath va).length = 3 from rfl) walked
      cases impossible
    · rename_i pt final walked
      cases called
      obtain ⟨later, table, same, found⟩ := walk_grown first.mapped first.supplied made
        (show descend _ rooted.pt [] = _ from rfl) (show (tablePath va).length = 3 from rfl) walked
      cases same
      exact ⟨first.trans later, pt, found, rfl⟩

/-- Without `alloc` no table but the root is made. -/
theorem getPte_lookup {va : UInt64} {result : Option UInt64} (mapped : state.Mapped)
    (supplied : state.Supplied) (called : state.getPte va false = .ok (result, after)) :
    Grown state after [] := by
  unfold getPte at called
  split at called
  · cases called
  · rename_i rooted root
    obtain ⟨first, _⟩ := makeRoot_grown mapped supplied root []
    rw [walk_lookup] at called
    cases found : descend (child rooted.mem) rooted.pt (tablePath va) with
    | none =>
        rw [found] at called
        cases called
        exact first
    | some table =>
        rw [found] at called
        cases called
        exact first

/-- Once the root is there, a lookup returns what is in the table of the address. -/
theorem getPte_made (made : state.pt ≠ 0) (va : UInt64) : state.getPte va false =
    .ok ((state.tableAt (tablePath va)).map (fun table => entryAddr table (index3 va)), state) := by
  have root : state.makeRoot = .ok state := if_neg made
  unfold getPte
  simp only [root, walk_lookup]
  rw [tableAt_made made]
  cases descend (child state.mem) state.pt (tablePath va) with
  | none => rfl
  | some table => rfl

/-- An entry that is there is found with `alloc` too. -/
theorem getPte_again (made : state.pt ≠ 0) {va : UInt64}
    (found : state.tableAt (tablePath va) = some table) :
    state.getPte va true = .ok (some (entryAddr table (index3 va)), state) := by
  have root : state.makeRoot = .ok state := if_neg made
  rw [tableAt_made made] at found
  unfold getPte
  simp only [root, walk_found true found]

/-- A store into an entry of the last level leaves the tables as they are. -/
theorem write_tableAt (mapped : state.Mapped) (long : path.length = 3)
    (found : state.tableAt path = some table) (id : Index) (value : UInt64) :
    (state.write (entryAddr table id) value).Mapped ∧ ∀ other, other.length ≤ 3 →
      (state.write (entryAddr table id) value).tableAt other = state.tableAt other := by
  have kernel := mapped.kernel table (mapped.tableAt_mem (Nat.le_of_eq long) found)
  by_cases made : state.pt = 0
  · rw [show state.tableAt path = none from if_pos made] at found
    cases found
  · rw [tableAt_made made] at found
    have tree := mapped.tree made
    have same : ∀ above inner, above.length < 3 →
        descend (child state.mem) state.pt above = some inner →
          child (state.write (entryAddr table id) value).mem inner = child state.mem inner := by
      intro above inner short reached
      apply child_congr
      intro place
      apply Function.update_of_ne
      intro equal
      have member := mapped.kernel inner (tree.reached above inner (Nat.le_of_lt short) reached)
      rw [(member.entryAddr_inj kernel equal).1] at reached
      have again := tree.apart above path table (Nat.le_of_lt short) (Nat.le_of_eq long) reached found
      rw [again] at short
      omega
    constructor
    · constructor
      · exact mapped.kernel
      · exact mapped.once
      · exact mapped.unmade
      · exact fun _ => tree.congr same
    · intro other short
      rw [tableAt_made made, ← descend_congr same short]
      exact if_neg made

end Paging

/-! ### Requests -/

theorem lastStored_append (requests : List Request) (request : Request) (page : Nat) :
    lastStored (requests ++ [request]) page =
      if pageNumber request.va = page then request.value else lastStored requests page := by
  unfold lastStored
  rw [List.reverse_append, List.reverse_singleton, List.singleton_append, List.find?_cons]
  by_cases same : pageNumber request.va = page
  · rw [if_pos same]
    simp only [same, decide_true]
  · rw [if_neg same]
    simp only [same, decide_false]

theorem lastStored_unasked {requests : List Request} {page : Nat}
    (absent : ∀ request ∈ requests, pageNumber request.va ≠ page) : lastStored requests page = 0 := by
  unfold lastStored
  rw [List.find?_eq_none.mpr]
  intro request member found
  exact absent request (List.mem_reverse.mp member) (of_decide_eq_true found)

/-- The tables of the last level are those of the requests, and hold what they stored. -/
structure PageRun.Recorded (run : PageRun) : Prop where
  mapped : run.paging.Mapped
  handed : ∀ request ∈ run.requests, ∃ table,
    run.paging.tableAt (tablePath request.va) = some table ∧
      request.slot = entryAddr table (index3 request.va)
  asked : ∀ path table, path.length = 3 → run.paging.tableAt path = some table →
    ∃ request ∈ run.requests, tablePath request.va = path
  stored : ∀ va table, run.paging.tableAt (tablePath va) = some table →
    run.paging.mem (entryAddr table (index3 va)) = lastStored run.requests (pageNumber va)

namespace PageRun.Recorded

open Paging

variable {run : PageRun} {after : Paging}

theorem initial (mem : UInt64 → UInt64) (count : Int) : (PageRun.initial mem count).Recorded := by
  constructor
  · constructor
    · intro page member
      cases member
    · exact List.nodup_nil
    · exact fun _ => rfl
    · intro made
      exact absurd rfl made
  · intro request member
    cases member
  · intro path table _ found
    cases found
  · intro va table found
    cases found

theorem lookup (recorded : run.Recorded) (grown : Grown run.paging after []) :
    PageRun.Recorded { run with paging := after } := by
  have before : ∀ path table, path.length = 3 → after.tableAt path = some table →
      run.paging.tableAt path = some table := by
    intro path table long found
    rcases grown.new path table long found with old | ⟨_, same, _⟩
    · exact old
    · rw [same] at long
      cases long
  constructor
  · exact grown.mapped
  · intro request member
    obtain ⟨table, found, slot⟩ := recorded.handed request member
    exact ⟨table, grown.old _ table (tablePath_short request.va) found, slot⟩
  · intro path table long found
    exact recorded.asked path table long (before path table long found)
  · intro va table found
    have old := before _ table rfl found
    change after.mem _ = _
    rw [grown.stored _ table rfl old]
    exact recorded.stored va table old

theorem touch (recorded : run.Recorded) {va value : UInt64} {table : UInt64}
    (grown : Grown run.paging after (tablePath va))
    (found : after.tableAt (tablePath va) = some table) :
    PageRun.Recorded
      { paging := after.write (entryAddr table (index3 va)) value
        requests := run.requests ++
          [{ va := va, slot := entryAddr table (index3 va), value := value }] } := by
  obtain ⟨mapped, same⟩ := write_tableAt grown.mapped rfl found (index3 va) value
  constructor
  · exact mapped
  · intro request member
    rcases List.mem_append.mp member with old | last
    · obtain ⟨place, there, slot⟩ := recorded.handed request old
      refine ⟨place, ?_, slot⟩
      rw [same (tablePath request.va) (tablePath_short request.va)]
      exact grown.old _ place (tablePath_short request.va) there
    · rw [List.mem_singleton.mp last]
      exact ⟨table, (same (tablePath va) (tablePath_short va)).trans found, rfl⟩
  · intro path place long there
    rw [same path (Nat.le_of_eq long)] at there
    rcases grown.new path place long there with old | ⟨_, here, _⟩
    · obtain ⟨request, member, asked⟩ := recorded.asked path place long old
      exact ⟨request, List.mem_append_left _ member, asked⟩
    · exact ⟨_, List.mem_append_right _ (List.mem_singleton_self _), here.symm⟩
  · intro other place there
    rw [same (tablePath other) (tablePath_short other)] at there
    rw [lastStored_append]
    by_cases here : pageNumber va = pageNumber other
    · obtain ⟨path, entry⟩ := (entry_eq_iff va other).mpr here
      rw [← path, found, Option.some.injEq] at there
      rw [if_pos here, ← there, ← entry]
      exact Function.update_self _ _ _
    · have kernel := grown.mapped.kernel place (grown.mapped.tableAt_mem (tablePath_short other) there)
      have known := grown.mapped.kernel table (grown.mapped.tableAt_mem (tablePath_short va) found)
      have distinct : entryAddr place (index3 other) ≠ entryAddr table (index3 va) := by
        intro equal
        obtain ⟨alike, entry⟩ := kernel.entryAddr_inj known equal
        rw [alike] at there
        have path := grown.mapped.tableAt_inj (tablePath_short other) (tablePath_short va) there found
        exact here ((entry_eq_iff va other).mp ⟨path.symm, entry.symm⟩)
      rw [if_neg here]
      change Function.update after.mem _ _ _ = _
      rw [Function.update_of_ne distinct]
      rcases grown.new _ place rfl there with old | ⟨missing, _, cleared⟩
      · rw [grown.stored _ place rfl old]
        exact recorded.stored other place old
      · rw [cleared, lastStored_unasked]
        intro request member page
        obtain ⟨_, seen, _⟩ := recorded.handed request member
        rw [((entry_eq_iff request.va other).mpr page).1, missing] at seen
        cases seen

theorem step (recorded : run.Recorded) {action : Action} {next : PageRun} (kept : run.Kept action)
    (taken : pageStep run action = .ok next) : next.Recorded := by
  have given : ∀ pages, PageRun.Recorded { run with paging := { run.paging with pages := pages } } :=
    fun pages => ⟨recorded.mapped.of_same rfl rfl rfl, recorded.handed, recorded.asked,
      recorded.stored⟩
  cases action with
  | touch va value pages =>
      simp only [pageStep] at taken
      split at taken
      · cases taken
      · cases taken
      · rename_i slot after called
        cases taken
        obtain ⟨grown, table, found, same⟩ := getPte_alloc (given pages).mapped kept called
        cases same
        exact (given pages).touch grown found
  | lookup va pages =>
      simp only [pageStep] at taken
      split at taken
      · cases taken
      · rename_i result after called
        cases taken
        exact (given pages).lookup (getPte_lookup (given pages).mapped kept called)
  | elsewhere mem =>
      cases taken
      have alike : ∀ path table, path.length < 3 → run.paging.pt ≠ 0 →
          descend (child run.paging.mem) run.paging.pt path = some table →
            child mem table = child run.paging.mem table := by
        intro path table short made reached
        apply child_congr
        intro id
        have below := (recorded.mapped.tree made).reached path table (Nat.le_of_lt short) reached
        exact kept table below id
      have same : ∀ path, path.length ≤ 3 →
          Paging.tableAt { run.paging with mem := mem } path = run.paging.tableAt path := by
        intro path short
        unfold tableAt
        by_cases unmade : run.paging.pt = 0
        · rw [if_pos unmade, if_pos unmade]
        · rw [if_neg unmade, if_neg unmade]
          exact descend_congr (fun above table near => alike above table near unmade) short
      constructor
      · constructor
        · exact recorded.mapped.kernel
        · exact recorded.mapped.once
        · exact recorded.mapped.unmade
        · intro made
          exact (recorded.mapped.tree made).congr (fun above table near => alike above table near made)
      · intro request member
        obtain ⟨table, found, slot⟩ := recorded.handed request member
        exact ⟨table, (same (tablePath request.va) (tablePath_short request.va)).trans found, slot⟩
      · intro path table long found
        rw [same path (Nat.le_of_eq long)] at found
        exact recorded.asked path table long found
      · intro va table found
        rw [same (tablePath va) (tablePath_short va)] at found
        change mem _ = _
        rw [kept table (recorded.mapped.tableAt_mem (tablePath_short va) found)]
        exact recorded.stored va table found

end PageRun.Recorded

/-- The entries are a map from page numbers. -/
structure PageRun.MapLaw (run : PageRun) : Prop where
  slots : ∀ request ∈ run.requests, ∀ other ∈ run.requests,
    request.slot = other.slot ↔ pageNumber request.va = pageNumber other.va
  lookup : run.paging.pt ≠ 0 → ∀ va, ∃ result,
    run.paging.getPte va false = .ok (result, run.paging) ∧
      (result = none ↔ ∀ request ∈ run.requests, regionNumber request.va ≠ regionNumber va) ∧
      (∀ request ∈ run.requests, pageNumber request.va = pageNumber va →
        result = some request.slot) ∧
      ∀ slot, result = some slot → run.paging.getPte va true = .ok (some slot, run.paging) ∧
        run.paging.mem slot = lastStored run.requests (pageNumber va)
  apart : run.paging.pt ≠ 0 → ∀ va other slot place,
    run.paging.getPte va false = .ok (some slot, run.paging) →
      run.paging.getPte other false = .ok (some place, run.paging) →
        (slot = place ↔ pageNumber va = pageNumber other)
  kept : ∀ va alloc pages result after, { run.paging with pages := pages }.Supplied →
    { run.paging with pages := pages }.getPte va alloc = .ok (result, after) →
      ∀ request ∈ run.requests, after.mem request.slot = run.paging.mem request.slot

/-- Two entries are the same if their tables and places are. -/
theorem Paging.Mapped.slot_eq_iff {state : Paging} (mapped : state.Mapped) {va other : UInt64}
    {table place : UInt64} (found : state.tableAt (tablePath va) = some table)
    (there : state.tableAt (tablePath other) = some place) :
    entryAddr table (index3 va) = entryAddr place (index3 other) ↔
      pageNumber va = pageNumber other := by
  have kernel := mapped.kernel table (mapped.tableAt_mem (tablePath_short va) found)
  have known := mapped.kernel place (mapped.tableAt_mem (tablePath_short other) there)
  rw [← entry_eq_iff]
  constructor
  · intro same
    obtain ⟨alike, entry⟩ := kernel.entryAddr_inj known same
    rw [alike] at found
    exact ⟨mapped.tableAt_inj (tablePath_short va) (tablePath_short other) found there, entry⟩
  · rintro ⟨path, entry⟩
    rw [path, there, Option.some.injEq] at found
    rw [found, entry]

theorem PageRun.Recorded.mapLaw {run : PageRun} (recorded : run.Recorded) : run.MapLaw := by
  constructor
  · intro request member other listed
    obtain ⟨table, found, slot⟩ := recorded.handed request member
    obtain ⟨place, there, entry⟩ := recorded.handed other listed
    rw [slot, entry]
    exact recorded.mapped.slot_eq_iff found there
  · intro made va
    refine ⟨_, Paging.getPte_made made va, ?_, ?_, ?_⟩
    · constructor
      · intro missing request member region
        obtain ⟨table, found, _⟩ := recorded.handed request member
        rw [(tablePath_eq_iff request.va va).mpr region] at found
        rw [found] at missing
        cases missing
      · intro unasked
        cases found : run.paging.tableAt (tablePath va) with
        | none => rfl
        | some table =>
            obtain ⟨request, member, path⟩ := recorded.asked (tablePath va) table rfl found
            exact absurd ((tablePath_eq_iff request.va va).mp path) (unasked request member)
    · intro request member page
      obtain ⟨table, found, slot⟩ := recorded.handed request member
      obtain ⟨path, entry⟩ := (entry_eq_iff request.va va).mpr page
      rw [path] at found
      rw [found, slot, entry]
      rfl
    · intro slot result
      obtain ⟨table, found, same⟩ := Option.map_eq_some_iff.mp result
      rw [← same]
      exact ⟨Paging.getPte_again made found, recorded.stored va table found⟩
  · intro made va other slot place first second
    rw [Paging.getPte_made made, Except.ok.injEq, Prod.mk.injEq] at first second
    obtain ⟨table, found, same⟩ := Option.map_eq_some_iff.mp first.1
    obtain ⟨beyond, there, again⟩ := Option.map_eq_some_iff.mp second.1
    rw [← same, ← again]
    exact recorded.mapped.slot_eq_iff found there
  · intro va alloc pages result after supplied called request member
    obtain ⟨table, found, slot⟩ := recorded.handed request member
    have mapped : Paging.Mapped { run.paging with pages := pages } :=
      recorded.mapped.of_same rfl rfl rfl
    rw [slot]
    cases alloc with
    | false =>
        exact (Paging.getPte_lookup mapped supplied called).stored _ table rfl found _
    | true =>
        exact (Paging.getPte_alloc mapped supplied called).1.stored _ table rfl found _

theorem PageRun.Recorded.run {mem : UInt64 → UInt64} {count : Int} {actions : List Action}
    {run : PageRun} (ran : Run pageStep PageRun.Kept (PageRun.initial mem count) actions run) :
    run.Recorded := by
  apply ran.invariant (PageRun.Recorded.initial mem count)
  intro state action after recorded kept taken
  exact recorded.step kept taken

/-- Two pages of one table, the second address with bits above 47, a store over a store, and an
entry of the last level that looks like one for a table. -/
def sharedTable : List Action :=
  [.touch 0x1000 5
      [0xffff000000400000, 0xffff000000401000, 0xffff000000402000, 0xffff000000403000],
    .touch 0xabcd000000002fff 0x400003 [], .touch 0x1008 7 []]

theorem sharedTable_run : ∃ run : PageRun,
    Run pageStep PageRun.Kept (PageRun.initial (fun _ => 9) 0) sharedTable run ∧
      run.requests.map Request.slot =
        [0xffff000000403008, 0xffff000000403010, 0xffff000000403008] ∧
      run.paging.mem 0xffff000000403008 = 7 ∧
      run.paging.taken =
        [0xffff000000400000, 0xffff000000401000, 0xffff000000402000, 0xffff000000403000] := by
  have executed : exec pageStep (PageRun.initial (fun _ => 9) 0) sharedTable = .ok _ := rfl
  have supplied : PageRun.Kept (PageRun.initial (fun _ => 9) 0) (.touch 0x1000 5
      [0xffff000000400000, 0xffff000000401000, 0xffff000000402000, 0xffff000000403000]) := by
    constructor
    · intro page member
      simp only [List.mem_cons, List.not_mem_nil, or_false] at member
      rcases member with rfl | rfl | rfl | rfl
      · exact ⟨by decide, by decide, by decide⟩
      · exact ⟨by decide, by decide, by decide⟩
      · exact ⟨by decide, by decide, by decide⟩
      · exact ⟨by decide, by decide, by decide⟩
    · decide
    · intro page _ taken
      cases taken
  have nothing : ∀ run : PageRun, Paging.Supplied { run.paging with pages := [] } :=
    fun run => ⟨nofun, List.nodup_nil, nofun⟩
  have run : Run pageStep PageRun.Kept _ _ _ :=
    Run.of_exec executed ⟨supplied, nothing _, nothing _, True.intro⟩
  exact ⟨_, run, rfl, rfl, rfl⟩

/-- Whatever addresses are requested and whatever is stored, the entries are a map from page
numbers to the value stored last, and no call changes it. -/
theorem page_table_map (mem : UInt64 → UInt64) (count : Int) (actions : List Action)
    (run : PageRun) (ran : Run pageStep PageRun.Kept (PageRun.initial mem count) actions run) :
    run.MapLaw :=
  (PageRun.Recorded.run ran).mapLaw

theorem page_table_map_shared : ∃ run : PageRun,
    Run pageStep PageRun.Kept (PageRun.initial (fun _ => 9) 0) sharedTable run ∧
      run.paging.mem 0xffff000000403008 = 7 ∧ run.MapLaw := by
  obtain ⟨run, ran, _, value, _⟩ := sharedTable_run
  exact ⟨run, ran, value, page_table_map _ _ _ _ ran⟩

/-! ### Freeing -/

/-- The tables below a table, which are freed before it. -/
def freeOrder (mem : UInt64 → UInt64) (below : Nat) (pt : UInt64) : List UInt64 :=
  sweep (child mem) (List.finRange nPtePerTable) below pt

/-- These pages are freed, and nothing else is changed. -/
structure Paging.Freed (before after : Paging) (pages : List UInt64) : Prop where
  freed : after.freed = before.freed ++ pages
  count : after.count = before.count - pages.length
  mem : ∀ page, KernelPage page → page ∉ pages → ∀ id,
    after.mem (entryAddr page id) = before.mem (entryAddr page id)

namespace Paging.Freed

variable {before middle after : Paging} {pages more : List UInt64} {page : UInt64}

theorem refl (state : Paging) : Freed state state [] := by
  constructor
  · exact (List.append_nil _).symm
  · exact (Int.sub_zero _).symm
  · exact fun _ _ _ _ => rfl

theorem trans (first : Freed before middle pages) (later : Freed middle after more) :
    Freed before after (pages ++ more) := by
  constructor
  · rw [later.freed, first.freed, List.append_assoc]
  · rw [later.count, first.count, List.length_append]
    omega
  · intro page kernel absent id
    rw [List.mem_append, not_or] at absent
    rw [later.mem page kernel absent.2, first.mem page kernel absent.1]

theorem kfreePage (state : Paging) (junk : UInt64 → UInt64) (kernel : KernelPage page) :
    Freed state (state.kfreePage junk page) [page] := by
  constructor
  · rfl
  · rfl
  · intro other known absent id
    have apart : page ≠ other := fun same => absent (List.mem_singleton.mpr same.symm)
    unfold Paging.kfreePage
    simp only [kernel.inPage_entryAddr known, apart, decide_false, Bool.false_eq_true, if_false]

end Paging.Freed

/-- `_free_pt` frees a table and all tables below it, once each: what is freed on the way is not
read any more. -/
theorem Paging.freePt_freed (junk mem : UInt64 → UInt64) (below : Nat) (pt : UInt64)
    (state : Paging) (kernel : ∀ page ∈ freeOrder mem below pt, KernelPage page)
    (distinct : (freeOrder mem below pt).Nodup)
    (same : ∀ page ∈ freeOrder mem below pt, ∀ id,
      state.mem (entryAddr page id) = mem (entryAddr page id)) :
    Freed state (freePt junk below pt state) (freeOrder mem below pt) := by
  induction below generalizing pt state with
  | zero => exact Freed.kfreePage state junk (kernel pt (List.mem_singleton_self pt))
  | succ below ih =>
      have whole : freeOrder mem (below + 1) pt =
          (List.finRange nPtePerTable).flatMap (fun id =>
            (child mem pt id).elim [] (freeOrder mem below)) ++ [pt] := by
        unfold freeOrder
        rw [sweep]
      rw [whole] at kernel distinct same
      rw [whole, freePt]
      generalize List.finRange nPtePerTable = ids at kernel distinct same ⊢
      have mine := kernel pt (List.mem_append_right _ (List.mem_singleton_self pt))
      have loop : Freed state (ids.foldl (fun state id =>
            if state.mem (entryAddr pt id) &&& pteValid = 0 then state
            else freePt junk below (p2k (pteAddress (state.mem (entryAddr pt id)))) state) state)
          (ids.flatMap (fun id => (child mem pt id).elim [] (freeOrder mem below))) := by
        clear whole
        induction ids generalizing state with
        | nil => exact Freed.refl state
        | cons id ids again =>
            rw [List.flatMap_cons] at kernel distinct same ⊢
            rw [List.foldl_cons]
            have entry := same pt (List.mem_append_right _ (List.mem_singleton_self pt)) id
            rw [List.append_assoc, List.nodup_append] at distinct
            have first : Freed state (if state.mem (entryAddr pt id) &&& pteValid = 0 then state
                else freePt junk below (p2k (pteAddress (state.mem (entryAddr pt id)))) state)
                ((child mem pt id).elim [] (freeOrder mem below)) := by
              rw [entry]
              by_cases invalid : mem (entryAddr pt id) &&& pteValid = 0
              · have free : child mem pt id = none := if_pos invalid
                rw [if_pos invalid, free]
                exact Freed.refl state
              · have next : child mem pt id = some (p2k (pteAddress (mem (entryAddr pt id)))) :=
                  if_neg invalid
                rw [if_neg invalid, next]
                rw [next] at kernel distinct same
                apply ih
                · intro page member
                  exact kernel page (List.mem_append_left _ (List.mem_append_left _ member))
                · exact distinct.1
                · intro page member
                  exact same page (List.mem_append_left _ (List.mem_append_left _ member))
            apply first.trans
            apply again
            · intro page member
              apply kernel
              rw [List.append_assoc]
              exact List.mem_append_right _ member
            · exact distinct.2.1
            · intro page member place
              have known : KernelPage page := by
                apply kernel
                rw [List.append_assoc]
                exact List.mem_append_right _ member
              have absent : page ∉ (child mem pt id).elim [] (freeOrder mem below) :=
                fun freed => distinct.2.2 page freed page member rfl
              rw [first.mem page known absent place]
              apply same
              rw [List.append_assoc]
              exact List.mem_append_right _ member
      exact loop.trans (Freed.kfreePage _ junk mine)

/-- Nothing has been freed yet, and the count is that of the pages taken. -/
structure PageRun.Counted (run : PageRun) (count : Int) : Prop where
  freed : run.paging.freed = []
  count : run.paging.count = count + run.paging.taken.length

theorem PageRun.Counted.grown {run : PageRun} {count : Int} {after : Paging} {path : List Index}
    (counted : run.Counted count) (grown : Paging.Grown run.paging after path) :
    after.freed = [] ∧ after.count = count + after.taken.length := by
  obtain ⟨more, taken, total⟩ := grown.taken
  constructor
  · rw [grown.freed, counted.freed]
  · rw [total, counted.count, taken, List.length_append]
    omega

theorem PageRun.Counted.step {run next : PageRun} {count : Int} {action : Action}
    (counted : run.Counted count) (recorded : run.Recorded) (kept : run.Kept action)
    (taken : pageStep run action = .ok next) : next.Counted count := by
  have mapped : ∀ pages, Paging.Mapped { run.paging with pages := pages } :=
    fun pages => recorded.mapped.of_same rfl rfl rfl
  have given : ∀ pages, PageRun.Counted { run with paging := { run.paging with pages := pages } }
      count := fun pages => ⟨counted.freed, counted.count⟩
  cases action with
  | touch va value pages =>
      simp only [pageStep] at taken
      split at taken
      · cases taken
      · cases taken
      · rename_i slot after called
        cases taken
        obtain ⟨freed, total⟩ := (given pages).grown (Paging.getPte_alloc (mapped pages) kept called).1
        exact ⟨freed, total⟩
  | lookup va pages =>
      simp only [pageStep] at taken
      split at taken
      · cases taken
      · rename_i result after called
        cases taken
        obtain ⟨freed, total⟩ := (given pages).grown (Paging.getPte_lookup (mapped pages) kept called)
        exact ⟨freed, total⟩
  | elsewhere mem =>
      cases taken
      exact ⟨counted.freed, counted.count⟩

/-- After any run of requests and stores `free_pgdir` frees the pages taken for the tables, once
each and no others, and the count of pages is what it was. -/
theorem free_pgdir_exact (mem : UInt64 → UInt64) (count : Int) (actions : List Action)
    (run : PageRun) (junk : UInt64 → UInt64)
    (ran : Run pageStep PageRun.Kept (PageRun.initial mem count) actions run) :
    (run.paging.freePgdir junk).freed.Perm run.paging.taken ∧ run.paging.taken.Nodup ∧
      (run.paging.freePgdir junk).pt = 0 ∧ (run.paging.freePgdir junk).count = count := by
  have recorded := PageRun.Recorded.run ran
  have counted : run.Counted count := by
    have both : run.Recorded ∧ run.Counted count := by
      apply ran.invariant (P := fun run => run.Recorded ∧ run.Counted count)
      · exact ⟨PageRun.Recorded.initial mem count, rfl, (Int.add_zero _).symm⟩
      · intro state action after holds kept taken
        exact ⟨holds.1.step kept taken, holds.2.step holds.1 kept taken⟩
    exact both.2
  have mapped := recorded.mapped
  unfold Paging.freePgdir
  by_cases unmade : run.paging.pt = 0
  · have nothing := mapped.unmade unmade
    have total := counted.count
    rw [nothing] at total
    rw [if_pos unmade, nothing]
    change run.paging.freed.Perm [] ∧ _ ∧ _ ∧ run.paging.count = count
    rw [counted.freed, total]
    exact ⟨List.Perm.refl _, List.nodup_nil, rfl, Int.add_zero _⟩
  · have tree := mapped.tree unmade
    have order : (freeOrder run.paging.mem 3 run.paging.pt).Perm run.paging.taken :=
      tree.sweep_perm List.mem_finRange (List.nodup_finRange _) mapped.once
    have freed := Paging.freePt_freed junk run.paging.mem 3 run.paging.pt run.paging
      (fun page member => mapped.kernel page (order.mem_iff.mp member))
      (order.nodup_iff.mpr mapped.once) (fun _ _ _ => rfl)
    rw [if_neg unmade]
    refine ⟨?_, mapped.once, rfl, ?_⟩
    · change (Paging.freePt junk 3 run.paging.pt run.paging).freed.Perm _
      rw [freed.freed, counted.freed, List.nil_append]
      exact order
    · change (Paging.freePt junk 3 run.paging.pt run.paging).count = count
      rw [freed.count, counted.count, order.length_eq]
      omega

theorem free_pgdir_exact_shared : ∃ run : PageRun,
    Run pageStep PageRun.Kept (PageRun.initial (fun _ => 9) 0) sharedTable run ∧
      (run.paging.freePgdir (fun _ => 0)).freed.Perm
        [0xffff000000400000, 0xffff000000401000, 0xffff000000402000, 0xffff000000403000] ∧
      (run.paging.freePgdir (fun _ => 0)).count = 0 := by
  obtain ⟨run, ran, _, _, taken⟩ := sharedTable_run
  obtain ⟨freed, _, _, count⟩ := free_pgdir_exact _ _ _ run (fun _ => 0) ran
  rw [taken] at freed
  exact ⟨run, ran, freed, count⟩

end LabKernel.Kernel.PageTable
