/-
Descent through tables.

Every table has at most one child at every index. A tree of a depth is a root such that every
table within the depth is reached along one path only. Nothing here names a program.
-/

import Mathlib.Data.List.Basic
import Mathlib.Data.List.Nodup
import Mathlib.Data.List.Perm.Subperm
import Mathlib.Data.List.Infix

set_option autoImplicit false

namespace LabKernel.Descent

variable {Table Index : Type}

/-- The table at the end of a path. -/
def descend (child : Table → Index → Option Table) : Table → List Index → Option Table
  | table, [] => some table
  | table, index :: path => (child table index).bind (fun next => descend child next path)

/-- The tables within a depth below a table, every one after those below it. -/
def sweep (child : Table → Index → Option Table) (indices : List Index) : Nat → Table → List Table
  | 0, table => [table]
  | depth + 1, table =>
      indices.flatMap (fun index =>
        (child table index).elim [] (fun next => sweep child indices depth next)) ++ [table]

/-- These are the tables within the depth, and each is reached along one path. -/
structure Tree (child : Table → Index → Option Table) (root : Table) (depth : Nat)
    (tables : List Table) : Prop where
  reached : ∀ path table, path.length ≤ depth → descend child root path = some table →
    table ∈ tables
  covered : ∀ table ∈ tables, ∃ path, path.length ≤ depth ∧ descend child root path = some table
  apart : ∀ path other table, path.length ≤ depth → other.length ≤ depth →
    descend child root path = some table → descend child root other = some table → path = other

variable {child after : Table → Index → Option Table} {root table next : Table}
  {path other : List Index} {index : Index} {depth : Nat} {tables : List Table}

theorem descend_cons (found : child table index = some next) :
    descend child table (index :: path) = descend child next path := by
  change (child table index).bind _ = _
  rw [found, Option.bind_some]

theorem descend_append (path other : List Index) :
    descend child root (path ++ other) =
      (descend child root path).bind (fun table => descend child table other) := by
  induction path generalizing root with
  | nil => rfl
  | cons index path ih =>
      change (child root index).bind _ = ((child root index).bind _).bind _
      cases child root index with
      | none => rfl
      | some next => exact ih

theorem descend_concat (reached : descend child root path = some table) :
    descend child root (path ++ [index]) = child table index := by
  rw [descend_append, reached, Option.bind_some]
  change (child table index).bind _ = _
  cases child table index with
  | none => rfl
  | some next => rfl

theorem descend_congr (same : ∀ path table, path.length < depth →
      descend child root path = some table → after table = child table)
    (within : path.length ≤ depth) : descend after root path = descend child root path := by
  induction path using List.reverseRecOn with
  | nil => rfl
  | append_singleton path index ih =>
      rw [List.length_append, List.length_singleton] at within
      have earlier := ih (by omega)
      cases reached : descend child root path with
      | none =>
          rw [descend_append, descend_append, earlier, reached]
          rfl
      | some table =>
          rw [descend_concat reached, descend_concat (earlier.trans reached),
            same path table (by omega) reached]

theorem Tree.congr (tree : Tree child root depth tables)
    (same : ∀ path table, path.length < depth → descend child root path = some table →
      after table = child table) : Tree after root depth tables := by
  constructor
  · intro path table within reached
    rw [descend_congr same within] at reached
    exact tree.reached path table within reached
  · intro table member
    obtain ⟨path, within, reached⟩ := tree.covered table member
    exact ⟨path, within, (descend_congr same within).trans reached⟩
  · intro path other table within inside reached found
    rw [descend_congr same within] at reached
    rw [descend_congr same inside] at found
    exact tree.apart path other table within inside reached found

theorem Tree.single (depth : Nat) (empty : ∀ index, child root index = none) :
    Tree child root depth [root] := by
  have alone : ∀ path table, descend child root path = some table → path = [] ∧ table = root := by
    intro path table reached
    cases path with
    | nil =>
        cases reached
        exact ⟨rfl, rfl⟩
    | cons index path =>
        change (child root index).bind _ = _ at reached
        rw [empty index] at reached
        cases reached
  constructor
  · intro path table _ reached
    rw [(alone path table reached).2]
    exact List.mem_singleton_self root
  · intro table member
    rw [List.mem_singleton] at member
    exact ⟨[], Nat.zero_le _, congrArg some member.symm⟩
  · intro path other table _ _ reached found
    rw [(alone path table reached).1, (alone other table found).1]

/-! ### A new table -/

/-- A table without children is put at an index that was free. -/
structure Grafted (child after : Table → Index → Option Table) (root : Table) (depth : Nat)
    (path : List Index) (table : Table) (index : Index) (fresh : Table) : Prop where
  reached : descend child root path = some table
  within : path.length < depth
  free : child table index = none
  added : after table index = some fresh
  beside : ∀ other, other ≠ index → after table other = child table other
  elsewhere : ∀ away other, away.length < depth → descend child root away = some other →
    other ≠ table → after other = child other
  empty : ∀ index, after fresh index = none

variable {fresh : Table}

theorem Grafted.descend [DecidableEq Index]
    (grafted : Grafted child after root depth path table index fresh)
    (tree : Tree child root depth tables) (other : List Index) (within : other.length ≤ depth) :
    descend after root other =
      if other = path ++ [index] then some fresh else descend child root other := by
  induction other using List.reverseRecOn with
  | nil =>
      rw [if_neg (by simp), Descent.descend, Descent.descend]
  | append_singleton other last ih =>
      rw [List.length_append, List.length_singleton] at within
      have earlier := ih (by omega)
      by_cases below : other = path ++ [index]
      · -- below the new table there is nothing, before and after
        have apart : other ++ [last] ≠ path ++ [index] := by
          intro same
          have sizes := congrArg List.length same
          rw [below] at sizes
          simp at sizes
        rw [if_neg apart]
        rw [if_pos below] at earlier
        rw [descend_concat earlier, grafted.empty, descend_append, below,
          descend_concat grafted.reached, grafted.free]
        rfl
      · rw [if_neg below] at earlier
        cases reached : Descent.descend child root other with
        | none =>
            have apart : other ++ [last] ≠ path ++ [index] := by
              intro same
              rw [(List.append_inj' same rfl).1, grafted.reached] at reached
              cases reached
            rw [if_neg apart, descend_append, descend_append, earlier, reached]
            rfl
        | some above =>
            rw [descend_concat (earlier.trans reached), descend_concat reached]
            by_cases here : other = path
            · subst here
              rw [grafted.reached, Option.some.injEq] at reached
              subst reached
              by_cases same : last = index
              · rw [same, if_pos rfl]
                exact grafted.added
              · have differs : other ++ [last] ≠ other ++ [index] :=
                  fun equal => same (List.singleton_inj.mp (List.append_cancel_left equal))
                rw [if_neg differs]
                exact grafted.beside last same
            · have apart : other ++ [last] ≠ path ++ [index] :=
                fun same => here (List.append_inj' same rfl).1
              rw [if_neg apart, grafted.elsewhere other above (by omega) reached]
              intro same
              apply here
              rw [same] at reached
              exact tree.apart other path table (by omega) (by have := grafted.within; omega) reached
                grafted.reached

theorem Grafted.tree [DecidableEq Index]
    (grafted : Grafted child after root depth path table index fresh)
    (tree : Tree child root depth tables) (new : fresh ∉ tables) :
    Tree after root depth (tables ++ [fresh]) := by
  have size := grafted.within
  have long : (path ++ [index]).length ≤ depth := by
    rw [List.length_append, List.length_singleton]
    omega
  have now := grafted.descend tree
  constructor
  · intro other found within reached
    rw [now other within] at reached
    split at reached
    · cases reached
      exact List.mem_append_right _ (List.mem_singleton_self _)
    · exact List.mem_append_left _ (tree.reached other found within reached)
  · intro found member
    rcases List.mem_append.mp member with old | last
    · obtain ⟨other, within, reached⟩ := tree.covered found old
      refine ⟨other, within, ?_⟩
      rw [now other within, if_neg]
      · exact reached
      · intro same
        rw [same, descend_concat grafted.reached, grafted.free] at reached
        cases reached
    · rw [List.mem_singleton.mp last]
      refine ⟨path ++ [index], long, ?_⟩
      rw [now _ long, if_pos rfl]
  · intro left right found inside within reached again
    rw [now left inside] at reached
    rw [now right within] at again
    split at reached
    · rename_i here
      split at again
      · rename_i there
        rw [here, there]
      · cases reached
        exact absurd (tree.reached right fresh within again) new
    · split at again
      · cases again
        exact absurd (tree.reached left fresh inside reached) new
      · exact tree.apart left right found inside within reached again

/-! ### Sweeping -/

theorem mem_branch {below : Table → List Table} :
    table ∈ (child root index).elim [] below ↔
      ∃ next, child root index = some next ∧ table ∈ below next := by
  cases child root index with
  | none => simp
  | some next => simp

theorem mem_sweep {indices : List Index} (every : ∀ index, index ∈ indices) (depth : Nat)
    (root : Table) : table ∈ sweep child indices depth root ↔
      ∃ path, path.length ≤ depth ∧ descend child root path = some table := by
  induction depth generalizing root with
  | zero =>
      unfold sweep
      rw [List.mem_singleton]
      constructor
      · intro same
        exact ⟨[], Nat.le_refl _, congrArg some same.symm⟩
      · rintro ⟨path, short, reached⟩
        rw [List.length_eq_zero_iff.mp (Nat.le_zero.mp short)] at reached
        exact (Option.some.inj reached).symm
  | succ depth ih =>
      unfold sweep
      rw [List.mem_append, List.mem_flatMap, List.mem_singleton]
      constructor
      · rintro (⟨index, _, member⟩ | same)
        · obtain ⟨next, found, inside⟩ := mem_branch.mp member
          obtain ⟨path, short, reached⟩ := (ih next).mp inside
          refine ⟨index :: path, Nat.succ_le_succ short, ?_⟩
          rw [descend_cons found]
          exact reached
        · exact ⟨[], Nat.zero_le _, congrArg some same.symm⟩
      · rintro ⟨path, short, reached⟩
        cases path with
        | nil => exact Or.inr (Option.some.inj reached).symm
        | cons index path =>
            left
            refine ⟨index, every index, ?_⟩
            obtain ⟨next, found, reached⟩ := Option.bind_eq_some_iff.mp reached
            exact mem_branch.mpr
              ⟨next, found, (ih next).mpr ⟨path, Nat.le_of_succ_le_succ short, reached⟩⟩

theorem sweep_nodup {indices : List Index} (every : ∀ index, index ∈ indices)
    (distinct : indices.Nodup) (depth : Nat) (root : Table)
    (apart : ∀ path other table, path.length ≤ depth → other.length ≤ depth →
      descend child root path = some table → descend child root other = some table → path = other) :
    (sweep child indices depth root).Nodup := by
  induction depth generalizing root with
  | zero => exact List.nodup_singleton root
  | succ depth ih =>
      have within : ∀ index next path table, child root index = some next → path.length ≤ depth →
          descend child next path = some table → descend child root (index :: path) = some table := by
        intro index next path table found _ reached
        rw [descend_cons found]
        exact reached
      unfold sweep
      rw [List.nodup_append]
      refine ⟨?_, List.nodup_singleton root, ?_⟩
      · rw [List.nodup_flatMap]
        constructor
        · intro index _
          cases found : child root index with
          | none => exact List.nodup_nil
          | some next =>
            apply ih
            intro left right table short brief reached again
            have same := apart (index :: left) (index :: right) table (Nat.succ_le_succ short)
              (Nat.succ_le_succ brief) (within _ _ _ _ found short reached)
              (within _ _ _ _ found brief again)
            exact (List.cons.inj same).2
        · apply distinct.imp
          intro left right different
          unfold Function.onFun
          rw [List.disjoint_left]
          intro table here there
          obtain ⟨next, found, inside⟩ := mem_branch.mp here
          obtain ⟨beyond, seen, within'⟩ := mem_branch.mp there
          obtain ⟨path, short, reached⟩ := (mem_sweep every depth next).mp inside
          obtain ⟨other, brief, again⟩ := (mem_sweep every depth beyond).mp within'
          have same := apart (left :: path) (right :: other) table (Nat.succ_le_succ short)
            (Nat.succ_le_succ brief) (within _ _ _ _ found short reached)
            (within _ _ _ _ seen brief again)
          exact different (List.cons.inj same).1
      · intro table member other last same
        rw [List.mem_singleton] at last
        subst last
        subst same
        obtain ⟨index, _, listed⟩ := List.mem_flatMap.mp member
        obtain ⟨next, found, inside⟩ := mem_branch.mp listed
        obtain ⟨path, short, reached⟩ := (mem_sweep every depth next).mp inside
        have looped := apart (index :: path) [] table (Nat.succ_le_succ short) (Nat.zero_le _)
          (within _ _ _ _ found short reached) rfl
        cases looped

theorem Tree.sweep_perm {indices : List Index} (tree : Tree child root depth tables)
    (every : ∀ index, index ∈ indices) (distinct : indices.Nodup) (once : tables.Nodup) :
    (sweep child indices depth root).Perm tables := by
  rw [List.perm_ext_iff_of_nodup (sweep_nodup every distinct depth root tree.apart) once]
  intro table
  rw [mem_sweep every]
  constructor
  · rintro ⟨path, within, reached⟩
    exact tree.reached path table within reached
  · exact tree.covered table

end LabKernel.Descent
