/-
Exclusive ownership of tokens by places.

Every place holds a list of tokens, and no token is held twice, neither at one
place nor at two. Handing tokens around among finitely many places, or dropping
some, keeps that. Nothing here names a program.
-/

import Mathlib.Data.List.Nodup
import Mathlib.Data.List.Pairwise
import Mathlib.Data.List.Perm.Subperm
import Mathlib.Logic.Function.Basic

set_option autoImplicit false

namespace LabKernel.Ownership

variable {Place Token : Type}

structure Exclusive (holds : Place → List Token) : Prop where
  once : ∀ place, (holds place).Nodup
  apart : ∀ left right token, token ∈ holds left → token ∈ holds right → left = right

namespace Exclusive

variable {holds after : Place → List Token}

theorem disjoint (exclusive : Exclusive holds) {left right : Place} (different : left ≠ right) :
    (holds left).Disjoint (holds right) := by
  intro token here there
  exact different (exclusive.apart left right token here there)

theorem nodup_flatMap (exclusive : Exclusive holds) {places : List Place}
    (distinct : places.Nodup) : (places.flatMap holds).Nodup := by
  rw [List.nodup_flatMap]
  constructor
  · intro place _
    exact exclusive.once place
  · exact distinct.imp (fun different => exclusive.disjoint different)

/-- Some places share out again what they held together, or less; the other places keep
theirs. -/
theorem redistribute (exclusive : Exclusive holds) (places : List Place)
    (distinct : places.Nodup) (others : ∀ place, place ∉ places → after place = holds place)
    (shared : (places.flatMap after).Subperm (places.flatMap holds)) : Exclusive after := by
  have nodup : (places.flatMap after).Nodup := by
    obtain ⟨whole, perm, sublist⟩ := shared
    exact perm.nodup_iff.mp (sublist.nodup (exclusive.nodup_flatMap distinct))
  obtain ⟨each, pairwise⟩ := List.nodup_flatMap.mp nodup
  have foreign {place other : Place} (inside : place ∈ places) (outside : other ∉ places)
      {token : Token} (here : token ∈ after place) : token ∉ after other := by
    intro there
    have before := shared.subset (List.mem_flatMap.mpr ⟨place, inside, here⟩)
    obtain ⟨owner, member, held⟩ := List.mem_flatMap.mp before
    rw [others other outside] at there
    rw [exclusive.apart owner other token held there] at member
    exact outside member
  constructor
  · intro place
    by_cases inside : place ∈ places
    · exact each place inside
    · rw [others place inside]
      exact exclusive.once place
  · intro left right token here there
    by_cases leftInside : left ∈ places <;> by_cases rightInside : right ∈ places
    · by_contra different
      have symmetric : Std.Symm (Function.onFun List.Disjoint after) :=
        ⟨fun _ _ apart token here there => apart there here⟩
      exact pairwise.forall leftInside rightInside different here there
    · exact absurd there (foreign leftInside rightInside here)
    · exact absurd here (foreign rightInside leftInside there)
    · rw [others left leftInside] at here
      rw [others right rightInside] at there
      exact exclusive.apart left right token here there

theorem insert [DecidableEq Place] (exclusive : Exclusive holds) {token : Token}
    (fresh : ∀ place, token ∉ holds place) (target : Place) :
    Exclusive (Function.update holds target (token :: holds target)) := by
  have member {place : Place} {other : Token}
      (held : other ∈ Function.update holds target (token :: holds target) place) :
      (other = token ∧ place = target) ∨ other ∈ holds place := by
    by_cases same : place = target
    · rw [same, Function.update_self] at held
      rcases List.mem_cons.mp held with equal | before
      · exact Or.inl ⟨equal, same⟩
      · rw [same]
        exact Or.inr before
    · rw [Function.update_of_ne same] at held
      exact Or.inr held
  constructor
  · intro place
    by_cases same : place = target
    · rw [same, Function.update_self, List.nodup_cons]
      exact ⟨fresh target, exclusive.once target⟩
    · rw [Function.update_of_ne same]
      exact exclusive.once place
  · intro left right other here there
    rcases member here with ⟨leftNew, leftPlace⟩ | leftOld <;>
      rcases member there with ⟨rightNew, rightPlace⟩ | rightOld
    · exact leftPlace.trans rightPlace.symm
    · exact absurd (leftNew ▸ rightOld) (fresh right)
    · exact absurd (rightNew ▸ leftOld) (fresh left)
    · exact exclusive.apart left right other leftOld rightOld

end Exclusive

end LabKernel.Ownership
