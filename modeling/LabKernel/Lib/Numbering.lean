/-
Numbers taken in turn from a counter. A key has a number of its own, or none, for which 0 stands.
Nothing here names a program.
-/

import Mathlib.Logic.Function.Basic

set_option autoImplicit false

namespace LabKernel.Numbering

/-- The numbers of the keys lie from `low` to below the counter, and no two keys share one. -/
structure Numbered {Key : Type} (low next : Nat) (number : Key → Nat) : Prop where
  inRange : ∀ key, number key ≠ 0 → low ≤ number key ∧ number key < next
  apart : ∀ key other, number key ≠ 0 → number key = number other → key = other

namespace Numbered

variable {Key : Type} {low next : Nat} {number number' : Key → Nat}

theorem drop (numbered : Numbered low next number)
    (fewer : ∀ key, number' key ≠ 0 → number' key = number key) : Numbered low next number' := by
  constructor
  · intro key nonzero
    have same := fewer key nonzero
    rw [same] at nonzero ⊢
    exact numbered.inRange key nonzero
  · intro key other nonzero same
    have here := fewer key nonzero
    have there := fewer other (same ▸ nonzero)
    apply numbered.apart key other
    · exact here ▸ nonzero
    · rw [← here, ← there, same]

theorem take (numbered : Numbered low next number) (above : low ≤ next) (key : Key)
    (taken : number' key = next) (kept : ∀ other, other ≠ key → number' other = number other) :
    Numbered low (next + 1) number' := by
  constructor
  · intro other nonzero
    by_cases same : other = key
    · rw [same, taken]
      omega
    · rw [kept other same] at nonzero ⊢
      have range := numbered.inRange other nonzero
      omega
  · intro left right nonzero equal
    by_cases leftKey : left = key
    · by_cases rightKey : right = key
      · rw [leftKey, rightKey]
      · rw [leftKey, taken, kept right rightKey] at equal
        rw [leftKey, taken, equal] at nonzero
        have range := numbered.inRange right nonzero
        omega
    · rw [kept left leftKey] at nonzero equal
      by_cases rightKey : right = key
      · rw [rightKey, taken] at equal
        have range := numbered.inRange left nonzero
        omega
      · rw [kept right rightKey] at equal
        exact numbered.apart left right nonzero equal

end Numbered

end LabKernel.Numbering
