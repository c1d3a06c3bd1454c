/-
Lists in the order of last use.

The entry used last is first. Using an entry moves it to the front, and making room takes out
one entry after the other, the one used least recently first, of those that may go. Nothing
here names a program.
-/

import Mathlib.Data.List.Basic
import Mathlib.Logic.Function.Iterate

set_option autoImplicit false

namespace LabKernel.Lru

section Eviction

variable {Entry : Type} (removable : Entry → Bool)

def evictOne (entries : List Entry) : List Entry := (entries.reverse.eraseP removable).reverse

/-- As many entries are gone as have to be for fewer than the threshold to be left, or all that
may go. -/
def evict (threshold : Nat) (entries : List Entry) : List Entry :=
  (evictOne removable)^[entries.length + 1 - threshold] entries

variable {removable} {threshold : Nat} {entries front kept : List Entry} {entry : Entry}

theorem evictOne_of_fixed (fixed : ∀ entry ∈ entries, removable entry = false) :
    evictOne removable entries = entries := by
  unfold evictOne
  rw [List.eraseP_of_forall_not, List.reverse_reverse]
  intro entry member
  rw [fixed entry (List.mem_reverse.mp member)]
  exact Bool.false_ne_true

theorem evictOne_eq (may : removable entry = true)
    (fixed : ∀ entry ∈ kept, removable entry = false) :
    evictOne removable (front ++ entry :: kept) = front ++ kept := by
  have outside : ∀ entry ∈ kept.reverse, ¬removable entry = true := by
    intro entry member
    rw [fixed entry (List.mem_reverse.mp member)]
    exact Bool.false_ne_true
  unfold evictOne
  rw [List.reverse_append, List.reverse_cons, List.append_assoc,
    List.eraseP_append_right _ outside, List.singleton_append, List.eraseP_cons_of_pos may,
    List.reverse_append, List.reverse_reverse, List.reverse_reverse]

theorem fixed_or_last (removable : Entry → Bool) (entries : List Entry) :
    (∀ entry ∈ entries, removable entry = false) ∨
      ∃ front entry kept, entries = front ++ entry :: kept ∧ removable entry = true ∧
        ∀ entry ∈ kept, removable entry = false := by
  induction entries with
  | nil =>
      left
      intro entry member
      cases member
  | cons first rest ih =>
      rcases ih with fixed | ⟨front, entry, kept, parts, may, fixed⟩
      · cases may : removable first with
        | true => exact Or.inr ⟨[], first, rest, rfl, may, fixed⟩
        | false =>
            left
            intro entry member
            rcases List.mem_cons.mp member with same | later
            · rw [same]
              exact may
            · exact fixed entry later
      · exact Or.inr ⟨first :: front, entry, kept, by rw [parts, List.cons_append], may, fixed⟩

theorem evict_of_small (small : entries.length < threshold) :
    evict removable threshold entries = entries := by
  unfold evict
  rw [Nat.sub_eq_zero_of_le small]
  rfl

theorem evict_of_fixed (fixed : ∀ entry ∈ entries, removable entry = false) :
    evict removable threshold entries = entries :=
  Function.iterate_fixed (evictOne_of_fixed fixed) _

theorem evict_eq (large : threshold ≤ (front ++ entry :: kept).length)
    (may : removable entry = true) (fixed : ∀ entry ∈ kept, removable entry = false) :
    evict removable threshold (front ++ entry :: kept) =
      evict removable threshold (front ++ kept) := by
  unfold evict
  have rounds : (front ++ entry :: kept).length + 1 - threshold =
      (front ++ kept).length + 1 - threshold + 1 := by
    simp only [List.length_append, List.length_cons] at large ⊢
    omega
  rw [rounds, Function.iterate_succ_apply, evictOne_eq may fixed]

theorem evict_induction (removable : Entry → Bool) (threshold : Nat) {P : List Entry → Prop}
    (small : ∀ entries, entries.length < threshold → P entries)
    (fixed : ∀ entries, (∀ entry ∈ entries, removable entry = false) → P entries)
    (gone : ∀ front entry kept, threshold ≤ (front ++ entry :: kept).length →
      removable entry = true → (∀ entry ∈ kept, removable entry = false) →
        P (front ++ kept) → P (front ++ entry :: kept))
    (entries : List Entry) : P entries := by
  by_cases large : threshold ≤ entries.length
  · rcases fixed_or_last removable entries with all | ⟨front, entry, kept, parts, may, rest⟩
    · exact fixed entries all
    · rw [parts] at large ⊢
      apply gone front entry kept large may rest
      exact evict_induction removable threshold small fixed gone (front ++ kept)
  · exact small entries (Nat.lt_of_not_le large)
termination_by entries.length
decreasing_by
  rw [parts, List.length_append, List.length_append, List.length_cons]
  omega

theorem evict_sublist : (evict removable threshold entries).Sublist entries := by
  induction entries using evict_induction removable threshold with
  | small entries small =>
      rw [evict_of_small small]
  | fixed entries fixed =>
      rw [evict_of_fixed fixed]
  | gone front entry kept large may fixed ih =>
      rw [evict_eq large may fixed]
      exact ih.trans ((List.sublist_cons_self entry kept).append_left front)

theorem mem_evict (stays : removable entry = false) (member : entry ∈ entries) :
    entry ∈ evict removable threshold entries := by
  induction entries using evict_induction removable threshold with
  | small entries small =>
      rw [evict_of_small small]
      exact member
  | fixed entries fixed =>
      rw [evict_of_fixed fixed]
      exact member
  | gone front other kept large may fixed ih =>
      rw [evict_eq large may fixed]
      apply ih
      rw [List.mem_append, List.mem_cons] at member
      rw [List.mem_append]
      rcases member with before | same | behind
      · exact Or.inl before
      · rw [same, may] at stays
        cases stays
      · exact Or.inr behind

/-- There is room afterwards, or nothing is left that may go. -/
theorem evict_length : (evict removable threshold entries).length < threshold ∨
    ∀ entry ∈ evict removable threshold entries, removable entry = false := by
  induction entries using evict_induction removable threshold with
  | small entries small =>
      rw [evict_of_small small]
      exact Or.inl small
  | fixed entries fixed =>
      rw [evict_of_fixed fixed]
      exact Or.inr fixed
  | gone front entry kept large may fixed ih =>
      rw [evict_eq large may fixed]
      exact ih

end Eviction

/-! ### The order of last use -/

section Recency

variable {Key : Type} [DecidableEq Key]

/-- The keys have been used, and stand in the order of their last use. The history begins with
the last use. -/
structure ByRecency (history keys : List Key) : Prop where
  used : ∀ key ∈ keys, key ∈ history
  ordered : keys.Pairwise (fun newer older => history.idxOf newer < history.idxOf older)

variable {history keys rest : List Key} {key : Key}

theorem ByRecency.nil : ByRecency history [] := by
  constructor
  · intro key member
    cases member
  · exact List.Pairwise.nil

theorem ByRecency.sublist (recent : ByRecency history keys) (fewer : rest.Sublist keys) :
    ByRecency history rest := by
  constructor
  · intro key member
    exact recent.used key (fewer.subset member)
  · exact recent.ordered.sublist fewer

theorem ByRecency.nodup (recent : ByRecency history keys) : keys.Nodup := by
  apply recent.ordered.imp
  intro newer older before same
  rw [same] at before
  exact Nat.lt_irrefl _ before

theorem ByRecency.use (recent : ByRecency history keys) (absent : key ∉ keys) :
    ByRecency (key :: history) (key :: keys) := by
  have later : ∀ other ∈ keys, (key :: history).idxOf other = history.idxOf other + 1 := by
    intro other member
    apply List.idxOf_cons_ne
    intro same
    rw [same] at absent
    exact absent member
  constructor
  · intro other member
    rcases List.mem_cons.mp member with same | older
    · rw [same]
      exact List.mem_cons_self
    · exact List.mem_cons_of_mem key (recent.used other older)
  · rw [List.pairwise_cons]
    constructor
    · intro other member
      rw [later other member, List.idxOf_cons_self]
      exact Nat.succ_pos _
    · apply recent.ordered.imp_of_mem
      intro newer older newerIn olderIn before
      rw [later newer newerIn, later older olderIn]
      exact Nat.succ_lt_succ before

end Recency

end LabKernel.Lru
