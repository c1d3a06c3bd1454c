/-
Numerals of integers.

An alphabet has a symbol for each digit of the bases up to its size, and a sign. A text is read
from its most significant digit on, with the sign in front of a negative number; the numeral of a
number is the one text without a leading zero that is read as it. Nothing here names a program.
-/

import Mathlib.Data.Nat.Digits.Lemmas

set_option autoImplicit false

namespace LabKernel.Numerals

/-- Symbols for the digits below a bound, and a sign that is none of them. -/
structure Alphabet (Symbol : Type) where
  size : Nat
  symbol : Nat → Symbol
  digit : Symbol → Option Nat
  minus : Symbol
  digit_symbol : ∀ value, value < size → digit (symbol value) = some value
  symbol_digit : ∀ mark value, digit mark = some value → value < size ∧ symbol value = mark
  digit_minus : digit minus = none

/-- The digits of a number, the least significant first. Zero has one. -/
def digits (base value : Nat) : List Nat := if value = 0 then [0] else Nat.digits base value

namespace Alphabet

variable {Symbol : Type} (alphabet : Alphabet Symbol)

/-- Read the digits behind those that made a number. -/
def readFrom (base : Nat) : Nat → List Symbol → Option Nat
  | value, [] => some value
  | value, mark :: rest =>
      match alphabet.digit mark with
      | some digit => if digit < base then readFrom base (value * base + digit) rest else none
      | none => none

/-- A number has at least one digit. -/
def readNat (base : Nat) : List Symbol → Option Nat
  | [] => none
  | mark :: rest => alphabet.readFrom base 0 (mark :: rest)

def numeralNat (base value : Nat) : List Symbol :=
  ((digits base value).map alphabet.symbol).reverse

def Signed (text : List Symbol) : Prop := text.head? = some alphabet.minus

variable [DecidableEq Symbol]

instance (text : List Symbol) : Decidable (alphabet.Signed text) :=
  inferInstanceAs (Decidable (text.head? = some alphabet.minus))

def unsigned (text : List Symbol) : List Symbol :=
  if alphabet.Signed text then text.tail else text

def readInt (base : Nat) (text : List Symbol) : Option Int :=
  (alphabet.readNat base (alphabet.unsigned text)).map
    (fun value : Nat => if alphabet.Signed text then -(value : Int) else (value : Int))

/-- The text is read as the number, has a sign only for a negative one, and no leading zero. -/
structure IsNumeral (base : Nat) (value : Int) (text : List Symbol) : Prop where
  reads : alphabet.readInt base text = some value
  signed : alphabet.Signed text ↔ value < 0
  short : (alphabet.unsigned text).head? = some (alphabet.symbol 0) →
    (alphabet.unsigned text).length = 1

def numeral (base : Nat) (value : Int) : List Symbol :=
  if value < 0 then alphabet.minus :: alphabet.numeralNat base value.natAbs
  else alphabet.numeralNat base value.natAbs

end Alphabet

/-! ### Digits -/

section Digits

variable {base value : Nat}

theorem digits_ne_nil (base value : Nat) : digits base value ≠ [] := by
  unfold digits
  split
  · exact List.cons_ne_nil 0 []
  · rename_i positive
    exact Nat.digits_ne_nil_iff_ne_zero.mpr positive

theorem digits_eq (several : 1 < base) (value : Nat) :
    digits base value =
      value % base :: if value / base = 0 then [] else digits base (value / base) := by
  unfold digits
  by_cases zero : value = 0
  · rw [if_pos zero, zero, Nat.zero_div, if_pos rfl, Nat.zero_mod]
  · rw [if_neg zero, Nat.digits_def' several (Nat.pos_of_ne_zero zero)]
    by_cases small : value / base = 0
    · rw [if_pos small, small, Nat.digits_zero]
    · rw [if_neg small, if_neg small]

theorem digits_lt (several : 1 < base) {digit : Nat} (member : digit ∈ digits base value) :
    digit < base := by
  unfold digits at member
  split at member
  · rw [List.mem_singleton.mp member]
    exact Nat.zero_lt_of_lt several
  · exact Nat.digits_lt_base several member

theorem ofDigits_digits (base value : Nat) : Nat.ofDigits base (digits base value) = value := by
  unfold digits
  split
  · rename_i zero
    rw [zero, Nat.ofDigits_singleton]
  · exact Nat.ofDigits_digits base value

theorem digits_getLast (base value : Nat) (zero : (digits base value).getLast? = some 0) :
    (digits base value).length = 1 := by
  unfold digits at zero ⊢
  split
  · rfl
  · rename_i positive
    rw [if_neg positive, List.getLast?_eq_getLast_of_ne_nil
      (Nat.digits_ne_nil_iff_ne_zero.mpr positive)] at zero
    exact absurd (Option.some.inj zero) (Nat.getLast_digit_ne_zero base positive)

theorem digits_ofDigits (several : 1 < base) {places : List Nat} (any : places ≠ [])
    (below : ∀ digit ∈ places, digit < base)
    (short : places.getLast? = some 0 → places.length = 1) :
    digits base (Nat.ofDigits base places) = places := by
  by_cases zero : places.getLast? = some 0
  · obtain ⟨digit, rfl⟩ := List.length_eq_one_iff.mp (short zero)
    cases zero
    rfl
  · have leading : ∀ nonempty : places ≠ [], places.getLast nonempty ≠ 0 := by
      intro nonempty equal
      apply zero
      rw [List.getLast?_eq_getLast_of_ne_nil nonempty, equal]
    have same := Nat.digits_ofDigits base several places below leading
    unfold digits
    rw [if_neg, same]
    intro nothing
    rw [nothing, Nat.digits_zero] at same
    exact any same.symm

/-- Digits are read by multiplying and adding, the most significant first. -/
theorem foldl_eq_ofDigits (base : Nat) (places : List Nat) :
    places.foldl (fun value digit => value * base + digit) 0 =
      Nat.ofDigits base places.reverse := by
  rw [Nat.ofDigits_eq_foldr, List.foldr_reverse]
  congr 1
  funext value digit
  rw [Nat.mul_comm, Nat.add_comm]
  rfl

end Digits

/-! ### Reading -/

namespace Alphabet

variable {Symbol : Type} {alphabet : Alphabet Symbol} {base : Nat}

theorem readFrom_symbols (fits : base ≤ alphabet.size) {places : List Nat}
    (below : ∀ digit ∈ places, digit < base) (start : Nat) :
    alphabet.readFrom base start (places.map alphabet.symbol) =
      some (places.foldl (fun value digit => value * base + digit) start) := by
  induction places generalizing start with
  | nil => rfl
  | cons digit rest ih =>
      have small := below digit List.mem_cons_self
      have later : ∀ other ∈ rest, other < base :=
        fun other member => below other (List.mem_cons_of_mem digit member)
      rw [List.map_cons, List.foldl_cons, ← ih later]
      conv_lhs => unfold readFrom
      rw [alphabet.digit_symbol digit (Nat.lt_of_lt_of_le small fits)]
      exact if_pos small

theorem symbols_of_readFrom {text : List Symbol} {start value : Nat}
    (read : alphabet.readFrom base start text = some value) :
    ∃ places : List Nat, text = places.map alphabet.symbol ∧ (∀ digit ∈ places, digit < base) ∧
      value = places.foldl (fun value digit => value * base + digit) start := by
  induction text generalizing start with
  | nil =>
      refine ⟨[], rfl, ?_, (Option.some.inj read).symm⟩
      intro digit member
      cases member
  | cons mark rest ih =>
      unfold readFrom at read
      cases known : alphabet.digit mark with
      | none =>
          rw [known] at read
          cases read
      | some digit =>
          rw [known] at read
          by_cases small : digit < base
          · simp only [if_pos small] at read
            obtain ⟨places, rfl, below, rfl⟩ := ih read
            refine ⟨digit :: places, ?_, ?_, rfl⟩
            · rw [List.map_cons, (alphabet.symbol_digit mark digit known).2]
            · intro other member
              rcases List.mem_cons.mp member with rfl | behind
              · exact small
              · exact below other behind
          · simp only [if_neg small] at read
            cases read

variable {value : Nat}

theorem numeralNat_ne_nil (alphabet : Alphabet Symbol) (base value : Nat) :
    alphabet.numeralNat base value ≠ [] := by
  unfold numeralNat
  rw [ne_eq, List.reverse_eq_nil_iff, List.map_eq_nil_iff]
  exact digits_ne_nil base value

theorem readNat_eq {text : List Symbol} (any : text ≠ []) :
    alphabet.readNat base text = alphabet.readFrom base 0 text := by
  cases text with
  | nil => exact absurd rfl any
  | cons mark rest => rfl

theorem readNat_numeralNat (several : 1 < base) (fits : base ≤ alphabet.size) :
    alphabet.readNat base (alphabet.numeralNat base value) = some value := by
  rw [readNat_eq (numeralNat_ne_nil alphabet base value)]
  unfold numeralNat
  rw [← List.map_reverse, readFrom_symbols fits, foldl_eq_ofDigits, List.reverse_reverse,
    ofDigits_digits]
  intro digit member
  exact digits_lt several (List.mem_reverse.mp member)

theorem symbol_inj (alphabet : Alphabet Symbol) {left right : Nat} (first : left < alphabet.size)
    (second : right < alphabet.size) (same : alphabet.symbol left = alphabet.symbol right) :
    left = right := by
  have known := alphabet.digit_symbol left first
  rw [same, alphabet.digit_symbol right second] at known
  exact (Option.some.inj known).symm

theorem numeralNat_short (several : 1 < base) (fits : base ≤ alphabet.size)
    (zero : (alphabet.numeralNat base value).head? = some (alphabet.symbol 0)) :
    (alphabet.numeralNat base value).length = 1 := by
  unfold numeralNat at zero ⊢
  rw [List.head?_reverse, List.getLast?_map, Option.map_eq_some_iff] at zero
  obtain ⟨digit, last, same⟩ := zero
  have small := digits_lt several (List.mem_of_getLast? last)
  rw [alphabet.symbol_inj (by omega) (by omega) same] at last
  rw [List.length_reverse, List.length_map]
  exact digits_getLast base value last

/-- Digits without a leading zero are the numeral of what they are read as. -/
theorem eq_numeralNat (several : 1 < base) {text : List Symbol}
    (read : alphabet.readFrom base 0 text = some value) (any : text ≠ [])
    (short : text.head? = some (alphabet.symbol 0) → text.length = 1) :
    text = alphabet.numeralNat base value := by
  obtain ⟨places, rfl, below, rfl⟩ := symbols_of_readFrom read
  rw [foldl_eq_ofDigits]
  unfold numeralNat
  rw [digits_ofDigits several, List.map_reverse, List.reverse_reverse]
  · rw [ne_eq, List.reverse_eq_nil_iff]
    rintro rfl
    exact any rfl
  · intro digit member
    exact below digit (List.mem_reverse.mp member)
  · intro zero
    rw [List.getLast?_reverse] at zero
    rw [List.head?_map, zero, List.length_map] at short
    rw [List.length_reverse]
    exact short rfl

theorem not_signed_numeralNat (several : 1 < base) (fits : base ≤ alphabet.size) :
    ¬alphabet.Signed (alphabet.numeralNat base value) := by
  intro signed
  have member : alphabet.minus ∈ alphabet.numeralNat base value := List.mem_of_head? signed
  unfold numeralNat at member
  rw [List.mem_reverse, List.mem_map] at member
  obtain ⟨digit, listed, same⟩ := member
  have known := alphabet.digit_symbol digit (Nat.lt_of_lt_of_le (digits_lt several listed) fits)
  rw [same, alphabet.digit_minus] at known
  cases known

variable [DecidableEq Symbol]

theorem unsigned_numeral (several : 1 < base) (fits : base ≤ alphabet.size) (value : Int) :
    alphabet.unsigned (alphabet.numeral base value) = alphabet.numeralNat base value.natAbs ∧
      (alphabet.Signed (alphabet.numeral base value) ↔ value < 0) := by
  unfold numeral
  split
  · rename_i negative
    have signed : alphabet.Signed
        (alphabet.minus :: alphabet.numeralNat base value.natAbs) := rfl
    constructor
    · unfold unsigned
      rw [if_pos signed]
      rfl
    · exact iff_of_true signed negative
  · rename_i positive
    have plain : ¬alphabet.Signed (alphabet.numeralNat base value.natAbs) :=
      not_signed_numeralNat several fits
    constructor
    · unfold unsigned
      rw [if_neg plain]
    · exact iff_of_false plain positive

theorem numeral_isNumeral (several : 1 < base) (fits : base ≤ alphabet.size) (value : Int) :
    alphabet.IsNumeral base value (alphabet.numeral base value) := by
  obtain ⟨behind, signed⟩ := alphabet.unsigned_numeral several fits value
  constructor
  case reads =>
      unfold readInt
      rw [behind, readNat_numeralNat several fits, Option.map_some, Option.some_inj]
      split
      · rename_i negative
        have := signed.mp negative
        omega
      · rename_i positive
        have := mt signed.mpr positive
        omega
  case signed => exact signed
  case short =>
      rw [behind]
      exact numeralNat_short several fits

theorem IsNumeral.eq_numeral (several : 1 < base) {value : Int} {text : List Symbol}
    (shown : alphabet.IsNumeral base value text) : text = alphabet.numeral base value := by
  have reads := shown.reads
  unfold readInt at reads
  rw [Option.map_eq_some_iff] at reads
  obtain ⟨size, read, number⟩ := reads
  have absolute : size = value.natAbs := by
    split at number <;> omega
  have any : alphabet.unsigned text ≠ [] := by
    intro empty
    rw [empty] at read
    cases read
  rw [readNat_eq any] at read
  have behind : alphabet.unsigned text = alphabet.numeralNat base size :=
    eq_numeralNat several read any shown.short
  rw [absolute] at behind
  unfold numeral
  rw [← behind]
  unfold unsigned
  by_cases signed : alphabet.Signed text
  · rw [if_pos (shown.signed.mp signed), if_pos signed]
    exact (List.cons_head?_tail signed).symm
  · rw [if_neg (mt shown.signed.mpr signed), if_neg signed]

end Alphabet

end LabKernel.Numerals
