/-
`format.c`, with `strncmp` of `string.c`.

A `const char *` is the list of the bytes from it to the end of its object: to read behind the
terminator of a string is to read behind its object. The function that puts a character and its
context are parameters. The loop over the format takes the number of its rounds.
-/

import LabKernel.Lib.Numeral
import LabKernel.Lib.Outcome

set_option autoImplicit false

namespace LabKernel.Common

open Outcomes

/-! ### Characters and arguments -/

def byteOf (symbol : Char) : UInt8 := symbol.toNat.toUInt8

def bytesOf (text : String) : List UInt8 := text.toList.map byteOf

abbrev CharPtr := List UInt8

/-- A string that ends with its terminator, without it. -/
structure CString where
  chars : List UInt8
  plain : (0 : UInt8) ∉ chars
  deriving DecidableEq, Repr

def CString.ptr (text : CString) : CharPtr := text.chars ++ [0]

inductive IntType where
  | i32
  | u32
  | i64
  | u64
  deriving DecidableEq, Repr

abbrev IntType.isize : IntType := .i64

abbrev IntType.usize : IntType := .u64

inductive VaArg where
  | i32 (value : Int32)
  | u32 (value : UInt32)
  | i64 (value : Int64)
  | u64 (value : UInt64)
  | charPtr (value : Option CString)
  deriving DecidableEq

/-- Why the formatting stops early: a byte outside an object is read, `buf` is full, an argument is
missing or of another type, or the rounds are used up. -/
inductive FormatStop where
  | outside
  | overflow
  | argument
  | rounds
  deriving DecidableEq, Repr

/-- `(i64)va_arg(arg, type)`. -/
def vaArgInt : IntType → List VaArg → Except FormatStop (Int64 × List VaArg)
  | .i32, .i32 value :: arg => .ok (value.toInt64, arg)
  | .u32, .u32 value :: arg => .ok (value.toUInt64.toInt64, arg)
  | .i64, .i64 value :: arg => .ok (value, arg)
  | .u64, .u64 value :: arg => .ok (value.toInt64, arg)
  | _, _ => .error .argument

/-- `(char)va_arg(arg, int)`. -/
def vaArgChar : List VaArg → Except FormatStop (UInt8 × List VaArg)
  | .i32 value :: arg => .ok (value.toUInt32.toUInt8, arg)
  | _ => .error .argument

/-- `va_arg(arg, const char *)`. -/
def vaArgString : List VaArg → Except FormatStop (Option CharPtr × List VaArg)
  | .charPtr value :: arg => .ok (value.map CString.ptr, arg)
  | _ => .error .argument

def deref : CharPtr → Except FormatStop UInt8
  | [] => .error .outside
  | char :: _ => .ok char

def strncmp (s1 s2 : CharPtr) : Nat → Except FormatStop Int
  | 0 => .ok 0
  | n + 1 => do
      let c1 ← deref s1
      let c2 ← deref s2
      if c1 ≠ c2 then return c1.toNat - c2.toNat
      else if c1 = 0 ∨ c2 = 0 then return 0
      else strncmp s1.tail s2.tail n

/-! ### Integers -/

/-- Where the characters go, and the static buffer of `_print_int`. -/
structure Printer (Ctx : Type) where
  ctx : Ctx
  buf : Vector UInt8 64

def digitAt (index : UInt64) : Except FormatStop UInt8 :=
  match (bytesOf "0123456789abcdef" ++ [0])[index.toNat]? with
  | none => .error .outside
  | some symbol => .ok symbol

/-- `do *pos++ = digit[v % base]; while (v /= base);` -/
def digitLoop (base v : UInt64) (pos : Nat) (buf : Vector UInt8 64) :
    Except FormatStop (Nat × Vector UInt8 64) :=
  if within : pos < 64 then do
    let symbol ← digitAt (v % base)
    let buf := buf.set pos symbol
    if v / base ≠ 0 then digitLoop base (v / base) (pos + 1) buf
    else return (pos + 1, buf)
  else .error .overflow
termination_by 64 - pos

section Model

variable {Ctx : Type} (putChar : Ctx → UInt8 → Ctx)

def Printer.put (out : Printer Ctx) (char : UInt8) : Printer Ctx :=
  { out with ctx := putChar out.ctx char }

/-- `do put_char(ctx, *(--pos)); while (pos != buf);` -/
def putLoop (buf : Vector UInt8 64) : Nat → Ctx → Except FormatStop Ctx
  | 0, _ => .error .outside
  | pos + 1, ctx =>
      match buf[pos]? with
      | none => .error .outside
      | some symbol =>
          if pos ≠ 0 then putLoop buf pos (putChar ctx symbol) else .ok (putChar ctx symbol)

def printInt (out : Printer Ctx) (u : Int64) (base : Int32) (isSigned : Bool) :
    Except FormatStop (Printer Ctx) := do
  let negative := isSigned = true ∧ u < 0
  let v := if negative then -u.toUInt64 else u.toUInt64
  let ctx := if negative then putChar out.ctx (byteOf '-') else out.ctx
  let (pos, buf) ← digitLoop base.toInt64.toUInt64 v 0 out.buf
  let ctx ← putLoop putChar buf pos ctx
  return { ctx := ctx, buf := buf }

/-! ### The format -/

/-- `while (*s != '\0') put_char(ctx, *s++);` -/
def putString : CharPtr → Ctx → Except FormatStop Ctx
  | [], _ => .error .outside
  | char :: rest, ctx => if char ≠ 0 then putString rest (putChar ctx char) else .ok ctx

/-- One use of `_INT_CASE`. -/
structure IntCase where
  ident : List UInt8
  type : IntType
  base : Int32
  sign : Bool

def intCases : List IntCase :=
  [{ ident := bytesOf "u", type := .u32, base := 10, sign := false },
    { ident := bytesOf "llu", type := .u64, base := 10, sign := false },
    { ident := bytesOf "d", type := .i32, base := 10, sign := true },
    { ident := bytesOf "lld", type := .i64, base := 10, sign := true },
    { ident := bytesOf "x", type := .u32, base := 16, sign := false },
    { ident := bytesOf "llx", type := .u64, base := 16, sign := false },
    { ident := bytesOf "p", type := .u64, base := 16, sign := false },
    { ident := bytesOf "zu", type := .usize, base := 10, sign := false },
    { ident := bytesOf "zd", type := .isize, base := 10, sign := true }]

/-- The first use whose `strncmp` finds its `ident`. -/
def findCase (pos : CharPtr) : List IntCase → Except FormatStop (Option IntCase)
  | [] => .ok none
  | row :: rest => do
      let order ← strncmp pos (row.ident ++ [0]) row.ident.length
      if order = 0 then return some row else findCase pos rest

/-- What follows a `%`: whether it is special, and `pos`, the arguments and the output behind it. -/
def directive (pos : CharPtr) (arg : List VaArg) (out : Printer Ctx) :
    Except FormatStop (Bool × CharPtr × List VaArg × Printer Ctx) := do
  let next ← deref pos
  if next = byteOf '%' then return (true, pos.tail, arg, out.put putChar (byteOf '%'))
  else if next = byteOf 'c' then
    let (value, arg) ← vaArgChar arg
    return (true, pos.tail, arg, out.put putChar value)
  else if next = byteOf 's' then
    let (s, arg) ← vaArgString arg
    let ctx ← putString putChar (s.getD (bytesOf "(null)" ++ [0])) out.ctx
    return (true, pos.tail, arg, { out with ctx := ctx })
  else
    match ← findCase pos intCases with
    | none => return (false, pos, arg, out)
    | some row =>
        let (value, arg) ← vaArgInt row.type arg
        let out ← printInt putChar out value row.base row.sign
        return (true, pos.drop row.ident.length, arg, out)

def vformat : Nat → CharPtr → List VaArg → Printer Ctx →
    Except FormatStop (List VaArg × Printer Ctx)
  | 0, _, _, _ => .error .rounds
  | rounds + 1, pos, arg, out => do
      let c ← deref pos
      if c = 0 then return (arg, out)
      else
        let (special, pos, arg, out) ←
          if c = byteOf '%' then directive putChar pos.tail arg out
          else pure (false, pos.tail, arg, out)
        vformat rounds pos arg (if special then out else out.put putChar c)

end Model

/-! ### The digits -/

/-- The digits of `format.c` as an alphabet. -/
def asciiDigits : Numerals.Alphabet UInt8 where
  size := 16
  symbol value := UInt8.ofNat (if value < 10 then 48 + value else 87 + value)
  digit char :=
    if 48 ≤ char.toNat ∧ char.toNat < 58 then some (char.toNat - 48)
    else if 97 ≤ char.toNat ∧ char.toNat < 103 then some (char.toNat - 87)
    else none
  minus := byteOf '-'
  digit_symbol := by decide
  symbol_digit := by
    intro char value known
    have back : ∀ number : Nat, number = char.toNat → UInt8.ofNat number = char := by
      rintro number rfl
      exact UInt8.ofNat_toNat
    split at known
    · cases known
      refine ⟨by omega, back _ ?_⟩
      rw [if_pos (by omega)]
      omega
    · split at known
      · cases known
        refine ⟨by omega, back _ ?_⟩
        rw [if_neg (by omega)]
        omega
      · cases known
  digit_minus := by decide

theorem digitAt_eq {index : UInt64} (within : index.toNat < 16) :
    digitAt index = .ok (asciiDigits.symbol index.toNat) := by
  have listed : ∀ place, place < 16 →
      (bytesOf "0123456789abcdef" ++ [0])[place]? = some (asciiDigits.symbol place) := by
    decide
  unfold digitAt
  rw [listed _ within]

theorem take_set_succ (buf : Vector UInt8 64) {pos : Nat} (room : pos < 64) (symbol : UInt8) :
    (buf.set pos symbol).toList.take (pos + 1) = buf.toList.take pos ++ [symbol] := by
  have long : pos < (buf.toList.set pos symbol).length := by
    rw [List.length_set, Vector.length_toList]
    exact room
  rw [Vector.toList_set, ← List.take_append_getElem long, List.getElem_set_self,
    List.take_set_of_le (Nat.le_refl pos)]

/-- The digits stand in `buf` from the least significant on, and `pos` does not leave it. -/
theorem digitLoop_spec {base v : UInt64} (several : 1 < base.toNat) (fits : base.toNat ≤ 16)
    {pos : Nat} (buf : Vector UInt8 64) (room : pos < 64)
    (small : v.toNat < base.toNat ^ (64 - pos)) :
    ∃ after, digitLoop base v pos buf =
        .ok (pos + (Numerals.digits base.toNat v.toNat).length, after) ∧
      pos + (Numerals.digits base.toNat v.toNat).length ≤ 64 ∧
      after.toList.take (pos + (Numerals.digits base.toNat v.toNat).length) =
        buf.toList.take pos ++ (Numerals.digits base.toNat v.toNat).map asciiDigits.symbol := by
  induction left : 64 - pos generalizing v pos buf with
  | zero => omega
  | succ left ih =>
      have quotient : (v / base).toNat = v.toNat / base.toNat := UInt64.toNat_div _ _
      have symbol : digitAt (v % base) = .ok (asciiDigits.symbol (v.toNat % base.toNat)) := by
        rw [← UInt64.toNat_mod]
        apply digitAt_eq
        rw [UInt64.toNat_mod]
        exact Nat.lt_of_lt_of_le (Nat.mod_lt _ (Nat.zero_lt_of_lt several)) fits
      have written := take_set_succ buf room (asciiDigits.symbol (v.toNat % base.toNat))
      unfold digitLoop
      rw [dif_pos room, symbol, ok_bind, Numerals.digits_eq several, ← quotient]
      by_cases last : v / base = 0
      · have empty : (v / base).toNat = 0 := by
          rw [last]
          rfl
        rw [if_neg (not_not.mpr last), if_pos empty]
        exact ⟨_, rfl, room, written⟩
      · have more : (v / base).toNat ≠ 0 := by
          intro zero
          exact last (UInt64.toNat_inj.mp zero)
        -- What is left is below the power for the places that are left, so there is one.
        have shorter : (v / base).toNat < base.toNat ^ (64 - (pos + 1)) := by
          rw [quotient, Nat.div_lt_iff_lt_mul (Nat.zero_lt_of_lt several), ← Nat.pow_succ]
          have places : (64 - (pos + 1)).succ = 64 - pos := by omega
          rw [places]
          exact small
        have further : pos + 1 < 64 := by
          by_contra full
          have none : 64 - (pos + 1) = 0 := by omega
          rw [none, Nat.pow_zero] at shorter
          omega
        obtain ⟨after, looped, within, taken⟩ := ih _ further shorter (by omega)
        rw [if_pos last, if_neg more, List.length_cons, List.map_cons]
        have count : pos + ((Numerals.digits base.toNat (v / base).toNat).length + 1) =
            pos + 1 + (Numerals.digits base.toNat (v / base).toNat).length := by omega
        rw [count]
        refine ⟨after, looped, within, ?_⟩
        rw [taken, written, List.append_assoc]
        rfl

section Output

variable {Ctx : Type} {putChar : Ctx → UInt8 → Ctx}

theorem putLoop_succ (buf : Vector UInt8 64) {pos : Nat} (within : pos < 64) (ctx : Ctx) :
    putLoop putChar buf (pos + 1) ctx =
      if pos ≠ 0 then putLoop putChar buf pos (putChar ctx buf[pos])
      else .ok (putChar ctx buf[pos]) := by
  have top : buf[pos]? = some buf[pos] := Vector.getElem?_eq_getElem within
  conv_lhs => unfold putLoop
  rw [top]

theorem putLoop_spec (buf : Vector UInt8 64) {pos : Nat} (within : pos < 64) (ctx : Ctx) :
    putLoop putChar buf (pos + 1) ctx =
      .ok ((buf.toList.take (pos + 1)).reverse.foldl putChar ctx) := by
  have long : pos < buf.toList.length := by
    rw [Vector.length_toList]
    exact within
  rw [putLoop_succ buf within, List.take_succ_eq_append_getElem long, List.reverse_concat,
    List.foldl_cons, Vector.getElem_toList]
  induction pos generalizing ctx with
  | zero => rfl
  | succ pos ih =>
      have below : pos < buf.toList.length := Nat.lt_of_succ_lt long
      rw [if_pos (Nat.succ_ne_zero pos), putLoop_succ buf (Nat.lt_of_succ_lt within),
        List.take_succ_eq_append_getElem below, List.reverse_concat, List.foldl_cons,
        Vector.getElem_toList]
      exact ih (Nat.lt_of_succ_lt within) _ below

theorem toInt_cond (u : Int64) :
    u.toInt = if 2 * u.toUInt64.toNat < 2 ^ 64 then (u.toUInt64.toNat : Int)
      else (u.toUInt64.toNat : Int) - 2 ^ 64 :=
  BitVec.toInt_eq_toNat_cond u.toBitVec

/-- Negating the most negative number as an unsigned one gives its distance from zero as well. -/
theorem neg_toNat {u : Int64} (negative : u < 0) : (-u.toUInt64).toNat = u.toInt.natAbs := by
  have below : u.toInt < 0 := Int64.lt_iff_toInt_lt.mp negative
  have cond := toInt_cond u
  have bound := u.toUInt64.toNat_lt
  have size : UInt64.size = 2 ^ 64 := rfl
  rw [UInt64.toNat_neg, size]
  split at cond <;> omega

theorem pos_toNat {u : Int64} (positive : ¬u < 0) : (u.toUInt64.toNat : Int) = u.toInt := by
  have above : ¬u.toInt < 0 := fun below => positive (Int64.lt_iff_toInt_lt.mpr below)
  have cond := toInt_cond u
  have bound := u.toUInt64.toNat_lt
  split at cond <;> omega

theorem putDigits {base : UInt64} (several : 1 < base.toNat) (fits : base.toNat ≤ 16) (v : UInt64)
    (buf : Vector UInt8 64) (putChar : Ctx → UInt8 → Ctx) (ctx : Ctx) :
    ∃ pos after, digitLoop base v 0 buf = .ok (pos, after) ∧ putLoop putChar after pos ctx =
      .ok ((asciiDigits.numeralNat base.toNat v.toNat).foldl putChar ctx) := by
  have small : v.toNat < base.toNat ^ (64 - 0) :=
    Nat.lt_of_lt_of_le v.toNat_lt (Nat.pow_le_pow_left several 64)
  obtain ⟨after, looped, within, taken⟩ := digitLoop_spec several fits buf (by decide) small
  obtain ⟨top, count⟩ := Nat.exists_eq_add_one_of_ne_zero
    (mt List.length_eq_zero_iff.mp (Numerals.digits_ne_nil base.toNat v.toNat))
  rw [Nat.zero_add] at looped within taken
  rw [List.take_zero, List.nil_append] at taken
  refine ⟨_, after, looped, ?_⟩
  rw [count] at within taken ⊢
  rw [putLoop_spec after within ctx, taken]
  rfl

theorem printInt_spec (putChar : Ctx → UInt8 → Ctx) (out : Printer Ctx) (u : Int64) {base : Int32}
    (several : 1 < base.toInt64.toUInt64.toNat) (fits : base.toInt64.toUInt64.toNat ≤ 16)
    (isSigned : Bool) :
    ∃ buf, printInt putChar out u base isSigned = .ok
      { ctx := (asciiDigits.numeral base.toInt64.toUInt64.toNat
          (if isSigned = true then u.toInt else u.toUInt64.toNat)).foldl putChar out.ctx
        buf := buf } := by
  unfold printInt
  by_cases negative : isSigned = true ∧ u < 0
  · obtain ⟨pos, after, looped, put⟩ := putDigits several fits (-u.toUInt64) out.buf putChar
      (putChar out.ctx (byteOf '-'))
    have below : u.toInt < 0 := Int64.lt_iff_toInt_lt.mp negative.2
    simp only [if_pos negative, looped, ok_bind, put, if_pos negative.1]
    refine ⟨after, ?_⟩
    rw [neg_toNat negative.2]
    unfold Numerals.Alphabet.numeral
    rw [if_pos below]
    rfl
  · obtain ⟨pos, after, looped, put⟩ := putDigits several fits u.toUInt64 out.buf putChar
      out.ctx
    have shown : (if isSigned = true then u.toInt else u.toUInt64.toNat) =
        (u.toUInt64.toNat : Int) := by
      split
      · rename_i signed
        exact (pos_toNat (fun below => negative ⟨signed, below⟩)).symm
      · rfl
    simp only [if_neg negative, looped, ok_bind, put, shown]
    refine ⟨after, ?_⟩
    unfold Numerals.Alphabet.numeral
    rw [if_neg (Int.not_lt.mpr (Int.natCast_nonneg _)), Int.natAbs_natCast]
    rfl

theorem putString_spec {text : List UInt8} (plain : (0 : UInt8) ∉ text) (ctx : Ctx) :
    putString putChar (text ++ [0]) ctx = .ok (text.foldl putChar ctx) := by
  induction text generalizing ctx with
  | nil => rfl
  | cons char rest ih =>
      rw [List.mem_cons, not_or] at plain
      rw [List.cons_append, List.foldl_cons, ← ih plain.2]
      exact if_pos (Ne.symm plain.1)

end Output

/-! ### The specifiers -/

theorem deref_terminated (text : List UInt8) : deref (text ++ [0]) = .ok (text.headD 0) := by
  cases text with
  | nil => rfl
  | cons char rest => rfl

/-- `strncmp` stops at the terminator or finds the specifier in front of it. -/
theorem strncmp_spec {ident : List UInt8} (named : (0 : UInt8) ∉ ident) (text : List UInt8) :
    ∃ order, strncmp (text ++ [0]) (ident ++ [0]) ident.length = .ok order ∧
      (order = 0 ↔ ident.isPrefixOf text = true) := by
  induction ident generalizing text with
  | nil => exact ⟨0, rfl, iff_of_true rfl rfl⟩
  | cons char ident ih =>
      rw [List.mem_cons, not_or] at named
      have step : strncmp (text ++ [0]) (char :: ident ++ [0]) (ident.length + 1) =
          if text.headD 0 ≠ char then .ok ((text.headD 0).toNat - char.toNat : Int)
          else if text.headD 0 = 0 ∨ char = 0 then .ok 0
          else strncmp (text ++ [0]).tail (ident ++ [0]) ident.length := by
        rw [strncmp, deref_terminated, ok_bind]
        rfl
      rw [List.length_cons, step]
      by_cases same : text.headD 0 = char
      · rw [if_neg (not_not.mpr same), if_neg]
        · cases text with
          | nil => exact absurd same named.1
          | cons head rest =>
              obtain ⟨order, compared, found⟩ := ih named.2 rest
              refine ⟨order, compared, found.trans ?_⟩
              rw [List.isPrefixOf_cons_cons, Bool.and_eq_true, beq_iff_eq]
              exact (and_iff_right same.symm).symm
        · rw [same, or_self]
          exact Ne.symm named.1
      · rw [if_pos same]
        refine ⟨_, rfl, iff_of_false ?_ ?_⟩
        · intro zero
          apply same
          rw [← UInt8.toNat_inj]
          omega
        · intro begins
          cases text with
          | nil => cases begins
          | cons head rest =>
              rw [List.isPrefixOf_cons_cons, Bool.and_eq_true, beq_iff_eq] at begins
              exact same begins.1.symm

theorem findCase_spec {cases : List IntCase} (named : ∀ row ∈ cases, (0 : UInt8) ∉ row.ident)
    (text : List UInt8) :
    findCase (text ++ [0]) cases = .ok (cases.find? (fun row => row.ident.isPrefixOf text)) := by
  induction cases with
  | nil => rfl
  | cons row rest ih =>
      obtain ⟨order, compared, found⟩ := strncmp_spec (named row List.mem_cons_self) text
      unfold findCase
      rw [compared, ok_bind]
      by_cases begins : row.ident.isPrefixOf text = true
      · rw [if_pos (found.mpr begins), List.find?_cons, begins]
        rfl
      · rw [if_neg (mt found.mp begins), List.find?_cons, Bool.eq_false_iff.mpr begins]
        exact ih (fun other member => named other (List.mem_cons_of_mem row member))

end LabKernel.Common
