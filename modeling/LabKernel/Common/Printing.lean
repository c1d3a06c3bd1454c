/-
What `vformat` prints.

A format is a list of pieces: characters that are copied, a `%` with no specifier behind it among
them, and specifiers. A specifier other than `%%` takes one argument of its own type, and shows an
integer by a numeral that is read back as the integer. No specifier begins with another one, so
the order in which the code tries them does not matter.
-/

import LabKernel.Common.Format

set_option autoImplicit false

namespace LabKernel.Common

open Outcomes

/-! ### What is to be printed -/

/-- The specifiers that show an integer. -/
inductive Conversion where
  | u
  | llu
  | d
  | lld
  | x
  | llx
  | p
  | zu
  | zd
  deriving DecidableEq, Repr

namespace Conversion

def all : List Conversion := [.u, .llu, .d, .lld, .x, .llx, .p, .zu, .zd]

def text : Conversion → List UInt8
  | u => bytesOf "u"
  | llu => bytesOf "llu"
  | d => bytesOf "d"
  | lld => bytesOf "lld"
  | x => bytesOf "x"
  | llx => bytesOf "llx"
  | p => bytesOf "p"
  | zu => bytesOf "zu"
  | zd => bytesOf "zd"

def type : Conversion → IntType
  | u | x => .u32
  | d => .i32
  | llu | llx | p | zu => .u64
  | lld | zd => .i64

def base : Conversion → Nat
  | x | llx | p => 16
  | _ => 10

end Conversion

inductive Specifier where
  | percent
  | c
  | s
  | int (conversion : Conversion)
  deriving DecidableEq, Repr

def Specifier.text : Specifier → List UInt8
  | percent => bytesOf "%"
  | c => bytesOf "c"
  | s => bytesOf "s"
  | int conversion => conversion.text

def Specifier.all : List Specifier := [.percent, .c, .s] ++ Conversion.all.map .int

def recognised (text : List UInt8) : Option Specifier :=
  Specifier.all.find? (fun spec => spec.text.isPrefixOf text)

inductive Piece where
  | copied (char : UInt8)
  | special (spec : Specifier)
  deriving DecidableEq, Repr

def formatPieces : List UInt8 → List Piece
  | [] => []
  | char :: rest =>
      if char = byteOf '%' then
        match recognised rest with
        | none => .copied char :: formatPieces rest
        | some spec => .special spec :: formatPieces (rest.drop spec.text.length)
      else .copied char :: formatPieces rest
termination_by text => text.length
decreasing_by all_goals simp only [List.length_cons, List.length_drop]; omega

inductive VaType where
  | int (type : IntType)
  | charPtr
  deriving DecidableEq, Repr

def VaArg.type : VaArg → VaType
  | .i32 _ => .int .i32
  | .u32 _ => .int .u32
  | .i64 _ => .int .i64
  | .u64 _ => .int .u64
  | .charPtr _ => .charPtr

def VaArg.number : VaArg → Option Int
  | .i32 value => some value.toInt
  | .u32 value => some value.toNat
  | .i64 value => some value.toInt
  | .u64 value => some value.toNat
  | .charPtr _ => none

def Specifier.wants : Specifier → Option VaType
  | percent => none
  | c => some (.int .i32)
  | s => some .charPtr
  | int conversion => some (.int conversion.type)

def Piece.wants : Piece → Option VaType
  | copied _ => none
  | special spec => spec.wants

/-- What a specifier makes of its argument. -/
inductive Specifier.Shows : Specifier → VaArg → List UInt8 → Prop
  | char (value : Int32) : Shows .c (.i32 value) [value.toUInt32.toUInt8]
  | null : Shows .s (.charPtr none) (bytesOf "(null)")
  | string (value : CString) : Shows .s (.charPtr (some value)) value.chars
  | int {conversion : Conversion} {arg : VaArg} {value : Int} {text : List UInt8}
      (typed : arg.type = .int conversion.type) (number : arg.number = some value)
      (numeral : asciiDigits.IsNumeral conversion.base value text) :
      Shows (.int conversion) arg text

/-- The text that pieces make of exactly these arguments. -/
inductive Emits : List Piece → List VaArg → List UInt8 → Prop
  | nil : Emits [] [] []
  | copied {pieces : List Piece} {args : List VaArg} {text : List UInt8} (char : UInt8)
      (rest : Emits pieces args text) : Emits (.copied char :: pieces) args (char :: text)
  | percent {pieces : List Piece} {args : List VaArg} {text : List UInt8}
      (rest : Emits pieces args text) :
      Emits (.special .percent :: pieces) args (byteOf '%' :: text)
  | shown {pieces : List Piece} {args : List VaArg} {text part : List UInt8} {spec : Specifier}
      {arg : VaArg} (shows : spec.Shows arg part) (rest : Emits pieces args text) :
      Emits (.special spec :: pieces) (arg :: args) (part ++ text)

/-! ### The text is determined -/

theorem Conversion.base_fits (conversion : Conversion) :
    1 < conversion.base ∧ conversion.base ≤ asciiDigits.size := by
  cases conversion <;> decide

theorem Specifier.Shows.unique {spec : Specifier} {arg : VaArg} {text other : List UInt8}
    (shows : spec.Shows arg text) (again : spec.Shows arg other) : other = text := by
  cases shows with
  | char value =>
      cases again
      rfl
  | null =>
      cases again
      rfl
  | string value =>
      cases again
      rfl
  | @int conversion arg value text typed number numeral =>
      cases again with
      | int _ number' numeral' =>
          rw [number] at number'
          cases number'
          rw [numeral.eq_numeral conversion.base_fits.1, numeral'.eq_numeral conversion.base_fits.1]

theorem Emits.unique {pieces : List Piece} {args : List VaArg} {text other : List UInt8}
    (emits : Emits pieces args text) (again : Emits pieces args other) : other = text := by
  induction emits generalizing other with
  | nil =>
      cases again
      rfl
  | copied char rest ih =>
      cases again with
      | copied _ rest' => rw [ih rest']
  | percent rest ih =>
      cases again with
      | percent rest' => rw [ih rest']
      | shown shows _ => cases shows
  | shown shows rest ih =>
      cases again with
      | percent _ => cases shows
      | shown shows' rest' => rw [shows.unique shows', ih rest']

/-! ### How the code finds a specifier -/

def IntType.signed : IntType → Bool
  | .i32 | .i64 => true
  | .u32 | .u64 => false

/-- The use of `_INT_CASE` for a specifier. -/
def Conversion.row (conversion : Conversion) : IntCase :=
  { ident := conversion.text
    type := conversion.type
    base := if conversion.base = 16 then 16 else 10
    sign := conversion.type.signed }

theorem intCases_eq : intCases = Conversion.all.map Conversion.row := rfl

theorem intCases_named : ∀ row ∈ intCases, (0 : UInt8) ∉ row.ident := by
  rw [intCases_eq]
  intro row member
  obtain ⟨conversion, _, rfl⟩ := List.mem_map.mp member
  cases conversion <;> decide

/-- A specifier of one character is recognised by it. -/
theorem isPrefixOf_char (symbol : UInt8) (text : List UInt8) (visible : symbol ≠ 0) :
    [symbol].isPrefixOf text = true ↔ text.headD 0 = symbol := by
  cases text with
  | nil => exact iff_of_false Bool.false_ne_true visible.symm
  | cons head rest =>
      rw [List.isPrefixOf_cons_cons, Bool.and_eq_true, beq_iff_eq, List.headD_cons]
      exact (and_iff_left rfl).trans eq_comm

def findConversion (text : List UInt8) : Option Conversion :=
  Conversion.all.find? (fun conversion => conversion.text.isPrefixOf text)

theorem recognised_eq (text : List UInt8) :
    recognised text =
      if text.headD 0 = byteOf '%' then some .percent
      else if text.headD 0 = byteOf 'c' then some .c
      else if text.headD 0 = byteOf 's' then some .s
      else (findConversion text).map .int := by
  have pick (spec : Specifier) (rest : List Specifier) :
      (spec :: rest).find? (fun other => other.text.isPrefixOf text) =
        if spec.text.isPrefixOf text = true then some spec
        else rest.find? (fun other => other.text.isPrefixOf text) := by
    rw [List.find?_cons]
    cases spec.text.isPrefixOf text with
    | true => rfl
    | false => rfl
  have ints : (Conversion.all.map Specifier.int).find? (fun other => other.text.isPrefixOf text) =
      (findConversion text).map .int := by
    rw [List.find?_map]
    rfl
  change (Specifier.percent :: .c :: .s :: Conversion.all.map .int).find? _ = _
  rw [pick, pick, pick, ints]
  exact if_congr (isPrefixOf_char (byteOf '%') text (by decide)) rfl
    (if_congr (isPrefixOf_char (byteOf 'c') text (by decide)) rfl
      (if_congr (isPrefixOf_char (byteOf 's') text (by decide)) rfl rfl))

theorem findCase_eq (text : List UInt8) :
    findCase (text ++ [0]) intCases = .ok ((findConversion text).map Conversion.row) := by
  rw [findCase_spec intCases_named, intCases_eq, List.find?_map]
  rfl

theorem directive_eq {Ctx : Type} (putChar : Ctx → UInt8 → Ctx) (text : List UInt8)
    (arg : List VaArg) (out : Printer Ctx) :
    directive putChar (text ++ [0]) arg out =
      match recognised text with
      | none => .ok (false, text ++ [0], arg, out)
      | some .percent => .ok (true, (text ++ [0]).tail, arg, out.put putChar (byteOf '%'))
      | some .c => do
          let (value, arg) ← vaArgChar arg
          return (true, (text ++ [0]).tail, arg, out.put putChar value)
      | some .s => do
          let (s, arg) ← vaArgString arg
          let ctx ← putString putChar (s.getD (bytesOf "(null)" ++ [0])) out.ctx
          return (true, (text ++ [0]).tail, arg, { out with ctx := ctx })
      | some (.int conversion) => do
          let (value, arg) ← vaArgInt conversion.type arg
          let out ← printInt putChar out value conversion.row.base conversion.row.sign
          return (true, (text ++ [0]).drop conversion.text.length, arg, out) := by
  rw [recognised_eq]
  unfold directive
  rw [deref_terminated, ok_bind, findCase_eq]
  by_cases percent : text.headD 0 = byteOf '%'
  · rw [if_pos percent, if_pos percent]
    rfl
  · rw [if_neg percent, if_neg percent]
    by_cases c : text.headD 0 = byteOf 'c'
    · rw [if_pos c, if_pos c]
    · rw [if_neg c, if_neg c]
      by_cases s : text.headD 0 = byteOf 's'
      · rw [if_pos s, if_pos s]
      · rw [if_neg s, if_neg s, ok_bind]
        cases findConversion text with
        | none => rfl
        | some conversion => rfl

/-! ### What the code prints -/

/-- The cast to 64 bits keeps the number, read by the sign of the type. -/
theorem vaArgInt_spec {arg : VaArg} {type : IntType} (typed : arg.type = .int type)
    (args : List VaArg) :
    ∃ value, vaArgInt type (arg :: args) = .ok (value, args) ∧
      arg.number = some (if type.signed = true then value.toInt else value.toUInt64.toNat) := by
  cases arg with
  | i32 value =>
      cases typed
      exact ⟨_, rfl, congrArg some (Int32.toInt_toInt64 value).symm⟩
  | u32 value =>
      cases typed
      refine ⟨_, rfl, congrArg some ?_⟩
      rw [UInt64.toUInt64_toInt64, UInt32.toNat_toUInt64]
      rfl
  | i64 value =>
      cases typed
      exact ⟨_, rfl, rfl⟩
  | u64 value =>
      cases typed
      exact ⟨_, rfl, rfl⟩
  | charPtr value => cases typed

theorem Conversion.row_base (conversion : Conversion) :
    conversion.row.base.toInt64.toUInt64.toNat = conversion.base := by
  cases conversion <;> rfl

section Printing

variable {Ctx : Type} {putChar : Ctx → UInt8 → Ctx} {text : List UInt8} {spec : Specifier}

theorem text_of_recognised (known : recognised text = some spec) :
    (text ++ [0]).drop spec.text.length = text.drop spec.text.length ++ [0] := by
  have begins := List.find?_some known
  apply List.drop_append_of_le_length
  exact (List.isPrefixOf_iff_prefix.mp begins).length_le

theorem directive_shows (putChar : Ctx → UInt8 → Ctx) (known : recognised text = some spec)
    {arg : VaArg} (wanted : spec.wants = some arg.type) (args : List VaArg) (out : Printer Ctx) :
    ∃ part buf, spec.Shows arg part ∧ directive putChar (text ++ [0]) (arg :: args) out =
      .ok (true, text.drop spec.text.length ++ [0], args,
        { ctx := part.foldl putChar out.ctx, buf := buf }) := by
  rw [directive_eq, known, ← text_of_recognised known]
  cases spec with
  | percent => cases wanted
  | c =>
      cases arg with
      | i32 value =>
          refine ⟨_, out.buf, .char value, ?_⟩
          simp only [vaArgChar, ok_bind, ← List.drop_one]
          rfl
      | u32 value | i64 value | u64 value | charPtr value => cases wanted
  | s =>
      cases arg with
      | charPtr value =>
          cases value with
          | none =>
              have plain : (0 : UInt8) ∉ bytesOf "(null)" := by decide
              refine ⟨_, out.buf, .null, ?_⟩
              simp only [vaArgString, Option.map_none, ok_bind, Option.getD_none,
                putString_spec plain, ← List.drop_one]
              rfl
          | some value =>
              refine ⟨_, out.buf, .string value, ?_⟩
              simp only [vaArgString, Option.map_some, ok_bind, Option.getD_some, CString.ptr,
                putString_spec value.plain, ← List.drop_one]
              rfl
      | i32 value | u32 value | i64 value | u64 value => cases wanted
  | int conversion =>
      have typed : arg.type = .int conversion.type := (Option.some.inj wanted).symm
      obtain ⟨several, fits⟩ := conversion.base_fits
      obtain ⟨value, taken, number⟩ := vaArgInt_spec typed args
      rw [← conversion.row_base] at several fits
      obtain ⟨buf, printed⟩ := printInt_spec putChar out value several fits
        conversion.row.sign
      rw [conversion.row_base] at several fits printed
      refine ⟨_, buf, .int typed number (Numerals.Alphabet.numeral_isNumeral several fits _), ?_⟩
      simp only [taken, ok_bind, printed]
      rfl

theorem directive_percent (known : recognised text = some .percent) (args : List VaArg)
    (out : Printer Ctx) :
    directive putChar (text ++ [0]) args out =
      .ok (true, text.drop 1 ++ [0], args, out.put putChar (byteOf '%')) := by
  have behind : (text ++ [0]).drop 1 = text.drop 1 ++ [0] := text_of_recognised known
  rw [directive_eq, known, ← behind, List.drop_one]

theorem directive_plain (known : recognised text = none) (args : List VaArg) (out : Printer Ctx) :
    directive putChar (text ++ [0]) args out = .ok (false, text ++ [0], args, out) := by
  rw [directive_eq, known]

/-- A character other than `%` is put. -/
theorem vformat_copied {char : UInt8} (visible : char ≠ 0) (ordinary : char ≠ byteOf '%')
    (rounds : Nat) (args : List VaArg) (out : Printer Ctx) :
    vformat putChar (rounds + 1) (char :: text ++ [0]) args out =
      vformat putChar rounds (text ++ [0]) args (out.put putChar char) := by
  conv_lhs => unfold vformat
  simp only [List.cons_append, deref, ok_bind, if_neg visible, if_neg ordinary, List.tail_cons]
  rfl

theorem vformat_special (rounds : Nat) {args left : List VaArg} {out after : Printer Ctx}
    {special : Bool} {pos : CharPtr}
    (read : directive putChar (text ++ [0]) args out = .ok (special, pos, left, after)) :
    vformat putChar (rounds + 1) (byteOf '%' :: text ++ [0]) args out =
      vformat putChar rounds pos left
        (if special then after else after.put putChar (byteOf '%')) := by
  have visible : byteOf '%' ≠ 0 := by decide
  conv_lhs => unfold vformat
  simp only [List.cons_append, deref, ok_bind, if_neg visible, if_true, List.tail_cons, read]

theorem formatPieces_copied {char : UInt8} (ordinary : char ≠ byteOf '%') (rest : List UInt8) :
    formatPieces (char :: rest) = .copied char :: formatPieces rest := by
  rw [formatPieces, if_neg ordinary]

theorem formatPieces_plain {rest : List UInt8} (known : recognised rest = none) :
    formatPieces (byteOf '%' :: rest) = .copied (byteOf '%') :: formatPieces rest := by
  rw [formatPieces, if_pos rfl, known]

theorem formatPieces_special {rest : List UInt8} (known : recognised rest = some spec) :
    formatPieces (byteOf '%' :: rest) =
      .special spec :: formatPieces (rest.drop spec.text.length) := by
  rw [formatPieces, if_pos rfl, known]

theorem vformat_pieces (text : List UInt8) (plain : (0 : UInt8) ∉ text) (args more : List VaArg)
    (typed : args.map VaArg.type = (formatPieces text).filterMap Piece.wants)
    (out : Printer Ctx) {rounds : Nat} (enough : text.length < rounds) :
    ∃ shown buf, Emits (formatPieces text) args shown ∧
      vformat putChar rounds (text ++ [0]) (args ++ more) out =
        .ok (more, { ctx := shown.foldl putChar out.ctx, buf := buf }) := by
  induction text using formatPieces.induct generalizing args out rounds with
  | case1 =>
      unfold formatPieces at typed ⊢
      obtain rfl := List.map_eq_nil_iff.mp typed
      obtain ⟨rounds, rfl⟩ := Nat.exists_eq_add_one_of_ne_zero (Nat.ne_zero_of_lt enough)
      exact ⟨[], out.buf, .nil, rfl⟩
  | case2 rest known ih =>
      obtain ⟨rounds, rfl⟩ := Nat.exists_eq_add_one_of_ne_zero (Nat.ne_zero_of_lt enough)
      rw [formatPieces_plain known] at typed ⊢
      obtain ⟨shown, buf, emits, printed⟩ := ih (List.not_mem_of_not_mem_cons plain) args typed
        (out.put putChar (byteOf '%')) (Nat.lt_of_succ_lt_succ enough)
      refine ⟨_, buf, .copied _ emits, ?_⟩
      rw [vformat_special rounds (directive_plain known (args ++ more) out)]
      exact printed
  | case3 rest spec known ih =>
      obtain ⟨rounds, rfl⟩ := Nat.exists_eq_add_one_of_ne_zero (Nat.ne_zero_of_lt enough)
      have left : (0 : UInt8) ∉ rest.drop spec.text.length :=
        fun member => List.not_mem_of_not_mem_cons plain (List.mem_of_mem_drop member)
      have room : (rest.drop spec.text.length).length < rounds := by
        rw [List.length_cons] at enough
        rw [List.length_drop]
        omega
      rw [formatPieces_special known] at typed ⊢
      cases wanted : spec.wants with
      | none =>
          have percent : spec = .percent := by
            cases spec with
            | percent => rfl
            | c | s | int conversion => cases wanted
          subst percent
          obtain ⟨shown, buf, emits, printed⟩ := ih left args typed
            (out.put putChar (byteOf '%')) room
          refine ⟨_, buf, .percent emits, ?_⟩
          rw [vformat_special rounds (directive_percent known (args ++ more) out)]
          exact printed
      | some type =>
          have first : (Piece.special spec).wants = some type := wanted
          rw [List.filterMap_cons_some first] at typed
          obtain ⟨arg, behind, rfl, same, typed⟩ := List.map_eq_cons_iff.mp typed
          rw [← same] at wanted
          obtain ⟨part, middle, shows, read⟩ := directive_shows putChar known wanted
            (behind ++ more) out
          obtain ⟨shown, buf, emits, printed⟩ := ih left behind typed
            { ctx := part.foldl putChar out.ctx, buf := middle } room
          refine ⟨_, buf, .shown shows emits, ?_⟩
          rw [List.foldl_append]
          exact (vformat_special rounds read).trans printed
  | case4 char rest ordinary ih =>
      obtain ⟨rounds, rfl⟩ := Nat.exists_eq_add_one_of_ne_zero (Nat.ne_zero_of_lt enough)
      rw [List.mem_cons, not_or] at plain
      rw [formatPieces_copied ordinary] at typed ⊢
      obtain ⟨shown, buf, emits, printed⟩ := ih plain.2 args typed (out.put putChar char)
        (Nat.lt_of_succ_lt_succ enough)
      refine ⟨_, buf, .copied char emits, ?_⟩
      rw [vformat_copied (Ne.symm plain.1) ordinary]
      exact printed

end Printing

/-- For every format and the arguments that it calls for, `vformat` ends, reads nothing behind the
terminator, takes exactly these arguments, and puts the one text that they make. -/
theorem vformat_prints {Ctx : Type} (putChar : Ctx → UInt8 → Ctx) (fmt : CString)
    (args more : List VaArg)
    (typed : args.map VaArg.type = (formatPieces fmt.chars).filterMap Piece.wants)
    (out : Printer Ctx) (rounds : Nat) (enough : fmt.chars.length < rounds) :
    ∃ text buf, Emits (formatPieces fmt.chars) args text ∧
      (∀ other, Emits (formatPieces fmt.chars) args other → other = text) ∧
      vformat putChar rounds fmt.ptr (args ++ more) out =
        .ok (more, { ctx := text.foldl putChar out.ctx, buf := buf }) := by
  obtain ⟨text, buf, emits, printed⟩ :=
    vformat_pieces fmt.chars fmt.plain args more typed out enough
  exact ⟨text, buf, emits, fun _ again => emits.unique again, printed⟩

/-- `%lld%%%l%s%zx%` with the most negative number, a null string and one argument too many. -/
def mixedFormat : CString :=
  { chars := bytesOf "%lld%%%l%s%zx%"
    plain := by decide }

def appendChar (text : List UInt8) (char : UInt8) : List UInt8 := text ++ [char]

def emptyPrinter : Printer (List UInt8) := { ctx := [], buf := Vector.replicate 64 0 }

theorem vformat_prints_mixed :
    ∃ text buf, Emits (formatPieces mixedFormat.chars) [.i64 Int64.minValue, .charPtr none] text ∧
      vformat appendChar 15 mixedFormat.ptr [.i64 Int64.minValue, .charPtr none, .u32 7]
          emptyPrinter =
        .ok ([.u32 7], { ctx := bytesOf "-9223372036854775808%%l(null)%zx%", buf := buf }) := by
  have ran : (vformat appendChar 15 mixedFormat.ptr [.i64 Int64.minValue, .charPtr none, .u32 7]
      emptyPrinter).map (fun result => result.2.ctx) =
      .ok (bytesOf "-9223372036854775808%%l(null)%zx%") := by
    decide +kernel
  obtain ⟨text, buf, emits, _, printed⟩ := vformat_prints appendChar mixedFormat
    [.i64 Int64.minValue, .charPtr none] [.u32 7] (by decide +kernel) emptyPrinter 15 (by decide)
  have reached := congrArg
    (Except.map (fun result : List VaArg × Printer (List UInt8) => result.2.ctx)) printed
  have put : text.foldl appendChar emptyPrinter.ctx =
      bytesOf "-9223372036854775808%%l(null)%zx%" := Except.ok.inj (reached.symm.trans ran)
  refine ⟨text, buf, emits, ?_⟩
  rw [← put]
  exact printed

end LabKernel.Common
