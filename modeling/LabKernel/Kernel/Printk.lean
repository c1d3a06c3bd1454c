/-
The console.

All CPUs print through one serial port, one character after another, and `_print_int` makes its
digits in one static buffer. `printk` holds `printk_lock` meanwhile, so the messages of the CPUs
stand on the console one behind the other, each of them whole.
-/

import LabKernel.Common.Printing
import LabKernel.Common.Spinlock

set_option autoImplicit false

namespace LabKernel.Kernel

open Common Transition

/-- `uart_put_char`: a line feed is followed by a carriage return. -/
def uartPutChar (console : List UInt8) (c : UInt8) : List UInt8 :=
  if c = byteOf '\n' then console ++ [c, byteOf '\r'] else console ++ [c]

/-- The text on the console that a message becomes. -/
def echoed (text : List UInt8) : List UInt8 :=
  text.flatMap (fun c => if c = byteOf '\n' then [c, byteOf '\r'] else [c])

/-- A call of `printk`, with the arguments that the format calls for and those behind them. -/
structure PrintCall where
  fmt : CString
  args : List VaArg
  more : List VaArg
  typed : args.map VaArg.type = (formatPieces fmt.chars).filterMap Piece.wants

/-- The port, as text on the console, and the buffer of `_print_int`. -/
abbrev Console := Printer (List UInt8)

variable {Cpu Local : Type}

/-- The accesses of a section are those of the call of `vformat`, however they are split. -/
def PrintCall.Performed (call : PrintCall) (works : List (SpinWork Local Console)) : Prop :=
  ∀ own console left after,
    vformat uartPutChar (call.fmt.chars.length + 1) call.fmt.ptr (call.args ++ call.more) console =
      .ok (left, after) → (runWorks works own console).2 = after

/-- The accesses of the sections, in the order in which the lock was released. -/
def sections (items : List (SpinItem Cpu Local Console)) : List (List (SpinWork Local Console)) :=
  items.filterMap (fun item =>
    match item with
    | .alone _ _ => none
    | .critical _ works => some works)

theorem foldl_uartPutChar (text console : List UInt8) :
    text.foldl uartPutChar console = console ++ echoed text := by
  induction text generalizing console with
  | nil => exact (List.append_nil console).symm
  | cons c rest ih =>
      rw [List.foldl_cons, ih]
      unfold uartPutChar echoed
      rw [List.flatMap_cons, ← List.append_assoc]
      congr 1
      split
      · rfl
      · rfl

theorem PrintCall.Performed.console {call : PrintCall} {works : List (SpinWork Local Console)}
    (performed : call.Performed works) (own : Local) (console : Console) :
    ∃ text, Emits (formatPieces call.fmt.chars) call.args text ∧
      (runWorks works own console).2.ctx = console.ctx ++ echoed text := by
  obtain ⟨text, buf, emits, printed⟩ := vformat_pieces call.fmt.chars
    call.fmt.plain call.args call.more call.typed console (Nat.lt_succ_self _)
  refine ⟨text, emits, ?_⟩
  rw [performed own console _ _ printed]
  exact foldl_uartPutChar text console.ctx

variable [DecidableEq Cpu]

/-- The calls, one after the other, put their texts one behind the other. -/
theorem replay_console (start : (Cpu → Local) × Console)
    (items : List (SpinItem Cpu Local Console)) (calls : List PrintCall)
    (performed : List.Forall₂ PrintCall.Performed calls (sections items)) :
    ∃ texts, List.Forall₂ (fun (call : PrintCall) text =>
        Emits (formatPieces call.fmt.chars) call.args text) calls texts ∧
      (SpinItem.replay start items).2.ctx = start.2.ctx ++ texts.flatMap echoed := by
  induction items generalizing start calls with
  | nil =>
      cases performed
      exact ⟨[], .nil, (List.append_nil _).symm⟩
  | cons item rest ih =>
      cases item with
      | alone cpu think => exact ih (SpinItem.apply start (.alone cpu think)) calls performed
      | critical cpu works =>
          cases performed with
          | cons first later =>
              obtain ⟨text, emits, shown⟩ := first.console (start.1 cpu) start.2
              obtain ⟨texts, follow, rest⟩ := ih (SpinItem.apply start (.critical cpu works)) _ later
              refine ⟨text :: texts, .cons emits follow, ?_⟩
              rw [List.flatMap_cons, ← List.append_assoc, ← shown]
              exact rest

/-- Whatever CPUs call `printk`, and however their accesses mix: whenever the lock is free, the
console shows the text of each call that has returned, whole, in the order of the releases. -/
theorem printk_messages_whole {own : Cpu → Local} {console : Console}
    {actions : List (SpinAction Cpu Local Console)} {spin : Spin Cpu Local Console}
    {calls : List PrintCall}
    (run : Run spinStep (fun _ _ => True) (Spin.initial own console) actions spin)
    (performed : List.Forall₂ PrintCall.Performed calls (sections spin.items))
    (clear : spin.locked = false) :
    ∃ texts, List.Forall₂ (fun (call : PrintCall) text =>
        Emits (formatPieces call.fmt.chars) call.args text) calls texts ∧
      spin.data.ctx = console.ctx ++ texts.flatMap echoed := by
  obtain ⟨texts, emits, shown⟩ := replay_console (own, console) spin.items calls performed
  refine ⟨texts, emits, ?_⟩
  rw [← shown]
  exact congrArg (fun state => state.2.ctx) ((Spin.Atomic.of_run run).free clear)

/-- A call that prints a text without `%`. -/
def plainCall (chars : List UInt8) (plain : (0 : UInt8) ∉ chars)
    (typed : [] = (formatPieces chars).filterMap Piece.wants) : PrintCall :=
  { fmt := { chars := chars, plain := plain }
    args := []
    more := []
    typed := typed }

def putWork (c : UInt8) : SpinWork Unit Console :=
  fun own console => (own, console.put uartPutChar c)

/-- A line, and the letter of a CPU that had to wait for it. -/
def twoPrints : List (SpinAction Bool Unit Console) :=
  [.call false true, .access false, .access false, .call true true, .work false (putWork 97),
    .access true, .work false (putWork 10), .release false, .access true, .access true,
    .work true (putWork 98), .release true]

theorem printk_messages_whole_two : ∃ spin : Spin Bool Unit Console,
    ∃ texts : List (List UInt8),
    Run spinStep (fun _ _ => True) (Spin.initial (fun _ => ()) emptyPrinter) twoPrints spin ∧
      spin.data.ctx = bytesOf "a\n\rb" ∧ spin.data.ctx = texts.flatMap echoed := by
  have executed : exec spinStep (Spin.initial (fun _ : Bool => ()) emptyPrinter) twoPrints =
    .ok _ := rfl
  have run := Run.of_exec executed (Guarded.trivial _ _)
  have first : (plainCall [97, 10] (by decide) (by decide +kernel)).Performed
      [putWork 97, putWork 10] := by
    intro own console left after printed
    cases printed
    rfl
  have second : (plainCall [98] (by decide) (by decide +kernel)).Performed [putWork 98] := by
    intro own console left after printed
    cases printed
    rfl
  obtain ⟨texts, -, shown⟩ := printk_messages_whole run (.cons first (.cons second .nil)) rfl
  exact ⟨_, texts, run, rfl, shown⟩

end LabKernel.Kernel
