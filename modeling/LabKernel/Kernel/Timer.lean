/-
The timers of one CPU, `cpu.c` and `clock.c`.

Between two readings of the counter any time may pass. A handler runs between `expire` and
`finish`, and in it timers are set and cancelled as outside.
-/

import LabKernel.Lib.Transition
import LabKernel.Common.Rbtree

set_option autoImplicit false

namespace LabKernel.Kernel.Timers

open Common.Rbtree

/-- `cntfrq_el0`, a register of 32 bits, of a counter that is not slower than the unit of time. -/
structure Clock where
  frequency : UInt64
  fast : 1000 ≤ frequency.toNat
  narrow : frequency.toNat < 2 ^ 32

def Clock.oneMs (clock : Clock) : UInt64 := clock.frequency / 1000

structure Timer where
  triggered : Bool
  elapse : Int32
  key : UInt64

inductive TimerEvent where
  | set (node : Ptr) (key : UInt64)
  | cancelled (node : Ptr)
  | fired (node : Ptr) (key time : UInt64)
  deriving DecidableEq

def TimerEvent.node : TimerEvent → Ptr
  | .set node _ | .cancelled node | .fired node _ _ => node

def TimerEvent.armed : TimerEvent → Option UInt64
  | .set _ key => some key
  | .cancelled _ | .fired _ _ _ => none

/-- The key of a timer that has been set and has neither fired nor been cancelled since. -/
def pending (log : List TimerEvent) (node : Ptr) : Option UInt64 :=
  (log.reverse.find? fun event => event.node = node).bind TimerEvent.armed

/-- Where the CPU is in `timer_clock_handler`. -/
inductive Control where
  | outside
  | looping
  | due (node : Ptr)
  | handler (node : Ptr)
  deriving DecidableEq

inductive Stop where
  | clock
  | triggered
  | duplicate
  | tree (stop : Common.Rbtree.Stop)
  | disabled
  deriving DecidableEq

/-- A timer is named by its tree node. The countdown ends when the counter has reached
`deadline`. -/
structure TimerSystem where
  tree : RbTree
  timer : Ptr → Timer
  ticks : UInt64
  deadline : Nat
  control : Control
  log : List TimerEvent

def timerCmp (timer : Ptr → Timer) (lnode rnode : Ptr) : Bool :=
  let d := ((timer lnode).key - (timer rnode).key).toInt64
  if d < 0 then true else if d = 0 then lnode.val < rnode.val else false

namespace TimerSystem

variable (clock : Clock) (sys : TimerSystem)

/-- No tree has more nodes than there have been insertions. -/
def rounds : Nat := sys.log.length + 1

def record (event : TimerEvent) : TimerSystem := { sys with log := sys.log ++ [event] }

def setTimer (node : Ptr) (timer : Timer) : TimerSystem :=
  { sys with timer := Function.update sys.timer node timer }

def timestampMs : UInt64 := sys.ticks / clock.oneMs

def resetClock (countdown : UInt64) : Except Stop TimerSystem :=
  let t := countdown * clock.oneMs
  if t ≤ 0x7fffffff then .ok { sys with deadline := sys.ticks.toNat + t.toNat }
  else .error .clock

def timerSetClock : Except Stop TimerSystem :=
  match sys.tree.first sys.rounds with
  | .error stop => .error (.tree stop)
  | .ok node =>
      if node = null then sys.resetClock clock 1000
      else
        let t1 := (sys.timer node).key
        let t0 := sys.timestampMs clock
        if t1 ≤ t0 then sys.resetClock clock 0 else sys.resetClock clock (t1 - t0)

/-- The key that `set_cpu_timer` gives a timer now. -/
def nextKey (node : Ptr) : UInt64 :=
  sys.timestampMs clock + (sys.timer node).elapse.toInt64.toUInt64

/-- A timer after the first two statements of `set_cpu_timer`. -/
def rearmed (node : Ptr) : Timer :=
  { sys.timer node with
    triggered := false
    key := sys.nextKey clock node }

/-- `set_cpu_timer`. The counter is read again when the clock is set. -/
def setCpuTimer (node : Ptr) (later : UInt64) : Except Stop TimerSystem :=
  let keyed := sys.setTimer node (sys.rearmed clock node)
  match keyed.tree.insert keyed.rounds (timerCmp keyed.timer) node with
  | .error stop => .error (.tree stop)
  | .ok (result, tree) =>
      if result ≠ 0 then .error .duplicate
      else
        ({ keyed with
          tree := tree
          ticks := later }.record (.set node (keyed.timer node).key)).timerSetClock clock

def cancelCpuTimer (node : Ptr) : Except Stop TimerSystem :=
  if (sys.timer node).triggered then .error .triggered
  else
    match sys.tree.erase sys.rounds node with
    | .error stop => .error (.tree stop)
    | .ok tree => { sys with tree := tree }.timerSetClock clock

/-! ### The clock handler -/

/-- The head of the loop of `timer_clock_handler`. -/
def check : Except Stop TimerSystem :=
  match sys.tree.first sys.rounds with
  | .error stop => .error (.tree stop)
  | .ok node =>
      if node = null then .ok { sys with control := .outside }
      else if sys.timestampMs clock < (sys.timer node).key then .ok { sys with control := .outside }
      else .ok { sys with control := .due node }

/-- The rest of the loop, up to the first statement of the handler of the timer. -/
def expire (node : Ptr) : Except Stop TimerSystem :=
  match sys.cancelCpuTimer clock node with
  | .error stop => .error stop
  | .ok after =>
      let timer := after.timer node
      .ok ({ after.setTimer node { timer with triggered := true } with
        control := .handler node }.record (.fired node timer.key (after.timestampMs clock)))

/-- Timers are set and cancelled outside the clock handler, or by the handler of a timer. -/
def calls : Bool :=
  match sys.control with
  | .outside | .handler _ => true
  | .looping | .due _ => false

end TimerSystem

/-! ### Steps -/

inductive TimerAction where
  | tick (later : UInt64)
  | configure (node : Ptr) (elapse : Int32)
  | set (node : Ptr) (later : UInt64)
  | cancel (node : Ptr)
  | interrupt
  | check
  | expire
  | finish

def timerStep (clock : Clock) (sys : TimerSystem) : TimerAction → Except Stop TimerSystem
  | .tick later => .ok { sys with ticks := later }
  | .configure node elapse => .ok (sys.setTimer node { sys.timer node with elapse := elapse })
  | .set node later => if sys.calls then sys.setCpuTimer clock node later else .error .disabled
  | .cancel node =>
      if sys.calls then
        match sys.cancelCpuTimer clock node with
        | .error stop => .error stop
        | .ok after => .ok (after.record (.cancelled node))
      else .error .disabled
  | .interrupt =>
      match sys.control with
      | .outside => { sys with control := .looping }.resetClock clock 1000
      | _ => .error .disabled
  | .check =>
      match sys.control with
      | .looping => sys.check clock
      | _ => .error .disabled
  | .expire =>
      match sys.control with
      | .due node => sys.expire clock node
      | _ => .error .disabled
  | .finish =>
      match sys.control with
      | .handler _ => .ok { sys with control := .looping }
      | _ => .error .disabled

/-- The counter does not go back and the interrupt does not come before the countdown has ended.
A timer that is set is an object that is not pending, with an elapse that is not negative and a
small key, and one that is cancelled is pending. -/
def timerGuard (clock : Clock) (sys : TimerSystem) : TimerAction → Prop
  | .tick later => sys.ticks ≤ later
  | .set node later =>
      node ≠ null ∧ (sys.tree.heap node).isSome ∧ pending sys.log node = none ∧
        0 ≤ (sys.timer node).elapse.toInt ∧ (sys.nextKey clock node).toNat < 2 ^ 63 ∧
          sys.ticks ≤ later
  | .cancel node => (pending sys.log node).isSome
  | .interrupt => sys.deadline ≤ sys.ticks.toNat
  | _ => True

/-- No timer has been set, and the clock counts down to some time. -/
def TimerSystem.initial (heap : Ptr → Option RbNode) (timer : Ptr → Timer) (ticks : UInt64)
    (deadline : Nat) : TimerSystem :=
  { tree :=
      { heap := heap
        root := null }
    timer := timer
    ticks := ticks
    deadline := deadline
    control := .outside
    log := [] }

end LabKernel.Kernel.Timers
