/-
The process tree of `proc.c`.

The sections under `proc_list_lock` are single steps, and so is `exit`, which takes the
scheduler lock before it gives up `proc_list_lock`. A call of `wait` is split at its sections
and where it sleeps, and `start_proc` between setting the parent and waking the process.
Processes are numbered as they are created; process 0 is `root_proc`.
-/

import LabKernel.Common.Sem
import LabKernel.Kernel.Procs
import LabKernel.Lib.History
import LabKernel.Lib.Transition

set_option autoImplicit false

namespace LabKernel.Kernel

open Common

def rootProc : Nat := 0

/-- Where a process is in a call of `wait`: it has seen that it has children, it is in
`wait_sem` with the `up` flag of its wait data, or it has got a token. -/
inductive WaitCall where
  | outside
  | checked
  | asleep (up : Bool)
  | token
  deriving DecidableEq, Repr

/-! ### The child exit semaphores -/

/-- The processes with their `childexit` semaphores and the calls that wait on them. -/
structure Waiters where
  procs : Procs
  childexit : Nat → Semaphore
  calls : Nat → WaitCall

namespace Waiters

variable (waiters : Waiters)

def setSem (index : Nat) (sem : Semaphore) : Waiters :=
  { waiters with childexit := Function.update waiters.childexit index sem }

def setCall (index : Nat) (call : WaitCall) : Waiters :=
  { waiters with calls := Function.update waiters.calls index call }

def setProcs (procs : Procs) : Waiters := { waiters with procs := procs }

/-- `post_sem(&p->childexit)`. -/
def postChildexit (index : Nat) : Except Stop Waiters :=
  match postSem (waiters.childexit index) with
  | none => .error .assertion
  | some (none, sem) => .ok (waiters.setSem index sem)
  | some (some sleeper, sem) =>
      .ok (((waiters.setSem index sem).setCall sleeper (.asleep true)).setProcs
        (waiters.procs.activate sleeper false))

/-- `while (get_sem(&this->childexit)) post_sem(&root_proc.childexit)`, in at most the given
number of rounds. -/
def passTokens (this : Nat) : Nat → Waiters → Except Stop Waiters
  | 0, _ => .error .endless
  | rounds + 1, waiters =>
      match getSem (waiters.childexit this) with
      | (false, _) => .ok waiters
      | (true, sem) =>
          match (waiters.setSem this sem).postChildexit rootProc with
          | .error stop => .error stop
          | .ok posted => passTokens this rounds posted

/-- `wait_sem(&this->childexit)` until it returns or gives up the CPU. -/
def waitChildexit (this : Nat) : Waiters :=
  match waitSem this (waiters.childexit this) with
  | (true, sem) => (waiters.setSem this sem).setCall this .token
  | (false, sem) =>
      ((waiters.setSem this sem).setCall this (.asleep false)).setProcs
        (waiters.procs.leave this .sleeping)

end Waiters

/-! ### The tree -/

/-- How far a process is started: `start_proc` has not been called, it has seen to the parent,
or it has woken the process. -/
inductive Birth where
  | fresh
  | starting
  | started
  deriving DecidableEq, Repr

inductive ProcEvent where
  | created (child : Nat) (pid : Int)
  | adopted (child parent : Nat)
  | exited (child : Nat) (code : Int)
  | reaped (parent child : Nat) (pid code : Int)
  | failed (parent : Nat)
  deriving DecidableEq, Repr

/-- The process with the records of its memory that this code reads; `reaped` are the ones
whose memory has been given back. `max_pid` is an `int` in the source: the tree is that of the code,
and its pids are distinct, until `max_pid` overflows. -/
structure ProcTree where
  made : Nat
  waiters : Waiters
  birth : Nat → Birth
  pid : Nat → Int
  maxPid : Int
  exitcode : Nat → Int
  parent : Nat → Option Nat
  children : Nat → List Nat
  reaped : Nat → Bool
  history : List ProcEvent

/-- The tree after `define_init(root_proc)`. -/
def ProcTree.initial : ProcTree :=
  { made := 1
    waiters :=
      { procs :=
          { state := fun index => if index = rootProc then .runnable else .unused
            killed := fun _ => false }
        childexit := fun _ => initSem 0
        calls := fun _ => .outside }
    birth := fun index => if index = rootProc then .started else .fresh
    pid := fun index => if index = rootProc then 1 else 0
    maxPid := 1
    exitcode := fun _ => 0
    parent := fun index => if index = rootProc then some rootProc else none
    children := fun _ => []
    reaped := fun _ => false
    history := [.created rootProc 1, .adopted rootProc rootProc] }

namespace ProcTree

variable (tree : ProcTree)

def state (index : Nat) : ProcState := tree.waiters.procs.state index

def setWaiters (waiters : Waiters) : ProcTree := { tree with waiters := waiters }

def record (event : ProcEvent) : ProcTree := { tree with history := tree.history ++ [event] }

def createProc : ProcTree :=
  { made := tree.made + 1
    waiters :=
      { procs :=
          { state := Function.update tree.waiters.procs.state tree.made .unused
            killed := Function.update tree.waiters.procs.killed tree.made false }
        childexit := Function.update tree.waiters.childexit tree.made (initSem 0)
        calls := Function.update tree.waiters.calls tree.made .outside }
    birth := Function.update tree.birth tree.made .fresh
    pid := Function.update tree.pid tree.made (tree.maxPid + 1)
    maxPid := tree.maxPid + 1
    exitcode := Function.update tree.exitcode tree.made 0
    parent := Function.update tree.parent tree.made none
    children := Function.update tree.children tree.made []
    reaped := Function.update tree.reaped tree.made false
    history := tree.history ++ [.created tree.made (tree.maxPid + 1)] }

def setProcParent (child parent : Nat) : ProcTree :=
  { tree with
    children := Function.update tree.children parent (child :: tree.children parent)
    parent := Function.update tree.parent child (some parent)
    history := tree.history ++ [.adopted child parent] }

/-- `start_proc` up to the point where the process is to be woken. -/
def startProc (child : Nat) : ProcTree :=
  let adopted := if tree.parent child = none then tree.setProcParent child rootProc else tree
  { adopted with birth := Function.update adopted.birth child .starting }

/-- The end of `start_proc`. -/
def activateProc (child : Nat) : ProcTree :=
  { tree with
    waiters := tree.waiters.setProcs (tree.waiters.procs.activate child false)
    birth := Function.update tree.birth child .started }

/-- `_find_child(&root_proc, pid)`. -/
def findChild (pid : Int) : Option Nat :=
  (tree.children rootProc).find? (fun child => tree.pid child = pid ∧ tree.state child ≠ .unused)

/-- `kill`, with what it returns. -/
def kill (pid : Int) : Except Stop (Int × ProcTree) :=
  match tree.findChild pid with
  | none => .ok (-1, tree)
  | some child =>
      if tree.state child = .unused then .error .assertion
      else
        .ok (0, tree.setWaiters (tree.waiters.setProcs
          ((tree.waiters.procs.setKilled child).activate child true)))

/-- The children of a process as `_detach_from_list` of their list head returns them: from the
last one on. -/
def detachedChildren (this : Nat) : List Nat :=
  match (tree.children this).getLast? with
  | none => []
  | some last => last :: (tree.children this).dropLast

/-- `exit`: give the children and the tokens of those that have exited to `root_proc`, notify
the parent and become a zombie. -/
def exit (this : Nat) (code : Int) : Except Stop ProcTree :=
  if this = rootProc then .error .assertion
  else
    let moved := tree.detachedChildren this
    let parent := fun child => if child ∈ moved then some rootProc else tree.parent child
    let children := Function.update tree.children this []
    match parent this with
    | none => .error .nullLink
    | some notified =>
        match tree.waiters.passTokens this ((tree.waiters.childexit this).val.toNat + 1) with
        | .error stop => .error stop
        | .ok passed =>
            match passed.postChildexit notified with
            | .error stop => .error stop
            | .ok posted =>
                .ok { tree with
                  waiters := posted.setProcs (posted.procs.leave this .zombie)
                  exitcode := Function.update tree.exitcode this code
                  parent := parent
                  children := Function.update children rootProc (moved ++ children rootProc)
                  history := tree.history ++ [.exited this code] }

/-- The first section of `wait`. -/
def waitCheck (this : Nat) : ProcTree :=
  if tree.children this = [] then tree.record (.failed this)
  else tree.setWaiters (tree.waiters.setCall this .checked)

/-- The end of `wait_sem` in a call that has slept. -/
def waitResume (this : Nat) (up : Bool) : Except Stop ProcTree :=
  if up then .ok (tree.setWaiters (tree.waiters.setCall this .token))
  else
    let sem := tree.waiters.childexit this
    if sem.val + 1 ≤ 0 then
      .ok ((tree.setWaiters ((tree.waiters.setSem this
        { val := sem.val + 1, sleeplist := sem.sleeplist.erase this }).setCall this
          .outside)).record (.failed this))
    else .error .assertion

/-- The last section of `wait`: take the first zombie off the list and give back its memory. -/
def waitReap (this : Nat) : Except Stop ProcTree :=
  match (tree.children this).find? (fun child => tree.state child = .zombie) with
  | none => .error .panic
  | some child =>
      .ok ({ tree with
        waiters := tree.waiters.setCall this .outside
        children := Function.update tree.children this ((tree.children this).erase child)
        reaped := Function.update tree.reaped child true }.record
          (.reaped this child (tree.pid child) (tree.exitcode child)))

end ProcTree

/-! ### The system -/

/-- The calls, and what else happens to a process: it is made to run, loses the CPU, or sleeps
and is woken for another reason than a child that exits. -/
inductive ProcAction where
  | createProc
  | setParentToThis (this child : Nat)
  | startProc (child : Nat)
  | activateProc (child : Nat)
  | kill (pid : Int)
  | exit (this : Nat) (code : Int)
  | wait (this : Nat)
  | waitSem (this : Nat)
  | resume (this : Nat)
  | reap (this : Nat)
  | dispatch (index : Nat)
  | yield (index : Nat)
  | sleep (index : Nat) (deep : Bool)
  | wake (index : Nat)
  deriving DecidableEq

def ProcTree.RunsAt (tree : ProcTree) (index : Nat) (call : WaitCall) : Prop :=
  tree.state index = .running ∧ tree.waiters.calls index = call

instance (tree : ProcTree) (index : Nat) (call : WaitCall) : Decidable (tree.RunsAt index call) :=
  inferInstanceAs (Decidable (_ ∧ _))

/-- A parent is set at most once, for a process that is not started yet, and a process is
started once. -/
def procStep (tree : ProcTree) : ProcAction → Except Stop ProcTree
  | .createProc => .ok tree.createProc
  | .setParentToThis this child =>
      if tree.RunsAt this .outside ∧ child < tree.made ∧ tree.birth child = .fresh ∧
          tree.parent child = none then
        .ok (tree.setProcParent child this)
      else .error .disabled
  | .startProc child =>
      if child < tree.made ∧ tree.birth child = .fresh then .ok (tree.startProc child)
      else .error .disabled
  | .activateProc child =>
      if tree.birth child = .starting then .ok (tree.activateProc child) else .error .disabled
  | .kill pid => (tree.kill pid).map Prod.snd
  | .exit this code =>
      if tree.RunsAt this .outside then tree.exit this code else .error .disabled
  | .wait this =>
      if tree.RunsAt this .outside then .ok (tree.waitCheck this) else .error .disabled
  | .waitSem this =>
      if tree.RunsAt this .checked then .ok (tree.setWaiters (tree.waiters.waitChildexit this))
      else .error .disabled
  | .resume this =>
      match tree.waiters.calls this with
      | .asleep up =>
          if tree.state this = .running then tree.waitResume this up else .error .disabled
      | _ => .error .disabled
  | .reap this =>
      if tree.RunsAt this .token then tree.waitReap this else .error .disabled
  | .dispatch index =>
      if tree.state index = .runnable then
        .ok (tree.setWaiters (tree.waiters.setProcs (tree.waiters.procs.setState index .running)))
      else .error .disabled
  | .yield index =>
      if tree.state index = .running then
        .ok (tree.setWaiters (tree.waiters.setProcs (tree.waiters.procs.leave index .runnable)))
      else .error .disabled
  | .sleep index deep =>
      if tree.RunsAt index .outside then
        .ok (tree.setWaiters (tree.waiters.setProcs
          (tree.waiters.procs.leave index (if deep then .deepSleeping else .sleeping))))
      else .error .disabled
  | .wake index =>
      if tree.waiters.calls index = .outside ∧
          (tree.state index = .sleeping ∨ tree.state index = .deepSleeping) then
        .ok (tree.setWaiters (tree.waiters.setProcs (tree.waiters.procs.activate index false)))
      else .error .disabled

end LabKernel.Kernel
