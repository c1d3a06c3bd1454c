/-
The scheduler of `sched.c` and the containers of `container.c`.

Every call runs under `sched_lock`, so it is one function on the state of the scheduler. The
run queues are kept as the links of their list nodes, with the null links that a container
made by `create_container` has: which lists these links form is proved, not built in.
-/

import LabKernel.Lib.Ring
import LabKernel.Lib.Transition

set_option autoImplicit false

namespace LabKernel.Kernel

open Rings

inductive ProcState where
  | unused
  | runnable
  | running
  | sleeping
  | deepSleeping
  | zombie
  deriving DecidableEq, Repr

/-- The states from which `_activate_proc` makes a process runnable. -/
def ProcState.wakes (state : ProcState) (onalert : Bool) : Bool :=
  state = .unused || state = .sleeping || (state = .deepSleeping && !onalert)

def ncpu : Nat := 4

/-- A process: the idle process of a CPU, or the one that a call of `create_proc` returned. -/
inductive Task where
  | idle (cpu : Fin ncpu)
  | user (index : Nat)
  deriving DecidableEq, Repr

/-- The list nodes of the run queues: `schqueue.sqhead` and `schinfo.sqnode` of a container,
and `schinfo.sqnode` of a process. -/
inductive SqNode where
  | head (container : Nat)
  | group (container : Nat)
  | proc (index : Nat)
  deriving DecidableEq, Repr

/-- Why a call does not go through: the caller cannot make it, an assertion of the source
fails, `PANIC` is reached, a null link is followed, a node is taken for one of another kind,
or the search does not end. -/
inductive Stop where
  | disabled
  | assertion
  | panic
  | nullLink
  | wildNode
  | endless
  deriving DecidableEq, Repr

/-- The processes and containers made so far are the ones below `procs` and `containers`;
container 0 is `root_container`. -/
structure Sched where
  procs : Nat
  containers : Nat
  state : Task → ProcState
  killed : Task → Bool
  current : Fin ncpu → Task
  panicFlag : Bool
  container : Nat → Nat
  localpid : Nat → Nat
  links : Links SqNode
  group : Nat → Bool
  parent : Nat → Option Nat
  rootproc : Nat → Option Nat
  maxPid : Nat → Nat

def rootContainer : Nat := 0

/-- The scheduler after `define_init(sched)` and `define_early_init(root_container)`. -/
def Sched.initial : Sched :=
  { procs := 0
    containers := 1
    state := fun task => match task with
      | .idle _ => .running
      | .user _ => .unused
    killed := fun _ => false
    current := fun cpu => .idle cpu
    panicFlag := false
    container := fun _ => rootContainer
    localpid := fun _ => 0
    links := (({ prev := fun _ => none, next := fun _ => none } : Links SqNode).single
      (.head rootContainer)).single (.group rootContainer)
    group := fun index => decide (index = rootContainer)
    parent := fun index => if index = rootContainer then some rootContainer else none
    rootproc := fun index => if index = rootContainer then some 0 else none
    maxPid := fun _ => 0 }

namespace Sched

variable (sched : Sched)

def setState (task : Task) (state : ProcState) : Sched :=
  { sched with state := Function.update sched.state task state }

def setLinks (links : Links SqNode) : Sched := { sched with links := links }

/-- `_insert_into_list`: merging with a null list leaves the node single. -/
def insertIntoList (list : Option SqNode) (node : SqNode) : Except Stop Sched :=
  match list with
  | none => .ok (sched.setLinks (sched.links.single node))
  | some list =>
      match sched.links.insert list node with
      | none => .error .nullLink
      | some links => .ok (sched.setLinks links)

/-! ### Waking up -/

def activateProc (task : Task) (onalert : Bool) : Except Stop (Bool × Sched) :=
  match task with
  | .idle _ => .error .assertion
  | .user index =>
      if (sched.state task).wakes onalert then
        match (sched.setState task .runnable).insertIntoList
          (some (.head (sched.container index))) (.proc index) with
        | .error stop => .error stop
        | .ok after => .ok (true, after)
      else .ok (false, sched)

/-! ### Giving up the CPU -/

def updateThisState (cpu : Fin ncpu) (newState : ProcState) : Except Stop Sched :=
  match newState with
  | .runnable =>
      match sched.current cpu with
      | .idle _ => .ok (sched.setState (sched.current cpu) newState)
      | .user index =>
          match sched.insertIntoList (sched.links.prev (.head (sched.container index)))
            (.proc index) with
          | .error stop => .error stop
          | .ok after => .ok (after.setState (sched.current cpu) newState)
  | .sleeping | .zombie | .deepSleeping => .ok (sched.setState (sched.current cpu) newState)
  | .unused | .running => .error .panic

/-- The loop of `_pick_in_queue` from the node it has come to, with the number of nodes it may
still visit. A null link ends the loop. -/
def pickFrom : Nat → Nat → Option SqNode → Except Stop (Option Nat)
  | 0, _, _ => .error .endless
  | _ + 1, _, none => .ok none
  | rounds + 1, queue, some node =>
      match node with
      | .head container => if container = queue then .ok none else .error .wildNode
      | .proc index => .ok (some index)
      | .group container =>
          if sched.group container then
            match pickFrom rounds container (sched.links.next (.head container)) with
            | .ok none => pickFrom rounds queue (sched.links.next node)
            | found => found
          else .error .wildNode

/-- `_pick_in_queue`. A list holds no node twice, so this many rounds are enough. -/
def pickInQueue (queue : Nat) : Except Stop (Option Nat) :=
  sched.pickFrom (sched.procs + 2 * sched.containers + 1) queue (sched.links.next (.head queue))

def pickNext (cpu : Fin ncpu) : Except Stop (Task × Sched) :=
  if sched.panicFlag then .ok (.idle cpu, sched)
  else
    match sched.pickInQueue rootContainer with
    | .error stop => .error stop
    | .ok none => .ok (.idle cpu, sched)
    | .ok (some index) =>
        if sched.state (.user index) = .runnable then
          match sched.links.detach (.proc index) with
          | none => .error .nullLink
          | some links => .ok (.user index, sched.setLinks links)
        else .error .assertion

def updateThisProc (cpu : Fin ncpu) (task : Task) : Sched :=
  { sched with current := Function.update sched.current cpu task }

/-- `simple_sched`, with the CPU it is called on. -/
def simpleSched (cpu : Fin ncpu) (newState : ProcState) : Except Stop Sched :=
  if sched.state (sched.current cpu) ≠ .running then .error .assertion
  else if sched.killed (sched.current cpu) && newState ≠ .zombie && newState ≠ .deepSleeping then
    .ok sched
  else
    match sched.updateThisState cpu newState with
    | .error stop => .error stop
    | .ok updated =>
        match updated.pickNext cpu with
        | .error stop => .error stop
        | .ok (next, picked) =>
            if picked.state next ≠ .runnable then .error .assertion
            else .ok ((picked.updateThisProc cpu next).setState next .running)

/-! ### Processes and containers -/

/-- The part of `create_proc` that the scheduler reads. -/
def createProc : Sched :=
  { sched with
    procs := sched.procs + 1
    state := Function.update sched.state (.user sched.procs) .unused
    killed := Function.update sched.killed (.user sched.procs) false
    container := Function.update sched.container sched.procs rootContainer
    localpid := Function.update sched.localpid sched.procs 0
    links := sched.links.single (.proc sched.procs) }

/-- `start_proc` behind the setting of the parent. -/
def startProc (index : Nat) : Except Stop (Bool × Sched) :=
  let container := sched.container index
  let pid := sched.maxPid container + 1
  { sched with
    maxPid := Function.update sched.maxPid container pid
    localpid := Function.update sched.localpid index pid }.activateProc (.user index) false

/-- The memory of a new container is cleared and its two list nodes are left so. -/
def createContainer : Sched :=
  let made := sched.createProc
  { made with
    containers := sched.containers + 1
    links := (((made.links.setPrev (.head sched.containers) none).setNext
      (.head sched.containers) none).setPrev (.group sched.containers) none).setNext
      (.group sched.containers) none
    group := Function.update made.group sched.containers false
    parent := Function.update made.parent sched.containers none
    rootproc := Function.update made.rootproc sched.containers (some sched.procs)
    maxPid := Function.update made.maxPid sched.containers 0 }

/-- The container of a process; an idle process has none. -/
def containerOf : Task → Option Nat
  | .idle _ => none
  | .user index => some (sched.container index)

def setContainerParentToThis (cpu : Fin ncpu) (container : Nat) : Sched :=
  { sched with
    parent := Function.update sched.parent container (sched.containerOf (sched.current cpu)) }

def setProcToContainer (index container : Nat) : Sched :=
  { sched with container := Function.update sched.container index container }

end Sched

/-! ### The system -/

inductive SchedAction where
  | createProc
  | createContainer
  | setContainerParentToThis (cpu : Fin ncpu) (container : Nat)
  | setProcToContainer (index container : Nat)
  | startProc (index : Nat)
  | activate (index : Nat)
  | alert (index : Nat)
  | setKilled (task : Task)
  | sched (cpu : Fin ncpu) (newState : ProcState)
  | setPanic
  deriving DecidableEq

def schedStep (sched : Sched) : SchedAction → Except Stop Sched
  | .createProc => .ok sched.createProc
  | .createContainer => .ok sched.createContainer
  | .setContainerParentToThis cpu container =>
      if container < sched.containers then .ok (sched.setContainerParentToThis cpu container)
      else .error .disabled
  | .setProcToContainer index container =>
      if index < sched.procs ∧ container < sched.containers then
        .ok (sched.setProcToContainer index container)
      else .error .disabled
  | .startProc index =>
      if index < sched.procs then (sched.startProc index).map Prod.snd else .error .disabled
  | .activate index =>
      if index < sched.procs then (sched.activateProc (.user index) false).map Prod.snd
      else .error .disabled
  | .alert index =>
      if index < sched.procs then (sched.activateProc (.user index) true).map Prod.snd
      else .error .disabled
  | .setKilled task => .ok { sched with killed := Function.update sched.killed task true }
  | .sched cpu newState => sched.simpleSched cpu newState
  | .setPanic => .ok { sched with panicFlag := true }

end LabKernel.Kernel
