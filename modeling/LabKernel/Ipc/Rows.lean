/-
Waiting lists as rows of sleeping processes.

Every list of a live queue is a ring of the nodes of calls that sleep on it: a process lies
down with a node that is on no list, and whoever wakes it takes the node off first.
-/

import LabKernel.Ipc.Identifiers
import LabKernel.Ipc.Nodes

set_option autoImplicit false

namespace LabKernel.Ipc

open Common Transition Rings

/-! ### Rows -/

/-- The process sleeps in a call of this kind, addressed to this entry. -/
def ProcState.Sits (current : ProcState) (slot : Fin seqMultiplier) : WaitKind → Prop
  | .sender => ∃ call, current = .sending call false ∧
      ((slot.val : Nat) : Int) = call.msgid.tmod seqMultiplier
  | .receiver => ∃ call, current = .receiving call .unassigned false ∧
      ((slot.val : Nat) : Int) = call.msgid.tmod seqMultiplier

/-- A receive that goes on has its slot assigned. -/
def ProcState.Assigned (current : ProcState) : Prop :=
  ∀ call slot, current = .receiving call slot true → slot ≠ .unassigned

namespace ProcState

variable {slot other : Fin seqMultiplier} {kind own : WaitKind} {current : ProcState}

theorem Sits.asleep (sits : current.Sits slot kind) : current.Asleep := by
  cases kind with
  | sender =>
      obtain ⟨call, rfl, _⟩ := sits
      rfl
  | receiver =>
      obtain ⟨call, rfl, _⟩ := sits
      rfl

theorem Sits.unique (sits : current.Sits slot kind) (again : current.Sits other own) :
    own = kind ∧ other = slot := by
  cases kind with
  | sender =>
      obtain ⟨call, rfl, here⟩ := sits
      cases own with
      | sender =>
          obtain ⟨_, same, there⟩ := again
          cases same
          exact ⟨rfl, Fin.ext (by omega)⟩
      | receiver =>
          obtain ⟨_, same, _⟩ := again
          cases same
  | receiver =>
      obtain ⟨call, rfl, here⟩ := sits
      cases own with
      | sender =>
          obtain ⟨_, same, _⟩ := again
          cases same
      | receiver =>
          obtain ⟨_, same, there⟩ := again
          cases same
          exact ⟨rfl, Fin.ext (by omega)⟩

theorem Assigned.running : ProcState.running.Assigned := nofun

theorem Assigned.sending (call : SendCall) (awake : Bool) :
    (ProcState.sending call awake).Assigned := nofun

theorem activate_of_awake (awake : ¬current.Asleep) : current.activate = current := by
  cases current with
  | running => rfl
  | sending call roused =>
      cases roused with
      | false => exact absurd rfl awake
      | true => rfl
  | receiving call given roused =>
      cases roused with
      | false => exact absurd rfl awake
      | true => rfl

end ProcState

/-- The list of an entry holds the nodes of these processes, all of which sit on it. -/
structure Wired.Row (wired : Wired) (kind : WaitKind) (slot : Fin seqMultiplier)
    (procs : List Tid) : Prop where
  ring : IsRing wired.links (.head kind slot) (procs.map (.wait kind))
  sits : ∀ proc ∈ procs, (wired.sys.proc proc).Sits slot kind

def Wired.Live (wired : Wired) (slot : Fin seqMultiplier) : Prop :=
  (wired.sys.ids.entries slot).isSome

/-- The processes on the lists of every entry. -/
abbrev Lists := WaitKind → Fin seqMultiplier → List Tid

def Lists.set (lists : Lists) (kind : WaitKind) (slot : Fin seqMultiplier) (procs : List Tid) :
    Lists :=
  fun own other => if own = kind ∧ other = slot then procs else lists own other

/-- The lists of the live queues are rows of these processes, and a receive that goes on has its
slot assigned. -/
structure Wired.Listed (wired : Wired) (lists : Lists) : Prop where
  rows : ∀ slot, wired.Live slot → ∀ kind, wired.Row kind slot (lists kind slot)
  assigned : ∀ proc, (wired.sys.proc proc).Assigned

/-- Other lists than this one, whose processes are given, are left alone: the nodes outside it
but for those of processes that are awake, and the processes that sleep outside it. -/
structure Wired.Elsewhere (wired after : Wired) (kind : WaitKind) (slot : Fin seqMultiplier)
    (procs : List Tid) : Prop where
  links : ∀ node, node ∉ WaitNode.head kind slot :: procs.map (.wait kind) →
    (∀ proc, node = .wait kind proc → (wired.sys.proc proc).Asleep) →
      Untouched wired.links after.links node
  procs : ∀ proc, (wired.sys.proc proc).Asleep → proc ∉ procs →
    after.sys.proc proc = wired.sys.proc proc

namespace Lists

variable {lists : Lists} {kind own : WaitKind} {slot other : Fin seqMultiplier} {procs : List Tid}

theorem set_self : lists.set kind slot procs kind slot = procs := if_pos ⟨rfl, rfl⟩

theorem set_other (apart : ¬(own = kind ∧ other = slot)) :
    lists.set kind slot procs own other = lists own other := if_neg apart

end Lists

namespace Wired

variable {wired after : Wired} {kind own : WaitKind} {slot other : Fin seqMultiplier}
  {procs others : List Tid} {lists : Lists}

theorem Row.keep (row : wired.Row kind slot procs)
    (links : ∀ node ∈ WaitNode.head kind slot :: procs.map (.wait kind),
      Untouched wired.links after.links node)
    (states : ∀ proc ∈ procs, after.sys.proc proc = wired.sys.proc proc) :
    after.Row kind slot procs := by
  constructor
  · exact row.ring.frame links
  · intro proc member
    rw [states proc member]
    exact row.sits proc member

theorem Row.elsewhere (there : wired.Row own other others) (here : wired.Row kind slot procs)
    (apart : ¬(own = kind ∧ other = slot)) (rest : wired.Elsewhere after kind slot procs) :
    after.Row own other others := by
  have outside : ∀ proc ∈ others, proc ∉ procs := by
    intro proc member listed
    exact apart ((here.sits proc listed).unique (there.sits proc member))
  apply there.keep
  · intro node member
    apply rest.links
    · intro listed
      simp only [List.mem_cons, List.mem_map] at member listed
      rcases member with rfl | ⟨proc, member, rfl⟩
      · rcases listed with same | ⟨proc, _, same⟩
        · cases same
          exact apart ⟨rfl, rfl⟩
        · cases same
      · rcases listed with same | ⟨again, listed, same⟩
        · cases same
        · cases same
          exact outside proc member listed
    · intro proc same
      simp only [List.mem_cons, List.mem_map] at member
      rcases member with rfl | ⟨listed, member, rfl⟩
      · cases same
      · cases same
        exact (there.sits proc member).asleep
  · intro proc member
    exact rest.procs proc (there.sits proc member).asleep (outside proc member)

theorem Listed.replace (listed : wired.Listed lists) (alive : wired.Live slot)
    (rest : wired.Elsewhere after kind slot (lists kind slot)) (row : after.Row kind slot others)
    (live : ∀ slot, after.Live slot → wired.Live slot)
    (assigned : ∀ proc, (after.sys.proc proc).Assigned) :
    after.Listed (lists.set kind slot others) := by
  constructor
  · intro place lives own
    by_cases same : own = kind ∧ place = slot
    · obtain ⟨rfl, rfl⟩ := same
      rw [Lists.set_self]
      exact row
    · rw [Lists.set_other same]
      exact (listed.rows place (live place lives) own).elsewhere (listed.rows slot alive kind) same
        rest
  · exact assigned

theorem Listed.awake (listed : wired.Listed lists) {proc : Tid} {next : ProcState}
    (links : after.links = wired.links)
    (states : after.sys.proc = Function.update wired.sys.proc proc next)
    (roused : ¬(wired.sys.proc proc).Asleep) (ready : next.Assigned)
    (live : ∀ slot, after.Live slot → wired.Live slot) : after.Listed lists := by
  constructor
  · intro slot alive kind
    have row := listed.rows slot (live slot alive) kind
    apply row.keep
    · intro node _
      rw [links]
      exact ⟨rfl, rfl⟩
    · intro sleeper member
      rw [states]
      apply Function.update_of_ne
      intro same
      exact roused (same ▸ (row.sits sleeper member).asleep)
  · intro other
    rw [states]
    by_cases same : other = proc
    · rw [same, Function.update_self]
      exact ready
    · rw [Function.update_of_ne same]
      exact listed.assigned other

/-! ### Lying down and getting up -/

theorem Row.insertTail (row : wired.Row kind slot procs) {proc : Tid} {links : Links WaitNode}
    (roused : ¬(wired.sys.proc proc).Asleep)
    (inserted : insertTail wired.links (.head kind slot) (.wait kind proc) = some links) :
    IsRing links (.head kind slot) ((procs ++ [proc]).map (.wait kind)) ∧
      ∀ node, node ∉ WaitNode.head kind slot :: procs.map (.wait kind) →
        node ≠ .wait kind proc → Untouched wired.links links node := by
  have fresh : WaitNode.wait kind proc ∉ WaitNode.head kind slot :: procs.map (.wait kind) := by
    simp only [List.mem_cons, List.mem_map]
    rintro (same | ⟨listed, member, same⟩)
    · cases same
    · cases same
      exact roused (row.sits proc member).asleep
  obtain ⟨last, found, after, placed, ring, outside⟩ := row.ring.insert_last fresh
  unfold Ipc.insertTail at inserted
  rw [found] at inserted
  simp only [placed, Option.some.injEq] at inserted
  rw [← inserted, List.map_append]
  exact ⟨ring, outside⟩

/-- A process that nobody has killed lies down. -/
theorem Listed.sleepOn (listed : wired.Listed lists) {proc : Tid} {next : Bool → ProcState}
    (live : wired.Live slot) (roused : ¬(wired.sys.proc proc).Asleep)
    (spared : wired.killed proc = false) (sits : (next false).Sits slot kind)
    (slept : wired.sleepOn kind slot proc next = .ok after) :
    after.Listed (lists.set kind slot (lists kind slot ++ [proc])) := by
  have row := listed.rows slot live kind
  unfold Wired.sleepOn at slept
  split at slept
  · cases slept
  · rename_i links inserted
    obtain ⟨ring, outside⟩ := row.insertTail roused inserted
    cases slept
    rw [spared]
    have unmoved : ∀ other, (wired.sys.proc other).Asleep →
        (wired.sys.goto proc (next false)).proc other = wired.sys.proc other := by
      intro other asleep
      apply Function.update_of_ne
      intro same
      exact roused (same ▸ asleep)
    have lain : (wired.sys.goto proc (next false)).proc proc = next false :=
      Function.update_self _ _ _
    apply listed.replace live
    · constructor
      · intro node away dozing
        apply outside node away
        intro same
        exact roused (dozing proc same)
      · intro other asleep _
        exact unmoved other asleep
    · constructor
      · exact ring
      · intro other member
        rcases List.mem_append.mp member with earlier | last
        · have seat := row.sits other earlier
          change ProcState.Sits ((wired.sys.goto proc (next false)).proc other) slot kind
          rw [unmoved other seat.asleep]
          exact seat
        · rw [List.mem_singleton.mp last]
          change ProcState.Sits ((wired.sys.goto proc (next false)).proc proc) slot kind
          rw [lain]
          exact sits
    · intro place alive
      exact alive
    · intro other
      change ProcState.Assigned ((wired.sys.goto proc (next false)).proc other)
      by_cases same : other = proc
      · rw [same, lain]
        intro call given located
        have asleep := sits.asleep
        rw [located] at asleep
        cases asleep
      · have kept : (wired.sys.goto proc (next false)).proc other = wired.sys.proc other :=
          Function.update_of_ne same _ _
        rw [kept]
        exact listed.assigned other

theorem drainLoop_ring {rounds : Nat} {links left : Links WaitNode} {drained : List Tid}
    (ring : IsRing links (.head kind slot) (procs.map (.wait kind)))
    (ran : drainLoop (.head kind slot) rounds links = .ok (drained, left)) :
    drained = procs ∧ IsRing left (.head kind slot) [] ∧
      ∀ node, node ∉ WaitNode.head kind slot :: procs.map (.wait kind) →
        Untouched links left node := by
  induction rounds generalizing links procs drained with
  | zero => cases ran
  | succ rounds ih =>
      unfold drainLoop at ran
      cases procs with
      | nil =>
          rw [ring.path.1] at ran
          simp only [if_true] at ran
          cases ran
          exact ⟨rfl, ring, fun _ _ => ⟨rfl, rfl⟩⟩
      | cons proc procs =>
          rw [ring.path.1.1] at ran
          have whole : IsRing links (.head kind slot)
              ([] ++ .wait kind proc :: procs.map (.wait kind)) := ring
          obtain ⟨detached, taken, shorter, _, outside⟩ := whole.detach
          simp only [taken, reduceCtorEq, if_false] at ran
          split at ran
          · cases ran
          · rename_i found links' again
            cases ran
            obtain ⟨rfl, empty, untouched⟩ := ih shorter again
            refine ⟨rfl, empty, ?_⟩
            intro node away
            simp only [List.map_cons, List.mem_cons, not_or] at away
            obtain ⟨notHead, notFirst, notLater⟩ := away
            have rest : node ∉ WaitNode.head kind slot :: found.map (.wait kind) := by
              simp only [List.mem_cons, not_or]
              exact ⟨notHead, notLater⟩
            have first := outside node rest notFirst
            have later := untouched node rest
            exact ⟨later.1.trans first.1, later.2.trans first.2⟩

/-- The senders of a row are woken and taken off it, and a process returns. -/
theorem Listed.drained (listed : wired.Listed lists) {proc : Tid} (alive : wired.Live slot)
    (roused : ¬(wired.sys.proc proc).Asleep) (empty : IsRing after.links (.head .sender slot) [])
    (outside : ∀ node,
      node ∉ WaitNode.head .sender slot :: (lists .sender slot).map (.wait .sender) →
        Untouched wired.links after.links node)
    (states : after.sys.proc = Function.update (fun other =>
      if other ∈ lists .sender slot then (wired.sys.proc other).activate
      else wired.sys.proc other) proc .running)
    (live : ∀ place, after.Live place → wired.Live place) :
    after.Listed (lists.set .sender slot []) := by
  have vacant : after.Row .sender slot [] := by
    constructor
    · exact empty
    · intro other member
      cases member
  refine listed.replace alive ⟨fun node away _ => outside node away, ?_⟩ vacant live ?_
  · intro other asleep absent
    have different : other ≠ proc := fun same => roused (same ▸ asleep)
    rw [states, Function.update_of_ne different, if_neg absent]
  · intro other call given located
    by_cases same : other = proc
    · rw [states, same, Function.update_self] at located
      cases located
    · rw [states, Function.update_of_ne same] at located
      split at located
      · rename_i member
        obtain ⟨send, asleep, _⟩ := (listed.rows slot alive .sender).sits other member
        rw [asleep] at located
        cases located
      · exact listed.assigned other call given located

/-- A receiver is taken off its row and goes on, and a process returns. -/
theorem Listed.served (listed : wired.Listed lists) {proc taker : Tid} {next : ProcState}
    {before behind : List Tid} (alive : wired.Live slot)
    (waiting : lists .receiver slot = before ++ taker :: behind)
    (roused : ¬(wired.sys.proc proc).Asleep)
    (detached : wired.links.detach (.wait .receiver taker) = some after.links)
    (states : after.sys.proc =
      Function.update (Function.update wired.sys.proc proc .running) taker next)
    (ready : next.Assigned) (live : ∀ place, after.Live place → wired.Live place) :
    after.Listed (lists.set .receiver slot (before ++ behind)) := by
  have unmoved : ∀ other, (wired.sys.proc other).Asleep → other ≠ taker →
      after.sys.proc other = wired.sys.proc other := by
    intro other asleep apart
    have elsewhere : other ≠ proc := fun same => roused (same ▸ asleep)
    rw [states, Function.update_of_ne apart, Function.update_of_ne elsewhere]
  have row := listed.rows slot alive .receiver
  rw [waiting] at row
  have ring := row.ring
  rw [List.map_append, List.map_cons] at ring
  obtain ⟨left, taken, shorter, _, outside⟩ := ring.detach
  rw [detached, Option.some.injEq] at taken
  have once : taker ∉ before ++ behind := by
    have distinct := List.Nodup.of_map _ (List.nodup_cons.mp row.ring.distinct).2
    rw [List.nodup_middle] at distinct
    exact (List.nodup_cons.mp distinct).1
  have remaining : after.Row .receiver slot (before ++ behind) := by
    constructor
    · rw [taken, List.map_append]
      exact shorter
    · intro other still
      have seat : (wired.sys.proc other).Sits slot .receiver := by
        apply row.sits
        rcases List.mem_append.mp still with early | late
        · exact List.mem_append_left _ early
        · exact List.mem_append_right _ (List.mem_cons_of_mem _ late)
      rw [unmoved other seat.asleep (fun same => once (same ▸ still))]
      exact seat
  have rest : wired.Elsewhere after .receiver slot (lists .receiver slot) := by
    rw [waiting]
    constructor
    · intro node away _
      simp only [List.map_append, List.map_cons, List.mem_cons, List.mem_append, not_or] at away
      rw [taken]
      apply outside
      · simp only [List.mem_cons, List.mem_append, not_or]
        exact ⟨away.1, away.2.1, away.2.2.2⟩
      · exact away.2.2.1
    · intro other asleep absent
      apply unmoved other asleep
      intro same
      apply absent
      rw [same]
      exact List.mem_append_right _ List.mem_cons_self
  apply listed.replace alive rest remaining live
  intro other
  rw [states]
  by_cases taking : other = taker
  · rw [taking, Function.update_self]
    exact ready
  · rw [Function.update_of_ne taking]
    by_cases returning : other = proc
    · rw [returning, Function.update_self]
      exact nofun
    · rw [Function.update_of_ne returning]
      exact listed.assigned other

/-! ### New queues -/

theorem initLists_same (ids : IpcIds) (links : Links WaitNode) : initLists ids ids links = links := by
  unfold initLists
  split
  · rfl
  · rename_i slot searched
    have free := List.find?_some searched
    rw [if_neg (by simpa using free)]

theorem Listed.added (listed : wired.Listed lists) {proc : Tid} {key : Int}
    (searched : wired.sys.ids.firstSlot (fun entry => entry.isNone) = some slot)
    (new : wired.sys.ids.Added slot key after.sys.ids)
    (links : after.links = initLists wired.sys.ids after.sys.ids wired.links)
    (states : after.sys.proc = Function.update wired.sys.proc proc .running)
    (roused : ¬(wired.sys.proc proc).Asleep) (empty : ∀ kind, lists kind slot = []) :
    after.Listed lists := by
  have lives : ∀ place, after.Live place ↔ place = slot ∨ wired.Live place := by
    intro place
    have named := congrFun new.names place
    have some (ids : IpcIds) : (ids.entries place).isSome = (ids.name place).isSome := by
      unfold IpcIds.name
      rw [Option.isSome_map]
    unfold Live
    rw [some, some, named]
    by_cases here : place = slot
    · simp [here]
    · simp [here, Function.update_of_ne]
  have made : after.links =
      (wired.links.single (.head .sender slot)).single (.head .receiver slot) := by
    rw [links]
    unfold initLists
    rw [searched]
    exact if_pos ((lives slot).mpr (Or.inl rfl))
  have untouched : ∀ node, (∀ kind, node ≠ .head kind slot) →
      Untouched wired.links after.links node := by
    intro node apart
    rw [made]
    simp [Untouched, Function.update_of_ne (apart .sender), Function.update_of_ne (apart .receiver)]
  constructor
  · intro place alive kind
    by_cases here : place = slot
    · rw [here, empty]
      constructor
      · rw [made]
        cases kind with
        | sender =>
            apply (IsRing.single wired.links _).frame
            intro node member
            rw [List.mem_singleton.mp member]
            simp [Untouched]
        | receiver => exact IsRing.single _ _
      · intro other member
        cases member
    · have row := listed.rows place (((lives place).mp alive).resolve_left here) kind
      apply row.keep
      · intro node member
        apply untouched
        intro own same
        rw [same] at member
        simp only [List.mem_cons, WaitNode.head.injEq, List.mem_map, reduceCtorEq, and_false,
          exists_false, or_false] at member
        exact here member.2.symm
      · intro sleeper member
        rw [states]
        apply Function.update_of_ne
        intro same
        exact roused (same ▸ (row.sits sleeper member).asleep)
  · intro other
    rw [states]
    by_cases same : other = proc
    · rw [same, Function.update_self]
      exact nofun
    · rw [Function.update_of_ne same]
      exact listed.assigned other

theorem Listed.agree (listed : wired.Listed lists) {now : Lists}
    (same : ∀ slot, wired.Live slot → ∀ kind, now kind slot = lists kind slot) :
    wired.Listed now := by
  constructor
  · intro slot alive kind
    rw [same slot alive]
    exact listed.rows slot alive kind
  · exact listed.assigned

/-! ### What is expected of the lists -/

theorem Listed.initial (pool : List Page) (lists : Lists) : (Wired.initial pool).Listed lists := by
  constructor
  · intro slot alive
    cases alive
  · intro proc
    exact nofun

end Wired

end LabKernel.Ipc
