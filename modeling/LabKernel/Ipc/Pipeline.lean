/-
`pipeline_send` on the nodes of the waiting receivers.

The loop detaches the node it stands on and goes on along the links of that node. Detaching
links a node with itself, so the loop comes away only from the receivers it has not detached.
-/

import LabKernel.Ipc.System
import LabKernel.Lib.Ring

set_option autoImplicit false

namespace LabKernel.Ipc

open Common Rings

/-- The nodes, the receivers around them with their slots, and the processes that have been
activated, in order. -/
structure Receivers (Node : Type) where
  links : Links Node
  rcver : Node → Receiver
  rMsg : Node → Slot
  activated : List Tid

namespace Receivers

variable {Node : Type} [DecidableEq Node]

section Code

variable (head : Node) (letter : Letter)

/-- `rcver->r_msg = …; activate_proc(rcver->proc)`, for a node that has been detached. -/
def give (state : Receivers Node) (node : Node) (links : Links Node) (slot : Slot) :
    Receivers Node :=
  { state with
    links := links
    rMsg := Function.update state.rMsg node slot
    activated := state.activated ++ [(state.rcver node).proc] }

/-- The loop of `pipeline_send` from a node on, in at most the given number of rounds. -/
def pipelineRounds : Nat → Option Node → Receivers Node → Except Stop (Int × Receivers Node)
  | _, none, state => .ok (0, state)
  | 0, some _, _ => .error .spins
  | rounds + 1, some node, state =>
      if node = head then .ok (0, state)
      else if testmsg (state.rcver node).mtype letter.mtype then
        match state.links.detach node with
        | none => .error .uninitialised
        | some links =>
            if (state.rcver node).size < letter.size then
              pipelineRounds rounds (links.next node) (state.give node links .null)
            else .ok (1, state.give node links (.message letter))
      else pipelineRounds rounds (state.links.next node) state

end Code

/-- The receiver waits for a message of this type. -/
def wants (state : Receivers Node) (letter : Letter) (node : Node) : Bool :=
  testmsg (state.rcver node).mtype letter.mtype

/-- These receivers are given the null message, the taker, if there is one, is given the message,
and the others wait on. -/
structure Given (state after : Receivers Node) (head : Node) (letter : Letter)
    (refused : List Node) (taker : Option Node) (waiting : List Node) : Prop where
  waits : IsRing after.links head waiting
  removed : ∀ node ∈ refused ++ taker.toList, IsRing after.links node []
  null : ∀ node ∈ refused, after.rMsg node = .null
  taken : ∀ node, taker = some node → after.rMsg node = .message letter
  others : ∀ node, node ∉ refused ++ taker.toList → after.rMsg node = state.rMsg node
  activated : after.activated =
    state.activated ++ (refused ++ taker.toList).map (fun node => (state.rcver node).proc)

/-- The matching receivers in front of the first one that has room are refused. That one takes
the message. -/
inductive Served (state after : Receivers Node) (head : Node) (nodes : List Node)
    (letter : Letter) : Int → Prop
  | taken {before behind : List Node} {taker : Node} (parts : nodes = before ++ taker :: behind)
      (matched : state.wants letter taker = true) (room : letter.size ≤ (state.rcver taker).size)
      (small : ∀ node ∈ before, state.wants letter node = true →
        (state.rcver node).size < letter.size)
      (given : Given state after head letter (before.filter (state.wants letter)) (some taker)
        (before.filter (fun node => !state.wants letter node) ++ behind)) :
      Served state after head nodes letter 1
  | untaken
      (small : ∀ node ∈ nodes, state.wants letter node = true →
        (state.rcver node).size < letter.size)
      (given : Given state after head letter (nodes.filter (state.wants letter)) none
        (nodes.filter (fun node => !state.wants letter node))) :
      Served state after head nodes letter 0

/-- `pipeline_send` ends and serves the right receiver. -/
def Serves (state : Receivers Node) (head : Node) (nodes : List Node) (letter : Letter) : Prop :=
  ∃ rounds ret after,
    pipelineRounds head letter rounds (state.links.next head) state = .ok (ret, after) ∧
      Served state after head nodes letter ret

variable {state : Receivers Node} {head node : Node} {nodes before behind : List Node}
  {letter : Letter}

/-! ### Rounds -/

theorem pipelineRounds_more {rounds : Nat} {result : Int × Receivers Node} (more : Nat) :
    ∀ {at' : Option Node} {state : Receivers Node},
      pipelineRounds head letter rounds at' state = .ok result →
        pipelineRounds head letter (rounds + more) at' state = .ok result := by
  induction rounds with
  | zero =>
      intro at' state ended
      cases at' with
      | none =>
          rw [← ended]
          cases more with
          | zero => rfl
          | succ more => rfl
      | some node => cases ended
  | succ rounds ih =>
      intro at' state ended
      cases at' with
      | none =>
          rw [← ended]
          rw [Nat.succ_add]
          rfl
      | some node =>
          rw [Nat.succ_add]
          unfold pipelineRounds at ended ⊢
          split at ended
          · rename_i same
            rw [if_pos same]
            exact ended
          · rename_i different
            rw [if_neg different]
            split at ended
            · rename_i matched
              rw [if_pos matched]
              cases detached : state.links.detach node with
              | none =>
                  rw [detached] at ended
                  cases ended
              | some links =>
                  simp only [detached] at ended ⊢
                  split at ended
                  · rename_i small
                    rw [if_pos small]
                    exact ih ended
                  · rename_i room
                    rw [if_neg room]
                    exact ended
            · rename_i other
              rw [if_neg other]
              exact ih ended

theorem pipelineRounds_passes (rounds : Nat) {last : Node} :
    ∀ {start : Node}, Path state.links start (before ++ behind) last →
      (∀ node ∈ before, node ≠ head ∧ state.wants letter node = false) →
        pipelineRounds head letter (before.length + rounds) (state.links.next start) state =
          pipelineRounds head letter rounds (some (behind.head?.getD last)) state := by
  induction before with
  | nil =>
      intro start path _
      rw [path.first_linked.1, List.length_nil, Nat.zero_add, List.nil_append]
  | cons node before ih =>
      intro start path unmatched
      obtain ⟨different, other⟩ := unmatched node List.mem_cons_self
      have later := ih path.2 (fun place member => unmatched place (List.mem_cons_of_mem _ member))
      rw [path.1.1, List.length_cons, Nat.add_right_comm, pipelineRounds, if_neg different, if_neg,
        later]
      rw [Bool.not_eq_true]
      exact other

/-- A receiver that is too small is detached, and the loop stays with it. -/
theorem pipelineRounds_spins (different : node ≠ head) (rounds : Nat) :
    ∀ {state : Receivers Node}, IsRing state.links node [] → state.wants letter node = true →
      (state.rcver node).size < letter.size →
        pipelineRounds head letter rounds (some node) state = .error .spins := by
  induction rounds with
  | zero =>
      intro state _ _ _
      rfl
  | succ rounds ih =>
      intro state alone matched small
      obtain ⟨links, detached, again, -⟩ := alone.detach_alone
      have same : testmsg (state.rcver node).mtype letter.mtype = true := matched
      rw [pipelineRounds, if_neg different, if_pos same]
      simp only [detached, if_pos small]
      rw [again.path.1]
      exact ih again matched small

/-! ### What is given -/

omit [DecidableEq Node] in
theorem filter_unmatched (unmatched : ∀ node ∈ nodes, state.wants letter node = false) :
    nodes.filter (state.wants letter) = [] ∧
      nodes.filter (fun node => !state.wants letter node) = nodes := by
  constructor
  · rw [List.filter_eq_nil_iff]
    intro place member
    rw [unmatched place member]
    exact Bool.false_ne_true
  · rw [List.filter_eq_self]
    intro place member
    rw [unmatched place member]
    rfl

theorem given_taker {links : Links Node} (ring : IsRing state.links head (before ++ node :: behind))
    (detached : state.links.detach node = some links)
    (unmatched : ∀ node ∈ before, state.wants letter node = false) :
    Given state (state.give node links (.message letter)) head letter
      (before.filter (state.wants letter)) (some node)
      (before.filter (fun node => !state.wants letter node) ++ behind) := by
  obtain ⟨nobody, everybody⟩ := filter_unmatched unmatched
  obtain ⟨after, same, whole, alone, -⟩ := ring.detach
  rw [detached] at same
  cases same
  rw [nobody, everybody]
  constructor
  · exact whole
  · intro place member
    rw [List.mem_singleton.mp member]
    exact alone
  · intro place member
    cases member
  · intro place same
    cases same
    exact Function.update_self _ _ _
  · intro place outside
    exact Function.update_of_ne (fun same => outside (List.mem_singleton.mpr same)) _ _
  · rfl

omit [DecidableEq Node] in
theorem given_nobody (ring : IsRing state.links head nodes)
    (unmatched : ∀ node ∈ nodes, state.wants letter node = false) :
    Given state state head letter (nodes.filter (state.wants letter)) none
      (nodes.filter (fun node => !state.wants letter node)) := by
  obtain ⟨nobody, everybody⟩ := filter_unmatched unmatched
  rw [nobody, everybody]
  constructor
  · exact ring
  · intro place member
    cases member
  · intro place member
    cases member
  · intro place same
    cases same
  · intro place _
    rfl
  · exact (List.append_nil _).symm

/-! ### The first receiver that matches -/

omit [DecidableEq Node] in
theorem first_wanted (found : nodes.find? (state.wants letter) = some node) :
    state.wants letter node = true ∧ ∃ before behind, nodes = before ++ node :: behind ∧
      ∀ place ∈ before, state.wants letter place = false := by
  obtain ⟨matched, before, behind, parts, unmatched⟩ := List.find?_eq_some_iff_append.mp found
  refine ⟨matched, before, behind, parts, ?_⟩
  intro place member
  have refused := unmatched place member
  rwa [Bool.not_eq_true'] at refused

theorem pipelineRounds_first (ring : IsRing state.links head (before ++ node :: behind))
    (unmatched : ∀ place ∈ before, state.wants letter place = false) (rounds : Nat) :
    pipelineRounds head letter (before.length + rounds) (state.links.next head) state =
      pipelineRounds head letter rounds (some node) state := by
  have outside := (List.nodup_cons.mp ring.distinct).1
  apply pipelineRounds_passes rounds ring.path
  intro place member
  refine ⟨?_, unmatched place member⟩
  intro same
  rw [same] at member
  exact outside (List.mem_append_left _ member)

theorem serves_room (ring : IsRing state.links head (before ++ node :: behind))
    (matched : state.wants letter node = true) (room : letter.size ≤ (state.rcver node).size)
    (unmatched : ∀ place ∈ before, state.wants letter place = false) :
    state.Serves head (before ++ node :: behind) letter := by
  obtain ⟨links, detached, -⟩ := ring.detach
  have different : node ≠ head := by
    intro same
    apply (List.nodup_cons.mp ring.distinct).1
    rw [← same]
    exact List.mem_append_right _ List.mem_cons_self
  have same : testmsg (state.rcver node).mtype letter.mtype = true := matched
  refine ⟨before.length + 1, 1, state.give node links (.message letter), ?_, ?_⟩
  · rw [pipelineRounds_first ring unmatched, pipelineRounds, if_neg different, if_pos same]
    simp only [detached, if_neg (Nat.not_lt.mpr room)]
  · apply Served.taken rfl matched room
    · intro place member wanted
      rw [unmatched place member] at wanted
      cases wanted
    · exact given_taker ring detached unmatched

theorem spins_small (ring : IsRing state.links head (before ++ node :: behind))
    (matched : state.wants letter node = true) (small : (state.rcver node).size < letter.size)
    (unmatched : ∀ place ∈ before, state.wants letter place = false) (rounds : Nat) :
    ∀ result, pipelineRounds head letter rounds (state.links.next head) state ≠ .ok result := by
  intro result ended
  have different : node ≠ head := by
    intro same
    apply (List.nodup_cons.mp ring.distinct).1
    rw [← same]
    exact List.mem_append_right _ List.mem_cons_self
  have same : testmsg (state.rcver node).mtype letter.mtype = true := matched
  obtain ⟨links, detached, -, alone, -⟩ := ring.detach
  have later := pipelineRounds_more (before.length + 1) ended
  rw [Nat.add_comm rounds, Nat.add_assoc, pipelineRounds_first ring unmatched, Nat.add_comm 1,
    pipelineRounds, if_neg different, if_pos same] at later
  simp only [detached, if_pos small] at later
  rw [alone.path.1, pipelineRounds_spins different rounds] at later
  · cases later
  · exact alone
  · exact matched
  · exact small

/-- Without a receiver that matches, nothing is done. -/
theorem serves_nobody (ring : IsRing state.links head nodes)
    (unmatched : ∀ node ∈ nodes, state.wants letter node = false) :
    state.Serves head nodes letter := by
  have outside := (List.nodup_cons.mp ring.distinct).1
  refine ⟨nodes.length + 1, 0, state, ?_, ?_⟩
  · have path : Path state.links head (nodes ++ []) head := by
      rw [List.append_nil]
      exact ring.path
    rw [pipelineRounds_passes 1 path]
    · exact if_pos rfl
    · intro place member
      refine ⟨?_, unmatched place member⟩
      intro same
      rw [same] at member
      exact outside member
  · apply Served.untaken
    · intro place member wanted
      rw [unmatched place member] at wanted
      cases wanted
    · exact given_nobody ring unmatched

end Receivers

/-- `pipeline_send` ends and serves the right receiver exactly when the first receiver that
matches has room for the message. -/
theorem pipeline_serves_iff {Node : Type} [DecidableEq Node] {state : Receivers Node} {head : Node}
    {nodes : List Node} (ring : IsRing state.links head nodes) (letter : Letter) :
    state.Serves head nodes letter ↔
      ∀ node, nodes.find? (state.wants letter) = some node →
        letter.size ≤ (state.rcver node).size := by
  constructor
  · intro serves node found
    obtain ⟨matched, before, behind, parts, unmatched⟩ := Receivers.first_wanted found
    obtain ⟨rounds, ret, after, ended, -⟩ := serves
    rw [parts] at ring
    by_contra small
    exact Receivers.spins_small ring matched (Nat.not_le.mp small) unmatched rounds _ ended
  · intro room
    cases found : nodes.find? (state.wants letter) with
    | none =>
        apply Receivers.serves_nobody ring
        intro node member
        rw [← Bool.not_eq_true]
        exact List.find?_eq_none.mp found node member
    | some node =>
        obtain ⟨matched, before, behind, parts, unmatched⟩ := Receivers.first_wanted found
        rw [parts] at ring ⊢
        exact Receivers.serves_room ring matched (room node found) unmatched

/-- One receiver of 8 bytes that takes any message, behind the head `false`. -/
def oneReceiver : Receivers Bool :=
  { links := { prev := fun node => some (!node), next := fun node => some (!node) }
    rcver := fun _ => { proc := 1, mtype := 0, size := 8 }
    rMsg := fun _ => .unassigned
    activated := [] }

/-- A message without segments, of this size. -/
def shortLetter (size : Nat) : Letter :=
  { mtype := 1
    size := size
    page := { number := 0, data := fun _ => 0 }
    segs := []
    serial := 0 }

theorem oneReceiver_ring : IsRing oneReceiver.links false [true] := by
  constructor
  · simp
  · exact ⟨⟨rfl, rfl⟩, rfl, rfl⟩

theorem pipeline_serves_one : IsRing oneReceiver.links false [true] ∧
    oneReceiver.Serves false [true] (shortLetter 8) := by
  refine ⟨oneReceiver_ring, (pipeline_serves_iff oneReceiver_ring (shortLetter 8)).mpr ?_⟩
  intro node _
  exact Nat.le_refl 8

/-- A message of 9 bytes. -/
theorem pipeline_spins_one : IsRing oneReceiver.links false [true] ∧
    ¬oneReceiver.Serves false [true] (shortLetter 9) := by
  refine ⟨oneReceiver_ring, ?_⟩
  intro serves
  obtain ⟨rounds, ret, after, ended, -⟩ := serves
  have ring : IsRing oneReceiver.links false ([] ++ true :: []) := oneReceiver_ring
  have small : (oneReceiver.rcver true).size < (shortLetter 9).size := Nat.lt_succ_self 8
  exact Receivers.spins_small ring rfl small (fun _ member => by cases member) rounds _ ended

end LabKernel.Ipc
