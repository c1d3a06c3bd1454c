/-
What a crash leaves of the operations.

Whenever the machine stops, recovery restores what the blocks were released with up to the
last commit whose header had reached the device. No operation was open then, so every
operation is there as a whole or not at all, and one whose `cache_end_op` has
returned is there.
-/

import LabKernel.Fs.Durability

set_option autoImplicit false

namespace LabKernel.Fs

open Common Transition

/-- The threads over the device, with two marks in what callers have seen: how far it is
durable, and where `cache_end_op` was last called with each context. -/
structure Journal where
  system : System
  durable : List Access
  sealed : CtxId → List Access

def Journal.initial (sblock : SuperBlock) (volume : Volume) : Journal :=
  { system := System.initial sblock volume.header volume.cache volume.disk
    durable := []
    sealed := fun _ => [] }

/-- The context that a step passes to `cache_end_op`. -/
def Action.ends : Action → Option CtxId
  | .endOp _ ctx => some ctx
  | _ => none

def Journal.mark (journal : Journal) : Option CtxId → Journal
  | some ctx =>
      { journal with sealed := Function.update journal.sealed ctx journal.system.history }
  | none => journal

/-- The step without the mark of `cache_end_op`. -/
def Journal.advance (journal : Journal) (action : Action) (after : System) : Journal :=
  { journal with
    system := after
    durable := if journal.system.commitsAt action then after.history else journal.durable }

def journalStep (sblock : SuperBlock) (journal : Journal) (action : Action) :
    Except Stop Journal :=
  match systemStep sblock journal.system action with
  | .error reason => .error reason
  | .ok after => .ok ((journal.advance action after).mark action.ends)

/-- The step is not `cache_sync(NULL, ..)`, which writes past the log. -/
def Action.logs : Action → Bool
  | .flush _ => false
  | _ => true

/-- Callers keep to the rules and leave the device to the log. -/
def Journaled (sblock : SuperBlock) (journal : Journal) (action : Action) : Prop :=
  Disciplined sblock journal.system action ∧ action.logs = true

theorem Action.ne_flush {action : Action} (logs : action.logs = true) (hold : Hold) :
    action ≠ .flush hold := by
  rintro rfl
  cases logs

theorem journalStep_ok {sblock : SuperBlock} {journal next : Journal} {action : Action}
    (taken : journalStep sblock journal action = .ok next) :
    ∃ after, systemStep sblock journal.system action = .ok after ∧
      next = (journal.advance action after).mark action.ends := by
  unfold journalStep at taken
  cases returned : systemStep sblock journal.system action with
  | error reason =>
      rw [returned] at taken
      cases taken
  | ok after =>
      rw [returned] at taken
      cases taken
      exact ⟨after, rfl, rfl⟩

theorem Journal.mark_system (journal : Journal) (ctx : Option CtxId) :
    (journal.mark ctx).system = journal.system := by
  cases ctx with
  | none => rfl
  | some ctx => rfl

theorem Journal.mark_durable (journal : Journal) (ctx : Option CtxId) :
    (journal.mark ctx).durable = journal.durable := by
  cases ctx with
  | none => rfl
  | some ctx => rfl

/-- The header of the commit that this thread is in has reached the device. -/
def System.Passed (state : System) (thread : Tid) : Prop :=
  (∃ round, state.Installs thread round) ∨ ∃ ctx, state.op.pc thread = .committed ctx

/-- What was released before an operation was ended is durable when its end returns. -/
structure Sealed (journal : Journal) : Prop where
  past : ∀ ctx, journal.sealed ctx <+: journal.system.history
  grown : journal.durable <+: journal.system.history
  settled : ∀ ctx, journal.system.op.phase ctx ≠ .ending → journal.sealed ctx <+: journal.durable
  passed : ∀ thread, journal.system.Passed thread → ∀ ctx, journal.sealed ctx <+: journal.durable
  released : ∀ thread ctx, journal.system.op.pc thread = .endAsleep ctx →
    thread ∉ journal.system.op.outstandingSem.sleeplist → journal.sealed ctx <+: journal.durable

namespace Sealed

variable {sblock : SuperBlock} {journal : Journal} {thread : Tid}

/-- Everything that was sealed is durable. -/
theorem of_all (journal : Journal)
    (all : ∀ ctx, journal.sealed ctx <+: journal.durable)
    (grown : journal.durable <+: journal.system.history) : Sealed journal :=
  ⟨fun ctx => (all ctx).trans grown, grown, fun ctx _ => all ctx, fun _ _ => all,
    fun _ ctx _ _ => all ctx⟩

theorem history_grows {sblock : SuperBlock} {state after : System} {action : Action}
    (outcome : System.Outcome sblock state action after) : state.history <+: after.history := by
  cases outcome with
  | locked thread use blockNo addr located free =>
      cases use with
      | caller => exact List.prefix_append _ _
      | source round => exact List.prefix_rfl
      | target round src => exact List.prefix_rfl
  | woken thread use blockNo addr located posted =>
      cases use with
      | caller => exact List.prefix_append _ _
      | source round => exact List.prefix_rfl
      | target round src => exact List.prefix_rfl
  | released hold idle member outer => exact List.prefix_append _ _
  | finished thread op chunk written located taken =>
      cases written with
      | true => exact List.prefix_rfl
      | false => exact List.prefix_rfl
  | _ => exact List.prefix_rfl

/-- A step that ends no operation and returns from no commit. -/
theorem carry (marks : Sealed journal) (after : System)
    (history : journal.system.history <+: after.history)
    (phases : ∀ ctx, after.op.phase ctx ≠ .ending → journal.system.op.phase ctx ≠ .ending)
    (passed : ∀ thread, after.Passed thread → journal.system.Passed thread)
    (released : ∀ thread ctx, after.op.pc thread = .endAsleep ctx →
      thread ∉ after.op.outstandingSem.sleeplist →
      journal.system.op.pc thread = .endAsleep ctx ∧
        thread ∉ journal.system.op.outstandingSem.sleeplist) :
    Sealed { journal with system := after } := by
  constructor
  · exact fun ctx => (marks.past ctx).trans history
  · exact marks.grown.trans history
  · exact fun ctx stays => marks.settled ctx (phases ctx stays)
  · exact fun thread passes => marks.passed thread (passed thread passes)
  · intro thread ctx asleep posted
    obtain ⟨slept, absent⟩ := released thread ctx asleep posted
    exact marks.released thread ctx slept absent

theorem unmoved (marks : Sealed journal) (after : System)
    (history : journal.system.history <+: after.history)
    (op : after.op = journal.system.op)
    (installs : ∀ thread round, after.Installs thread round →
      ∃ before, journal.system.Installs thread before) :
    Sealed { journal with system := after } := by
  apply marks.carry after history
  · intro ctx
    rw [op]
    exact id
  · rintro thread (⟨round, installing⟩ | committed)
    · exact Or.inl (installs thread round installing)
    · rw [op] at committed
      exact Or.inr committed
  · intro thread ctx asleep posted
    rw [op] at asleep posted
    exact ⟨asleep, posted⟩

theorem still (sblock : SuperBlock) (start : Disk) (marks : Sealed journal) {after : System}
    (still : Still sblock start journal.system after) (op : after.op = journal.system.op)
    (history : journal.system.history <+: after.history) :
    Sealed { journal with system := after } :=
  marks.unmoved after history op fun thread round installs =>
    ⟨round, (still.installs thread round).mp installs⟩

/-- A thread goes on in the log; its program counter afterwards tells nothing new. -/
theorem went (marks : Sealed journal) {op : OpState} {next : Pc}
    (pcs : op.pc = Function.update journal.system.op.pc thread next)
    (sem : op.outstandingSem = journal.system.op.outstandingSem)
    (phases : ∀ ctx, op.phase ctx ≠ .ending → journal.system.op.phase ctx ≠ .ending)
    (uncommitted : ∀ ctx, next ≠ .committed ctx) (awake : ∀ ctx, next ≠ .endAsleep ctx) :
    Sealed { journal with system := { journal.system with op := op } } := by
  apply marks.carry { journal.system with op := op } List.prefix_rfl phases
  · rintro other (installs | ⟨ctx, committed⟩)
    · exact Or.inl installs
    · change op.pc other = _ at committed
      rw [pcs] at committed
      exact Or.inr ⟨ctx, (Accounted.pc_other committed (uncommitted ctx).symm).2⟩
  · intro other ctx asleep posted
    change op.pc other = _ at asleep
    change other ∉ op.outstandingSem.sleeplist at posted
    rw [pcs] at asleep
    rw [sem] at posted
    exact ⟨(Accounted.pc_other asleep (awake ctx).symm).2, posted⟩

/-- `cache_end_op` returns to a thread that was woken. -/
theorem woken (marks : Sealed journal) {ctx : CtxId}
    (located : journal.system.op.pc thread = .endAsleep ctx)
    (posted : thread ∉ journal.system.op.outstandingSem.sleeplist) :
    Sealed { journal with system :=
      { journal.system with op := journal.system.op.finish thread ctx } } := by
  constructor
  · exact marks.past
  · exact marks.grown
  · intro other stays
    by_cases own : other = ctx
    · rw [own]
      exact marks.released thread ctx located posted
    · apply marks.settled other
      change Function.update journal.system.op.phase ctx .unused other ≠ .ending at stays
      rwa [Function.update_of_ne own] at stays
  · rintro other (installs | ⟨current, committed⟩)
    · exact marks.passed other (Or.inl installs)
    · have before := (Accounted.pc_other committed nofun).2
      exact marks.passed other (Or.inr ⟨current, before⟩)
  · intro other current asleep absent
    exact marks.released other current (Accounted.pc_other asleep nofun).2 absent

/-- A section of `cache_begin_op` or of `cache_end_op`. -/
theorem operated (marks : Sealed journal) (orderly : Orderly sblock journal.system)
    {part : OpAction} {op : OpState} (apart : part.Apart)
    (taken : opStep journal.system.op part = .ok op) :
    Sealed { journal with system := { journal.system with op := op } } := by
  cases part with
  | sync thread ctx blockNo => cases apart
  | commitReturn thread => cases apart
  | beginOp thread ctx =>
      obtain ⟨_, unused, rfl⟩ := OpState.beginOp_ok taken
      refine marks.went rfl rfl ?_ (fun _ => nofun) (fun _ => nofun)
      intro other stays
      by_cases own : other = ctx
      · rw [own, unused]
        exact nofun
      · change Function.update journal.system.op.phase ctx .starting other ≠ .ending at stays
        rwa [Function.update_of_ne own] at stays
  | beginTry thread =>
      obtain ⟨ctx, located, ⟨_, rfl⟩ | ⟨_, _, rfl⟩⟩ := OpState.beginTry_ok taken
      · exact marks.went rfl rfl (fun _ => id) (fun _ => nofun) (fun _ => nofun)
      · refine marks.went rfl rfl ?_ (fun _ => nofun) (fun _ => nofun)
        intro other stays
        by_cases own : other = ctx
        · have phased := orderly.engaged.tracked.control.phased thread ctx (by rw [located]; rfl)
          rw [own, phased, located]
          exact nofun
        · change Function.update journal.system.op.phase ctx .running other ≠ .ending at stays
          rwa [Function.update_of_ne own] at stays
  | beginSleep thread =>
      obtain ⟨ctx, _, rfl⟩ := OpState.beginSleep_ok taken
      refine marks.went rfl rfl (fun _ => id) ?_ ?_
      · intro other
        split
        · exact nofun
        · exact nofun
      · intro other
        split
        · exact nofun
        · exact nofun
  | beginWake thread =>
      obtain ⟨ctx, _, _, rfl⟩ := OpState.beginWake_ok taken
      exact marks.went rfl rfl (fun _ => id) (fun _ => nofun) (fun _ => nofun)
  | endOp thread ctx =>
      have phases : ∀ other, Function.update journal.system.op.phase ctx .ending other ≠ .ending →
          journal.system.op.phase other ≠ .ending := by
        intro other stays
        by_cases own : other = ctx
        · rw [own, Function.update_self] at stays
          exact absurd rfl stays
        · rwa [Function.update_of_ne own] at stays
      obtain ⟨_, _, _, ⟨_, rfl⟩ | ⟨_, _, _, _, _, _, rfl⟩⟩ := OpState.endOp_ok taken
      · exact marks.went rfl rfl phases (fun _ => nofun) (fun _ => nofun)
      · exact marks.went rfl rfl phases (fun _ => nofun) (fun _ => nofun)
  | endSleep thread =>
      obtain ⟨ctx, located, ⟨granted, _⟩ | ⟨_, rfl⟩⟩ := OpState.endSleep_ok taken
      · rw [orderly.engaged.grouping.must_sleep] at granted
        cases granted
      · refine marks.carry _ List.prefix_rfl (fun _ => id) ?_ ?_
        · rintro other (installs | ⟨current, committed⟩)
          · exact Or.inl installs
          · exact Or.inr ⟨current, (Accounted.pc_other committed nofun).2⟩
        · intro other current asleep posted
          change Function.update journal.system.op.pc thread (.endAsleep ctx) other = _ at asleep
          change other ∉ (waitSem thread journal.system.op.outstandingSem).2.sleeplist at posted
          rw [orderly.engaged.grouping.must_sleep, List.mem_cons, not_or] at posted
          rw [Function.update_of_ne posted.1] at asleep
          exact ⟨asleep, posted.2⟩
  | endWake thread =>
      obtain ⟨ctx, located, posted, rfl⟩ := OpState.endWake_ok taken
      exact marks.woken located posted
  | commitDone thread =>
      obtain ⟨ctx, located, _, _, _, _, _, _, _, _, _, _, rfl⟩ := OpState.commitDone_ok taken
      exact of_all _ (marks.passed thread (Or.inr ⟨ctx, located⟩)) marks.grown

/-- A commit that has written its header returns. -/
theorem finished (marks : Sealed journal) {round : Round} (after : System)
    (installs : journal.system.Installs thread round)
    (history : after.history = journal.system.history) :
    Sealed { journal with system := after } := by
  apply of_all { journal with system := after } (marks.passed thread (Or.inl ⟨round, installs⟩))
  change journal.durable <+: after.history
  rw [history]
  exact marks.grown

theorem advance (marks : Sealed journal) (orderly : Orderly sblock journal.system)
    {action : Action} {after : System}
    (taken : systemStep sblock journal.system action = .ok after) :
    Sealed (journal.advance action after) := by
  by_cases commits : journal.system.commitsAt action = true
  · -- Whatever was sealed is older than this step.
    have grows := history_grows (System.step_outcome taken)
    apply of_all
    · intro ctx
      change _ <+: if _ then _ else _
      rw [if_pos commits]
      exact (marks.past ctx).trans grows
    · change (if _ then _ else _) <+: after.history
      simp only [if_pos commits, List.prefix_rfl]
  · have durable : journal.advance action after = { journal with system := after } := by
      unfold Journal.advance
      rw [if_neg commits]
    rw [durable]
    have outcome := System.step_outcome taken
    have grows := history_grows outcome
    cases outcome with
    | operated part op apart outside returned => exact marks.operated orderly apart returned
    | sought thread use blockNo chunk asked enters fresh =>
        exact marks.unmoved _ grows rfl fun other round installs =>
          ⟨round, (enters.installs chunk other round).mp installs⟩
    | locked thread use blockNo addr located free =>
        refine marks.still sblock (fun _ _ => 0) (Still.locked (fun _ _ => 0) _ located) ?_ grows
        cases use with
        | caller => rfl
        | source round => rfl
        | target round src => rfl
    | slept thread use blockNo addr located returned =>
        exact marks.still sblock (fun _ _ => 0) (Still.slept (fun _ _ => 0) _ located) rfl grows
    | woken thread use blockNo addr located posted =>
        refine marks.still sblock (fun _ _ => 0) (Still.woken (fun _ _ => 0) located) ?_ grows
        cases use with
        | caller => rfl
        | source round => rfl
        | target round src => rfl
    | stored hold ctx data idle member outer =>
        exact marks.unmoved _ grows rfl fun _ round installs => ⟨round, installs⟩
    | synced hold ctx op idle member outer returned =>
        obtain ⟨_, _, synced, _, rfl⟩ := OpState.sync_ok returned
        refine marks.carry _ grows (fun _ => id) ?_ fun _ _ asleep posted => ⟨asleep, posted⟩
        rintro other (installs | committed)
        · exact Or.inl installs
        · exact Or.inr committed
    | flushed hold member outer =>
        exact marks.unmoved _ grows rfl fun _ round installs => ⟨round, installs⟩
    | released hold idle member outer =>
        refine marks.unmoved _ grows rfl fun other round installs => ⟨round, ?_⟩
        refine (System.installs_of_stage (.unlocking .caller hold.addr) rfl ?_ other
          round).mp installs
        rw [idle.2]
        rfl
    | unlocked thread release addr woken lock located posted =>
        exact marks.still sblock (fun _ _ => 0) (Still.unlocked (fun _ _ => 0) lock located) rfl grows
    | started thread ctx chunk outside committing listed =>
        exact marks.still sblock (fun _ _ => 0) (Still.started (fun _ _ => 0) outside) rfl grows
    | logged thread round chunk located logging complete =>
        refine absurd ?_ commits
        change (journal.system.place thread).commitsAt _ = true
        rw [located]
        change (!round.installing && decide _) = true
        rw [logging, decide_eq_true complete]
        rfl
    | copied thread round src dst chunk located =>
        refine marks.unmoved _ grows rfl fun other round' installs => ⟨round', ?_⟩
        refine (System.installs_of_stage (.writing round src dst) rfl ?_ other
          round').mp installs
        rw [located]
        rfl
    | written thread round src dst chunk located =>
        refine marks.unmoved _ grows rfl fun other round' installs => ?_
        by_cases mover : other = thread
        · subst mover
          obtain ⟨staged, installing⟩ := installs
          change (Function.update journal.system.place other _ other).stage = _ at staged
          rw [Function.update_self] at staged
          cases staged
          exact ⟨round, by rw [located]; rfl, installing⟩
        · have staged := installs.1
          change (Function.update journal.system.place thread _ other).stage = _ at staged
          rw [Function.update_of_ne mover] at staged
          exact ⟨round', staged, installs.2⟩
    | dropped thread release addr chunk located =>
        exact marks.still sblock (fun _ _ => 0) (Still.dropped (fun _ _ => 0) orderly located) rfl grows
    | finished thread op chunk written located returned =>
        rcases located with ⟨outside, _, empty⟩ | ⟨round, located, installing, all, rfl⟩
        · refine absurd ?_ commits
          change (journal.system.place thread).commitsAt _ = true
          rw [outside, empty]
          rfl
        · exact marks.finished _ ⟨by rw [located]; rfl, installing⟩ rfl

theorem mark {next : Journal} (marks : Sealed next) {op : OpState} {ctx : CtxId}
    (tracked : Tracked op) (grouping : Grouping op) (orderly : Orderly sblock next.system)
    (outside : next.system.place thread = .outside) (ended : op.endOp thread ctx = .ok next.system.op) :
    Sealed (next.mark (some ctx)) := by
  obtain ⟨_, running, idle, effect⟩ := OpState.endOp_ok ended
  have pcs : ∃ pc, (pc = .committing ctx ∨ pc = .endLocked ctx) ∧
      next.system.op.pc = Function.update op.pc thread pc ∧
      next.system.op.phase = Function.update op.phase ctx .ending := by
    rcases effect with ⟨_, same⟩ | ⟨_, _, _, _, _, _, same⟩
    · exact ⟨_, Or.inl rfl, by rw [same]; rfl, by rw [same]; rfl⟩
    · exact ⟨_, Or.inr rfl, by rw [same]; rfl, by rw [same]; rfl⟩
  obtain ⟨pc, kinds, pcs, phases⟩ := pcs
  have quiet : ∀ other, ¬next.system.Passed other := by
    have commits : ∀ other, (next.system.op.pc other).Commits → other = thread := by
      intro other commits
      by_contra different
      rw [pcs, Function.update_of_ne different] at commits
      exact grouping.nobody_commits idle other commits
    rintro other (⟨round, installs⟩ | ⟨current, committed⟩)
    · obtain ⟨current, committing⟩ :=
        orderly.engaged.commits_of_inner (Place.inner_of_stage installs.1)
      have mover := commits other (by rw [committing]; trivial)
      have staged := installs.1
      rw [mover, outside] at staged
      cases staged
    · have mover := commits other (by rw [committed]; trivial)
      rw [pcs, mover, Function.update_self] at committed
      rcases kinds with rfl | rfl
      · cases committed
      · cases committed
  have others : ∀ other, other ≠ ctx → (next.mark (some ctx)).sealed other = next.sealed other :=
    fun other different => Function.update_of_ne different _ _
  constructor
  · intro other
    by_cases own : other = ctx
    · subst own
      change Function.update next.sealed other _ other <+: _
      rw [Function.update_self]
      exact List.prefix_rfl
    · rw [others other own]
      exact marks.past other
  · exact marks.grown
  · intro other stays
    have different : other ≠ ctx := by
      rintro rfl
      change next.system.op.phase other ≠ .ending at stays
      rw [phases, Function.update_self] at stays
      exact stays rfl
    rw [others other different]
    exact marks.settled other stays
  · intro other passes
    exact absurd passes (quiet other)
  · intro other current asleep posted
    have different : current ≠ ctx := by
      rintro rfl
      change next.system.op.pc other = _ at asleep
      rw [pcs] at asleep
      have before := (Accounted.pc_other asleep (by rcases kinds with rfl | rfl <;> nofun)).2
      have phased := tracked.control.phased other current (by rw [before]; rfl)
      rw [running, before] at phased
      cases phased
    rw [others current different]
    exact marks.released other current asleep posted

end Sealed

/-! ### Whole runs -/

/-- Everything that holds of a journal between two steps. -/
structure Journal.Intact (sblock : SuperBlock) (start : Disk) (journal : Journal) : Prop where
  orderly : Orderly sblock journal.system
  coherent : Coherent sblock start journal.system
  grounded : Grounded sblock start journal.system
  persisted : Persisted sblock start journal.durable journal.system
  marks : Sealed journal

theorem Volume.recovered_header {sblock : SuperBlock} {heap : Addr → Block} {disk : Disk}
    {volume : Volume} (recovered : recoverFromLog sblock (boot heap disk) = .ok volume) :
    (diskHeader sblock volume.disk).numBlocks = 0 := by
  obtain ⟨installed, _, returned⟩ := Outcomes.bind_eq_ok recovered
  cases returned
  change (diskHeader sblock (Function.update installed.disk sblock.headerBlock _)).numBlocks = 0
  unfold diskHeader
  rw [Function.update_self]
  exact cleared_numBlocks installed.header

namespace Journal.Intact

variable {sblock : SuperBlock} {start : Disk} {journal next : Journal}

theorem initial {heap : Addr → Block} {disk : Disk} {volume : Volume}
    (recovered : recoverFromLog sblock (boot heap disk) = .ok volume) :
    Intact sblock volume.disk (Journal.initial sblock volume) := by
  have clean := Volume.recovered_clean recovered
  constructor
  · exact Orderly.initial recovered
  · exact Coherent.initial recovered
  · constructor
    · intro addr member outside _ _
      exact (clean addr member).2 (ne_headerBlock_of_outside outside)
    · intro blockNo _ _
      rfl
    · intro thread round index installs
      cases installs.1
  · constructor
    · intro _
      exact ⟨Volume.recovered_header recovered, fun _ _ => rfl⟩
    · intro thread round installs
      cases installs.1
  · exact Sealed.of_all _ (fun _ => List.prefix_rfl) List.prefix_rfl

theorem step (intact : Intact sblock start journal) {action : Action}
    (journaled : Journaled sblock journal action)
    (taken : journalStep sblock journal action = .ok next) : Intact sblock start next := by
  obtain ⟨after, returned, rfl⟩ := journalStep_ok taken
  obtain ⟨disciplined, logs⟩ := journaled
  have outcome := System.step_outcome returned
  have orderly := intact.orderly.step disciplined outcome
  have marks := intact.marks.advance intact.orderly returned
  constructor
  · rw [Journal.mark_system]
    exact orderly
  · rw [Journal.mark_system]
    exact intact.coherent.step intact.orderly disciplined outcome
  · rw [Journal.mark_system]
    exact intact.grounded.step intact.coherent intact.orderly (Action.ne_flush logs) disciplined
      outcome
  · rw [Journal.mark_system, Journal.mark_durable]
    exact intact.persisted.step intact.coherent intact.grounded intact.orderly
      (Action.ne_flush logs) returned
  · cases action with
    | endOp thread ctx =>
        obtain ⟨outside, op, ended, same⟩ := System.operate_ok returned
        have there : after.place thread = .outside := by
          rw [same]
          exact outside
        apply marks.mark intact.orderly.engaged.tracked intact.orderly.engaged.grouping orderly
          there
        change _ = Except.ok after.op
        rw [same]
        exact ended
    | _ => exact marks

theorem of_run {heap : Addr → Block} {disk : Disk} {volume : Volume}
    (recovered : recoverFromLog sblock (boot heap disk) = .ok volume) {actions : List Action}
    (run : Run (journalStep sblock) (Journaled sblock) (Journal.initial sblock volume) actions
      journal) : Intact sblock volume.disk journal :=
  run.invariant (initial recovered) fun _ _ _ intact journaled taken =>
    intact.step journaled taken

theorem durable_closed (intact : Intact sblock start journal) {action : Action}
    (taken : journalStep sblock journal action = .ok next)
    (moved : next.durable ≠ journal.durable) : journal.system.op.opened = [] := by
  obtain ⟨after, returned, rfl⟩ := journalStep_ok taken
  rw [Journal.mark_durable] at moved
  have commits : journal.system.commitsAt action = true := by
    by_contra stays
    apply moved
    change (if _ then _ else _) = _
    rw [if_neg stays]
  have grouping := intact.orderly.engaged.grouping
  have committing : ∃ thread ctx, journal.system.op.pc thread = .committing ctx := by
    obtain ⟨thread, ⟨round, located, _⟩ | ⟨_, _, op, ended, _⟩⟩ :=
      System.commitsAt_ok commits returned
    · have inner : (journal.system.place thread).Inner := by
        rw [located]
        trivial
      obtain ⟨ctx, commits⟩ := intact.orderly.engaged.commits_of_inner inner
      exact ⟨thread, ctx, commits⟩
    · obtain ⟨ctx, commits, _⟩ := OpState.commitReturn_ok ended
      exact ⟨thread, ctx, commits⟩
  obtain ⟨thread, ctx, commits⟩ := committing
  exact grouping.closed (grouping.flagged thread (by rw [commits]; trivial))

end Journal.Intact

/-- Wherever the machine stops in a run, and however often recovery is cut off, recovery
gives every block outside the log the content it was released with before the last
commit whose header had reached the device, and an empty log. -/
theorem crash_recovers_last_commit (sblock : SuperBlock) (heap : Addr → Block) (disk : Disk)
    (volume : Volume) (recovered : recoverFromLog sblock (boot heap disk) = .ok volume)
    (actions : List Action) (journal : Journal)
    (run : Run (journalStep sblock) (Journaled sblock) (Journal.initial sblock volume) actions
      journal)
    (found : Disk) (restarted : Restarted sblock journal.system.disk found) (memory : Addr → Block) :
    ∃ final, recoverFromLog sblock (boot memory found) = .ok final ∧
      (∀ blockNo, ¬sblock.InLog blockNo →
        final.disk blockNo = contentIn volume.disk journal.durable blockNo) ∧
      (diskHeader sblock final.disk).numBlocks = 0 := by
  have intact := Journal.Intact.of_run recovered run
  exact ((intact.persisted.recovers intact.orderly).restarted restarted).recovered memory

/-- The run after which the header of the commit is on the device and nothing is installed. -/
def crashInCommit : List Action := storeAndCommit.take 21

/-- Steps that a cache with room for every miss allows. -/
def Journal.allows (journal : Journal) (action : Action) : Bool :=
  decide (journal.system.cache.getNumCachedBlocks < evictionThreshold ∧
    action.Permitted mkfsSuperBlock journal.system) && action.logs

theorem Journal.allows_sound (journal : Journal) (action : Action)
    (allowed : journal.allows action = true) : Journaled mkfsSuperBlock journal action := by
  obtain ⟨checked, logs⟩ := Bool.and_eq_true_iff.mp allowed
  obtain ⟨room, permitted⟩ := of_decide_eq_true checked
  refine ⟨⟨permitted, ?_⟩, logs⟩
  intro sought _ _ addr _
  exact Or.inr (Nat.lt_add_right _ room)

/-- The block is still old in its place, and a release with a seven in front is durable. -/
def Journal.aheadOfDevice (journal : Journal) : Bool :=
  match journal.durable with
  | [.returned 0 100 _, .released 0 100 last] =>
      firstByte last == 7 && firstByte (journal.system.disk 100) == 0
  | _ => false

theorem crash_recovers_last_commit_installing : ∃ (journal : Journal) (final : Volume),
    Run (journalStep mkfsSuperBlock) (Journaled mkfsSuperBlock)
      (Journal.initial mkfsSuperBlock emptyBcache.volume) crashInCommit journal ∧
    firstByte (journal.system.disk 100) = 0 ∧
    recoverFromLog mkfsSuperBlock (boot (fun _ => initBlock) journal.system.disk) = .ok final ∧
    firstByte (final.disk 100) = 7 := by
  have passed : checkRun (journalStep mkfsSuperBlock) Journal.allows Journal.aheadOfDevice
      (Journal.initial mkfsSuperBlock emptyBcache.volume) crashInCommit = true := by
    decide +kernel
  obtain ⟨journal, run, checked⟩ := Run.of_checkRun Journal.allows_sound passed
  obtain ⟨final, returned, content, _⟩ := crash_recovers_last_commit mkfsSuperBlock
    (fun _ => initBlock) (fun _ _ => 0) emptyBcache.volume rfl crashInCommit journal run
    journal.system.disk .crash (fun _ => initBlock)
  unfold Journal.aheadOfDevice at checked
  split at checked
  · rename_i first last durable
    obtain ⟨new, old⟩ := Bool.and_eq_true_iff.mp checked
    refine ⟨journal, final, run, eq_of_beq old, returned, ?_⟩
    have kept := content 100 (by decide)
    rw [durable] at kept
    change final.disk 100 = contentIn _ ([.returned 0 100 first] ++ [.released 0 100 last]) 100
      at kept
    rw [contentIn_released, Function.update_self] at kept
    rw [kept]
    exact eq_of_beq new
  · cases checked

/-- What is durable is a first part of what callers have released, it moves only while no
operation is open, and once the end of an operation has returned it covers all that was
released when `cache_end_op` was called. -/
theorem ended_operations_durable (sblock : SuperBlock) (heap : Addr → Block) (disk : Disk)
    (volume : Volume) (recovered : recoverFromLog sblock (boot heap disk) = .ok volume)
    (actions : List Action) (journal : Journal)
    (run : Run (journalStep sblock) (Journaled sblock) (Journal.initial sblock volume) actions
      journal) :
    journal.durable <+: journal.system.history ∧
      (∀ ctx, journal.system.op.phase ctx ≠ .ending → journal.sealed ctx <+: journal.durable) ∧
      ∀ action next, journalStep sblock journal action = .ok next →
        next.durable ≠ journal.durable → journal.system.op.opened = [] := by
  have intact := Journal.Intact.of_run recovered run
  exact ⟨intact.marks.grown, intact.marks.settled,
    fun _ _ taken moved => intact.durable_closed taken moved⟩

theorem ended_operations_durable_committed : ∃ journal : Journal,
    Run (journalStep mkfsSuperBlock) (Journaled mkfsSuperBlock)
      (Journal.initial mkfsSuperBlock emptyBcache.volume) storeAndCommit journal ∧
    (journal.sealed 0).length = 2 ∧ journal.sealed 0 <+: journal.durable := by
  have passed : checkRun (journalStep mkfsSuperBlock) Journal.allows
      (fun journal => decide ((journal.sealed 0).length = 2 ∧
        journal.system.op.phase 0 ≠ .ending))
      (Journal.initial mkfsSuperBlock emptyBcache.volume) storeAndCommit = true := by
    decide +kernel
  obtain ⟨journal, run, checked⟩ := Run.of_checkRun Journal.allows_sound passed
  obtain ⟨length, ended⟩ := of_decide_eq_true checked
  have durable := ended_operations_durable mkfsSuperBlock (fun _ => initBlock) (fun _ _ => 0)
    emptyBcache.volume rfl storeAndCommit journal run
  exact ⟨journal, run, length, durable.2.1 0 ended⟩

end LabKernel.Fs
