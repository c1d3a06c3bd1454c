/-
The part of the 64-bit Arm instruction set that saves and restores registers.

Memory is a word for each address that is a multiple of eight. A program without jumps is a list
of instructions, and `Runs` says what holds at each of its points and behind it. A frame is a row
of registers saved on the stack: pushing pairs leaves one, and popping takes the registers from it.
Nothing here names a program.
-/

import Mathlib

set_option autoImplicit false

namespace LabKernel.Arm

abbrev Word := BitVec 64

/-- `x0` to `x30`. -/
abbrev Reg := Fin 31

instance regNeZero : NeZero 31 := ⟨by decide⟩

abbrev Words := Word → Word

inductive SysReg where
  | ttbr0El1
  | tpidrEl0
  | spEl0
  | elrEl1
  | spsrEl1
  deriving DecidableEq, Repr

def lr : Reg := 30

/-- A core at exception level 1; `sp` is the stack pointer of that level. -/
structure Core where
  reg : Reg → Word
  sp : Word
  pc : Word
  pstate : Word
  sys : SysReg → Word

namespace Core

def setReg (core : Core) (target : Reg) (value : Word) : Core :=
  { core with reg := Function.update core.reg target value }

def advance (core : Core) : Core := { core with pc := core.pc + 4 }

end Core

inductive Inst where
  /-- `stp first, second, [sp, #-16]!` -/
  | pushp (first second : Reg)
  /-- `ldp first, second, [sp], #16` -/
  | popp (first second : Reg)
  | movFromSp (target : Reg)
  | movToSp (source : Reg)
  /-- `str source, [address]` -/
  | str (source address : Reg)
  | mrs (target : Reg) (source : SysReg)
  | msr (target : SysReg) (source : Reg)
  | ret
  | eret
  deriving DecidableEq, Repr

inductive Fault where
  | stackAlignment
  | alignment
  deriving DecidableEq, Repr

def Inst.touches (core : Core) : Inst → List Word
  | .pushp _ _ => [core.sp - 16, core.sp - 8]
  | .popp _ _ => [core.sp, core.sp + 8]
  | .str _ address => [core.reg address]
  | _ => []

def Inst.exec (core : Core) (mem : Words) : Inst → Except Fault (Core × Words)
  | .pushp first second =>
      if core.sp.toNat % 16 = 0 then
        .ok ({ core.advance with sp := core.sp - 16 },
          Function.update (Function.update mem (core.sp - 16) (core.reg first)) (core.sp - 8)
            (core.reg second))
      else .error .stackAlignment
  | .popp first second =>
      if core.sp.toNat % 16 = 0 then
        .ok (((({ core.advance with sp := core.sp + 16 } : Core).setReg first
          (mem core.sp)).setReg second (mem (core.sp + 8))), mem)
      else .error .stackAlignment
  | .movFromSp target => .ok (core.advance.setReg target core.sp, mem)
  | .movToSp source => .ok ({ core.advance with sp := core.reg source }, mem)
  | .str source address =>
      if (core.reg address).toNat % 8 = 0 then
        .ok (core.advance, Function.update mem (core.reg address) (core.reg source))
      else .error .alignment
  | .mrs target source => .ok (core.advance.setReg target (core.sys source), mem)
  | .msr target source =>
      .ok ({ core.advance with sys := Function.update core.sys target (core.reg source) }, mem)
  | .ret => .ok ({ core with pc := core.reg lr }, mem)
  | .eret => .ok ({ core with pc := core.sys .elrEl1, pstate := core.sys .spsrEl1 }, mem)

/-! ### Programs -/

/-- From here the program runs to its end without a fault. It touches no address outside
`region`, the stack pointer meets `stay` at each point, and `post` holds at the end. -/
def Runs (region : Word → Prop) (stay : Word → Prop) (post : Core → Words → Prop) :
    List Inst → Core → Words → Prop
  | [], core, mem => stay core.sp ∧ post core mem
  | inst :: rest, core, mem =>
      stay core.sp ∧ (∀ address ∈ inst.touches core, region address) ∧
        ∃ core' mem', inst.exec core mem = .ok (core', mem') ∧
          Runs region stay post rest core' mem'

def execAll : List Inst → Core → Words → Except Fault (Core × Words)
  | [], core, mem => .ok (core, mem)
  | inst :: rest, core, mem =>
      match inst.exec core mem with
      | .ok (core', mem') => execAll rest core' mem'
      | .error fault => .error fault

theorem Runs.execAll {region : Word → Prop} {stay : Word → Prop} {post : Core → Words → Prop}
    {program : List Inst} {core : Core} {mem : Words}
    (runs : Runs region stay post program core mem) :
    ∃ core' mem', execAll program core mem = .ok (core', mem') ∧ post core' mem' := by
  induction program generalizing core mem with
  | nil => exact ⟨core, mem, rfl, runs.2⟩
  | cons inst rest ih =>
      obtain ⟨-, -, core', mem', executed, later⟩ := runs
      obtain ⟨final, finalMem, finished, holds⟩ := ih later
      refine ⟨final, finalMem, ?_, holds⟩
      simp only [Arm.execAll, executed]
      exact finished

/-- An instruction that touches no memory. -/
theorem Runs.quiet {region : Word → Prop} {stay : Word → Prop} {post : Core → Words → Prop}
    {inst : Inst} {rest : List Inst} {core core' : Core} {mem : Words} (stays : stay core.sp)
    (touches : inst.touches core = []) (executed : inst.exec core mem = .ok (core', mem))
    (later : Runs region stay post rest core' mem) :
    Runs region stay post (inst :: rest) core mem := by
  refine ⟨stays, ?_, core', mem, executed, later⟩
  rw [touches]
  intro address member
  cases member

def AgreeOn (region : Word → Prop) (mem other : Words) : Prop :=
  ∀ address, region address → mem address = other address

section Agreement

variable {region : Word → Prop} {stay : Word → Prop} {post : Core → Words → Prop}

theorem AgreeOn.refl (mem : Words) : AgreeOn region mem mem := fun _ _ => rfl

theorem AgreeOn.symm {mem other : Words} (agree : AgreeOn region mem other) :
    AgreeOn region other mem :=
  fun address inside => (agree address inside).symm

theorem AgreeOn.mono {smaller : Word → Prop} {mem other : Words} (agree : AgreeOn region mem other)
    (subset : ∀ address, smaller address → region address) : AgreeOn smaller mem other :=
  fun address inside => agree address (subset address inside)

theorem AgreeOn.update {mem other : Words} (agree : AgreeOn region mem other)
    (address value : Word) :
    AgreeOn region (Function.update mem address value) (Function.update other address value) := by
  intro place inside
  by_cases same : place = address
  · rw [same, Function.update_self, Function.update_self]
  · rw [Function.update_of_ne same, Function.update_of_ne same]
    exact agree place inside

theorem AgreeOn.update_left {mem other : Words} (agree : AgreeOn region mem other)
    {address : Word} (outside : ¬ region address) (value : Word) :
    AgreeOn region (Function.update mem address value) other := by
  intro place inside
  have other : place ≠ address := by
    intro same
    rw [same] at inside
    exact outside inside
  rw [Function.update_of_ne other]
  exact agree place inside

theorem Inst.exec_agree {inst : Inst} {core core' : Core} {mem mem' other : Words}
    (executed : inst.exec core mem = .ok (core', mem'))
    (inside : ∀ address ∈ inst.touches core, region address) (agree : AgreeOn region mem other) :
    ∃ other', inst.exec core other = .ok (core', other') ∧ AgreeOn region mem' other' := by
  cases inst with
  | pushp first second =>
      simp only [Inst.exec] at executed ⊢
      split at executed
      · rename_i aligned
        cases executed
        rw [if_pos aligned]
        exact ⟨_, rfl, (agree.update _ _).update _ _⟩
      · cases executed
  | popp first second =>
      simp only [Inst.exec] at executed ⊢
      have low := agree core.sp (inside _ (by simp [touches]))
      have high := agree (core.sp + 8) (inside _ (by simp [touches]))
      split at executed
      · rename_i aligned
        cases executed
        rw [if_pos aligned, ← low, ← high]
        exact ⟨_, rfl, agree⟩
      · cases executed
  | str source address =>
      simp only [Inst.exec] at executed ⊢
      split at executed
      · rename_i aligned
        cases executed
        rw [if_pos aligned]
        exact ⟨_, rfl, agree.update _ _⟩
      · cases executed
  | movFromSp target =>
      cases executed
      exact ⟨_, rfl, agree⟩
  | movToSp source =>
      cases executed
      exact ⟨_, rfl, agree⟩
  | mrs target source =>
      cases executed
      exact ⟨_, rfl, agree⟩
  | msr target source =>
      cases executed
      exact ⟨_, rfl, agree⟩
  | ret =>
      cases executed
      exact ⟨_, rfl, agree⟩
  | eret =>
      cases executed
      exact ⟨_, rfl, agree⟩

/-- A run does not notice a change of the memory outside its region. -/
theorem Runs.agree {program : List Inst} {core : Core} {mem other : Words}
    (runs : Runs region stay post program core mem) (agree : AgreeOn region mem other)
    (local_ : ∀ core mem other, AgreeOn region mem other → post core mem → post core other) :
    Runs region stay post program core other := by
  induction program generalizing core mem other with
  | nil => exact ⟨runs.1, local_ _ _ _ agree runs.2⟩
  | cons inst rest ih =>
      obtain ⟨stays, inside, core', mem', executed, later⟩ := runs
      obtain ⟨other', executed', agree'⟩ := Inst.exec_agree executed inside agree
      exact ⟨stays, inside, core', other', executed', ih later agree'⟩

theorem Inst.exec_outside {inst : Inst} {core core' : Core} {mem mem' : Words}
    (executed : inst.exec core mem = .ok (core', mem')) {address : Word}
    (outside : address ∉ inst.touches core) : mem' address = mem address := by
  cases inst with
  | pushp first second =>
      simp only [touches, List.mem_cons, List.not_mem_nil, or_false, not_or] at outside
      simp only [Inst.exec] at executed
      split at executed
      · cases executed
        rw [Function.update_of_ne outside.2, Function.update_of_ne outside.1]
      · cases executed
  | str source place =>
      simp only [touches, List.mem_cons, List.not_mem_nil, or_false] at outside
      simp only [Inst.exec] at executed
      split at executed
      · cases executed
        exact Function.update_of_ne outside _ _
      · cases executed
  | popp first second =>
      simp only [Inst.exec] at executed
      split at executed
      · cases executed
        rfl
      · cases executed
  | movFromSp target => cases executed; rfl
  | movToSp source => cases executed; rfl
  | mrs target source => cases executed; rfl
  | msr target source => cases executed; rfl
  | ret => cases executed; rfl
  | eret => cases executed; rfl

end Agreement

/-! ### Frames -/

def Row (base : Word) (count : Nat) (address : Word) : Prop :=
  ∃ index, index < count ∧ address = base + BitVec.ofNat 64 (8 * index)

/-- The words from `base` on are the values of these registers. -/
def Frame (mem : Words) (values : Reg → Word) : Word → List Reg → Prop
  | _, [] => True
  | base, target :: rest => mem base = values target ∧ Frame mem values (base + 8) rest

/-- The words from `base` on. -/
def Stored (mem : Words) : Word → List Word → Prop
  | _, [] => True
  | base, word :: rest => mem base = word ∧ Stored mem (base + 8) rest

theorem Stored.agree {mem other : Words} {base : Word} {words : List Word}
    (stored : Stored mem base words) (agree : AgreeOn (Row base words.length) mem other) :
    Stored other base words := by
  induction words generalizing base with
  | nil => trivial
  | cons word rest ih =>
      obtain ⟨first, later⟩ := stored
      constructor
      · rw [← agree base ⟨0, Nat.succ_pos _, by simp⟩]
        exact first
      · apply ih later
        rintro address ⟨index, small, place⟩
        apply agree
        refine ⟨index + 1, Nat.succ_lt_succ small, ?_⟩
        rw [place]
        bv_omega

theorem frame_iff_stored {mem : Words} {values : Reg → Word} {base : Word} {regs : List Reg} :
    Frame mem values base regs ↔ Stored mem base (regs.map values) := by
  induction regs generalizing base with
  | nil => exact Iff.rfl
  | cons target rest ih =>
      change mem base = values target ∧ Frame mem values (base + 8) rest ↔
        mem base = values target ∧ Stored mem (base + 8) (rest.map values)
      rw [ih]

theorem Frame.agree {mem other : Words} {values : Reg → Word} {base : Word} {regs : List Reg}
    (frame : Frame mem values base regs) (agree : AgreeOn (Row base regs.length) mem other) :
    Frame other values base regs := by
  rw [frame_iff_stored] at frame ⊢
  apply frame.agree
  rw [List.length_map]
  exact agree

/-- The registers of a row of pairs, from the lowest address on. -/
def frameOf (pairs : List (Reg × Reg)) : List Reg := pairs.flatMap fun pair => [pair.1, pair.2]

/-- The last pair is pushed first, so the first one is at the top of the stack. -/
def pushAll (pairs : List (Reg × Reg)) : List Inst :=
  pairs.reverse.map fun pair => .pushp pair.1 pair.2

def popAll (pairs : List (Reg × Reg)) : List Inst := pairs.map fun pair => .popp pair.1 pair.2

@[simp] theorem frameOf_length (pairs : List (Reg × Reg)) :
    (frameOf pairs).length = 2 * pairs.length := by
  induction pairs with
  | nil => rfl
  | cons pair rest ih =>
      change (frameOf rest).length + 1 + 1 = 2 * (rest.length + 1)
      omega

theorem frameOf_append (pairs more : List (Reg × Reg)) :
    frameOf (pairs ++ more) = frameOf pairs ++ frameOf more :=
  List.flatMap_append

theorem pushAll_append (pairs : List (Reg × Reg)) (pair : Reg × Reg) :
    pushAll (pairs ++ [pair]) = .pushp pair.1 pair.2 :: pushAll pairs := by
  simp [pushAll]

theorem Frame.append {mem : Words} {values : Reg → Word} {base : Word} {regs more : List Reg}
    (low : Frame mem values base regs)
    (high : Frame mem values (base + BitVec.ofNat 64 (8 * regs.length)) more) :
    Frame mem values base (regs ++ more) := by
  induction regs generalizing base with
  | nil =>
      rw [List.length_nil, Nat.mul_zero, BitVec.add_zero] at high
      exact high
  | cons target rest ih =>
      refine ⟨low.1, ih low.2 ?_⟩
      have place : base + 8 + BitVec.ofNat 64 (8 * rest.length) =
          base + BitVec.ofNat 64 (8 * (target :: rest).length) := by
        rw [List.length_cons]
        bv_omega
      rw [place]
      exact high

theorem Frame.values {mem : Words} {values other : Reg → Word} {base : Word} {regs : List Reg}
    (frame : Frame mem values base regs) (same : ∀ target ∈ regs, values target = other target) :
    Frame mem other base regs := by
  induction regs generalizing base with
  | nil => trivial
  | cons target rest ih =>
      refine ⟨frame.1.trans (same target List.mem_cons_self), ih frame.2 ?_⟩
      intro later member
      exact same later (List.mem_cons_of_mem _ member)

/-- The registers that a frame in memory holds. -/
def readFrame (mem : Words) : Word → List Reg → Reg → Word
  | _, [] => fun _ => 0
  | base, first :: rest => fun target =>
      if target = first then mem base else readFrame mem (base + 8) rest target

theorem Frame.of_read {mem : Words} {base : Word} {regs : List Reg} (distinct : regs.Nodup) :
    Frame mem (readFrame mem base regs) base regs := by
  induction regs generalizing base with
  | nil => trivial
  | cons first rest ih =>
      obtain ⟨fresh, later⟩ := List.nodup_cons.mp distinct
      refine ⟨(if_pos rfl).symm, (ih later).values ?_⟩
      intro target member
      have other : target ≠ first := by
        intro same
        rw [same] at member
        exact fresh member
      exact (if_neg other).symm

section Stacking

variable {region : Word → Prop} {stay : Word → Prop} {post : Core → Words → Prop}
  {rest : List Inst}

def below (sp : Word) (pairs : Nat) : Word := sp - BitVec.ofNat 64 (16 * pairs)

theorem below_succ (sp : Word) (pairs : Nat) : below (sp - 16) pairs = below sp (pairs + 1) := by
  unfold below
  bv_omega

theorem below_zero (sp : Word) : below sp 0 = sp := by
  simp [below]

theorem Runs.pushAll {pairs : List (Reg × Reg)} {core : Core} {mem : Words}
    (aligned : core.sp.toNat % 16 = 0) (small : 16 * pairs.length < 2 ^ 64)
    (inside : ∀ address, Row (below core.sp pairs.length) (2 * pairs.length) address →
      region address)
    (stays : ∀ depth, depth ≤ pairs.length → stay (below core.sp depth))
    (later : ∀ core' mem', core'.sp = below core.sp pairs.length → core'.reg = core.reg →
      core'.sys = core.sys → core'.pstate = core.pstate →
      Frame mem' core.reg (below core.sp pairs.length) (frameOf pairs) →
      (∀ address, ¬ Row (below core.sp pairs.length) (2 * pairs.length) address →
        mem' address = mem address) →
      Runs region stay post rest core' mem') :
    Runs region stay post (pushAll pairs ++ rest) core mem := by
  induction pairs using List.reverseRecOn generalizing core mem with
  | nil =>
      apply later core mem (below_zero core.sp).symm rfl rfl rfl trivial
      intro address _
      rfl
  | append_singleton pairs pair ih =>
      rw [List.length_append, List.length_singleton] at small inside stays later
      rw [pushAll_append, List.cons_append]
      refine ⟨?_, ?_, _, _, if_pos aligned, ?_⟩
      · have top := stays 0 (Nat.zero_le _)
        rw [below_zero] at top
        exact top
      · intro address member
        simp only [Inst.touches, List.mem_cons, List.not_mem_nil, or_false] at member
        apply inside
        rcases member with low | high
        · refine ⟨2 * pairs.length, by omega, ?_⟩
          rw [low]
          unfold below
          bv_omega
        · refine ⟨2 * pairs.length + 1, by omega, ?_⟩
          rw [high]
          unfold below
          bv_omega
      · have moved : ∀ depth, below (core.sp - 16) depth = below core.sp (depth + 1) :=
          below_succ core.sp
        apply ih
        · change (core.sp - 16).toNat % 16 = 0
          bv_omega
        · omega
        · intro address member
          apply inside
          obtain ⟨index, less, place⟩ := member
          refine ⟨index, by omega, ?_⟩
          rw [place, ← moved]
        · intro depth less
          change stay (below (core.sp - 16) depth)
          rw [moved]
          exact stays (depth + 1) (Nat.succ_le_succ less)
        · intro core' mem' sp reg sys pstate frame same
          change core'.sp = below (core.sp - 16) _ at sp
          change Frame mem' core.reg (below (core.sp - 16) _) _ at frame
          change ∀ address, ¬ Row (below (core.sp - 16) _) _ address → _ at same
          rw [moved] at sp frame same
          have low : ¬ Row (below core.sp (pairs.length + 1)) (2 * pairs.length) (core.sp - 16) := by
            rintro ⟨index, less, place⟩
            unfold below at place
            bv_omega
          have high : ¬ Row (below core.sp (pairs.length + 1)) (2 * pairs.length) (core.sp - 8) := by
            rintro ⟨index, less, place⟩
            unfold below at place
            bv_omega
          have apart : core.sp - 16 ≠ core.sp - 8 := by bv_omega
          apply later core' mem' sp reg sys pstate
          · rw [frameOf_append]
            apply Frame.append frame
            have first : below core.sp (pairs.length + 1) +
                BitVec.ofNat 64 (8 * (frameOf pairs).length) = core.sp - 16 := by
              rw [frameOf_length]
              unfold below
              bv_omega
            have second : core.sp - 16 + 8 = core.sp - 8 := by bv_omega
            rw [first]
            refine ⟨?_, ?_, trivial⟩
            · rw [same _ low, Function.update_of_ne apart, Function.update_self]
            · rw [second, same _ high, Function.update_self]
          · intro address outside
            have gone : ¬ Row (below core.sp (pairs.length + 1)) (2 * pairs.length) address := by
              rintro ⟨index, less, place⟩
              exact outside ⟨index, by omega, place⟩
            rw [same address gone, Function.update_of_ne, Function.update_of_ne]
            · intro equal
              apply outside
              refine ⟨2 * pairs.length, by omega, ?_⟩
              rw [equal]
              unfold below
              bv_omega
            · intro equal
              apply outside
              refine ⟨2 * pairs.length + 1, by omega, ?_⟩
              rw [equal]
              unfold below
              bv_omega

def above (sp : Word) (pairs : Nat) : Word := sp + BitVec.ofNat 64 (16 * pairs)

theorem above_succ (sp : Word) (pairs : Nat) : above (sp + 16) pairs = above sp (pairs + 1) := by
  unfold above
  bv_omega

theorem above_zero (sp : Word) : above sp 0 = sp := by
  simp [above]

theorem above_below (sp : Word) (pairs : Nat) : above (below sp pairs) pairs = sp := by
  unfold above below
  bv_omega

/-- Popping pairs takes their registers from the frame at the stack pointer. -/
theorem Runs.popAll {pairs : List (Reg × Reg)} {values : Reg → Word} {core : Core} {mem : Words}
    (aligned : core.sp.toNat % 16 = 0)
    (inside : ∀ address, Row core.sp (2 * pairs.length) address → region address)
    (stays : ∀ height, height ≤ pairs.length → stay (above core.sp height))
    (frame : Frame mem values core.sp (frameOf pairs))
    (later : ∀ core' : Core, core'.sp = above core.sp pairs.length →
      (∀ target, core'.reg target =
        if target ∈ frameOf pairs then values target else core.reg target) →
      core'.sys = core.sys → core'.pstate = core.pstate →
      Runs region stay post rest core' mem) :
    Runs region stay post (popAll pairs ++ rest) core mem := by
  induction pairs generalizing core with
  | nil =>
      apply later core (above_zero core.sp).symm _ rfl rfl
      intro target
      rw [if_neg]
      exact List.not_mem_nil
  | cons pair pairs ih =>
      obtain ⟨low, high, frame⟩ := frame
      rw [List.length_cons] at inside stays later
      have moved : ∀ height, above (core.sp + 16) height = above core.sp (height + 1) :=
        above_succ core.sp
      refine ⟨?_, ?_, _, _, if_pos aligned, ?_⟩
      · have bottom := stays 0 (Nat.zero_le _)
        rw [above_zero] at bottom
        exact bottom
      · intro address member
        simp only [Inst.touches, List.mem_cons, List.not_mem_nil, or_false] at member
        apply inside
        rcases member with first | second
        · refine ⟨0, by omega, ?_⟩
          rw [first]
          bv_omega
        · refine ⟨1, by omega, ?_⟩
          rw [second]
          bv_omega
      · apply ih
        · change (core.sp + 16).toNat % 16 = 0
          bv_omega
        · rintro address ⟨index, less, place⟩
          apply inside
          refine ⟨index + 2, by omega, ?_⟩
          change address = core.sp + 16 + _ at place
          rw [place]
          bv_omega
        · intro height less
          change stay (above (core.sp + 16) height)
          rw [moved]
          exact stays (height + 1) (Nat.succ_le_succ less)
        · change Frame mem values (core.sp + 16) (frameOf pairs)
          have place : core.sp + 16 = core.sp + 8 + 8 := by bv_omega
          rw [place]
          exact frame
        · intro core' sp reg sys pstate
          change core'.sp = above (core.sp + 16) _ at sp
          rw [moved] at sp
          apply later core' sp _ sys pstate
          intro target
          rw [reg]
          change (if target ∈ frameOf pairs then values target else
            Function.update (Function.update core.reg pair.1 (mem core.sp)) pair.2
              (mem (core.sp + 8)) target) =
            if target ∈ pair.1 :: pair.2 :: frameOf pairs then values target else core.reg target
          simp only [List.mem_cons]
          by_cases taken : target ∈ frameOf pairs
          · rw [if_pos taken, if_pos (Or.inr (Or.inr taken))]
          · rw [if_neg taken]
            by_cases second : target = pair.2
            · rw [if_pos (Or.inr (Or.inl second)), second, Function.update_self, high]
            · rw [Function.update_of_ne second]
              by_cases first : target = pair.1
              · rw [if_pos (Or.inl first), first, Function.update_self, low]
              · rw [Function.update_of_ne first, if_neg]
                rintro (equal | equal | member)
                · exact first equal
                · exact second equal
                · exact taken member

end Stacking

end LabKernel.Arm
