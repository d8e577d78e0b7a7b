import Svm.Proof.Sbpf.Interpreter

/-!
# Verified programs run soundly

Every state of a run of a verified program is `Sound` (`verified_run_sound`). A
step follows the control flow of the code (`wp_step`), so that a run keeps
control in the code and a call frame at hand (`reachable_inv`); the ways a step
can end are then those of its parts.
-/

namespace Svm.Sbpf

open Machine Ebpf Run Interpreter Verifier Vector

section General

variable {exe : Executable C} {s : Interpreter C}

/-! ## The parts of a step -/

theorem endsWith_iff {result : Except EbpfError UInt64} : EndsWith exe memory s result ↔
      wp (step exe memory) (fun _ _ => False) (fun halt s' => halt = .done ∧ s'.vm.programResult = result) s := by
  constructor
  · rintro ⟨s', hs', rfl⟩
    rw [wp, hs']
    exact ⟨rfl, rfl⟩
  · intro h
    cases hs' : (step exe memory).run s with
    | ok a s' => exact (wp_ok h hs').elim
    | error halt s' =>
      obtain ⟨rfl, hresult⟩ := wp_error h hs'
      exact ⟨s', hs', hresult⟩

theorem due_lt (henabled : exe.config.enableInstructionMeter = true) (h : exhausted exe s = false) :
    s.vm.dueInsnCount.toNat < s.vm.previousInstructionMeter.toNat := by
  simpa [exhausted, henabled, UInt64.lt_iff_toNat_lt] using h

theorem wp_meterInsn (henabled : exe.config.enableInstructionMeter = true) (h : exhausted exe s = false) :
    wp (meterInsn exe) (fun _ s' => Keeps s s' ∧ s'.vm.dueInsnCount ≤ s'.vm.previousInstructionMeter) E s := by
  have hlt := due_lt henabled h
  have hmax := s.vm.previousInstructionMeter.toNat_lt
  obtain ⟨due, hdue, hdue'⟩ := U64.checkedAdd_one (a := s.vm.dueInsnCount) (by omega)
  simp only [meterInsn, wp_bind, wp_get, h, hdue]
  refine ⟨⟨rfl, rfl, rfl⟩, ?_⟩
  show due.toNat ≤ s.vm.previousInstructionMeter.toNat
  omega

theorem wp_fetch_some (hinsn : getInsn exe.text s.pc.toNat = some insn) :
    wp (fetch exe) (fun insn' s' => s' = s ∧ insn' = insn) E s := by
  have hlen := exe.text_lt
  have hlt := lt_of_getInsn hinsn
  simp only [INSN_SIZE] at hlt
  have hmul : s.reg[11].toNat * (8 : UInt64).toNat < 2 ^ 64 := by
    show s.pc.toNat * 8 < 2 ^ 64
    omega
  have hoffset : ¬ (s.reg[11] * 8).toNat ≥ exe.text.length := by
    rw [UInt64.toNat_mul, Nat.mod_eq_of_lt hmul]
    show ¬ s.pc.toNat * 8 ≥ _
    omega
  have hget : getInsn exe.text s.reg[11].toNat = some insn := hinsn
  simp only [fetch, wp_bind, wp_get, U64.checkedMul_of_lt hmul, orPanic_some, wp_pure, if_neg hoffset, hget]
  exact ⟨trivial, trivial⟩

theorem wp_fetch (h : s.pc.toNat < exe.insnCount) :
    wp (fetch exe) (fun insn s' => s' = s ∧ getInsn exe.text s.pc.toNat = some insn) E s := by
  simp only [Executable.insnCount, INSN_SIZE] at h
  obtain ⟨insn, hinsn⟩ := getInsn_of_lt exe.text (p := s.pc.toNat) (by simp only [INSN_SIZE]; omega)
  refine wp_mono (wp_fetch_some hinsn) ?_ fun _ _ h => h
  rintro _ _ ⟨rfl, rfl⟩
  exact ⟨rfl, hinsn⟩

theorem wp_traceRegisters :
    wp (traceRegisters exe) (fun _ s' => Keeps s s' ∧ s'.vm.dueInsnCount = s.vm.dueInsnCount ∧
      s'.vm.previousInstructionMeter = s.vm.previousInstructionMeter) E s := by
  simp only [traceRegisters]
  split
  · exact ⟨⟨rfl, rfl, rfl⟩, rfl, rfl⟩
  · exact ⟨Keeps.refl s, rfl, rfl⟩

theorem step_exhausted (h : exhausted exe s = true) : EndsWith exe memory s (.error .ExceededMaxInstructions) := by
  rw [endsWith_iff]
  simp only [step, meterInsn, wp_bind, wp_get, h]
  exact ⟨rfl, rfl⟩

theorem step_overrun (hlen : exe.text.length % INSN_SIZE = 0)
    (henabled : exe.config.enableInstructionMeter = true) (h : exhausted exe s = false)
    (hpc : s.pc.toNat = exe.insnCount) : EndsWith exe memory s (.error .ExecutionOverrun) := by
  have htext := exe.text_lt
  rw [endsWith_iff, step]
  refine wp_seq (wp_meterInsn henabled h) ?_
  rintro _ s1 ⟨hs1, -⟩
  have hpc1 : s1.reg[11].toNat = exe.text.length / 8 := (congrArg UInt64.toNat hs1.pc).trans hpc
  simp only [INSN_SIZE] at hlen
  have hmul : s1.reg[11].toNat * (8 : UInt64).toNat < 2 ^ 64 := by
    show s1.reg[11].toNat * 8 < 2 ^ 64
    omega
  have hoffset : (s1.reg[11] * 8).toNat ≥ exe.text.length := by
    rw [UInt64.toNat_mul, Nat.mod_eq_of_lt hmul]
    show s1.reg[11].toNat * 8 ≥ _
    omega
  simp only [fetch, wp_bind, wp_get, U64.checkedMul_of_lt hmul, orPanic_some, wp_pure, if_pos hoffset]
  exact ⟨rfl, rfl⟩

/-! ## The step -/

theorem Keeps.control (h : Keeps s s') : s'.control = s.control := by
  rw [Interpreter.control, Interpreter.control, h.pc, h.returns]

theorem Keeps.unresolved (h : Keeps s s') (hs' : exe.Unresolved s') : exe.Unresolved s := by
  rw [Executable.Unresolved, h.pc] at hs'
  exact hs'

theorem control_writePc (pc) : ({ s with reg := s.reg.set 11 pc pc_lt } : Interpreter C).control =
    ⟨pc.toNat, s.returns⟩ := by
  simp [Interpreter.control, Interpreter.pc, returns]

section Step

variable (hverify : verify exe.text exe.sbpfVersion = .ok ())
  (henabled : exe.config.enableInstructionMeter = true)
include hverify

theorem wp_execInsn (insn : Insn) (nextPc) (hready : Ready exe s) (hlt : s.pc.toNat < exe.insnCount)
    (hinsn : getInsn exe.text s.pc.toNat = some insn) (hnext : nextPc.toNat = s.pc.toNat + 1)
    (hdue : s.vm.dueInsnCount ≤ s.vm.previousInstructionMeter) : wp (execInsn exe memory insn nextPc) (Moves exe s)
      (Stops (exe.Unresolved s ∨ exe.code.Second s.pc.toNat)) s := by
  rcases armAt_or_second hverify hlt with ⟨insn', arm, harm⟩ | hsecond
  · obtain rfl : insn' = insn := by simpa [hinsn] using (Executable.armAt_eq_some.mp harm).1.symm
    rw [execInsn, (Executable.armAt_eq_some.mp harm).2]
    exact wp_mono (wp_exec hverify ⟨hready, harm, hnext, hdue⟩) (fun _ _ h => h) fun _ _ h => h.mono .inl
  · rw [execInsn, opc_of_second hverify hsecond hinsn, selectArm_zero]
    exact stops_throwErr (by decide) (fun _ => .inr hsecond) _ _

include henabled

/-- A step follows the control flow of the code, and leaves a frame for a call. -/
theorem wp_step (memory) (hready : Ready exe s) (hle : s.pc.toNat ≤ exe.insnCount) : wp (step exe memory)
      (fun _ s' => (∃ t, Control.Step exe.code t s.control s'.control) ∧ Ready exe s')
      (Stops (exe.Unresolved s ∨ exe.code.Second s.pc.toNat)) s := by
  have stops_of_endsWith {err : EbpfError} (h : EndsWith exe memory s (.error err))
      (hinvalid : err ≠ .InvalidInstruction) (hunsupported : err ≠ .UnsupportedInstruction) :
      wp (step exe memory) (fun _ s' => (∃ t, Control.Step exe.code t s.control s'.control) ∧ Ready exe s')
        (Stops (exe.Unresolved s ∨ exe.code.Second s.pc.toNat)) s := by
    refine wp_mono (endsWith_iff.mp h) (fun _ _ h => h.elim) ?_
    rintro halt s' ⟨rfl, hresult⟩
    refine ⟨?_, fun h => ?_⟩
    · rw [hresult]
      exact fun h => hinvalid (Except.error.inj h)
    · rw [hresult] at h
      exact absurd (Except.error.inj h) hunsupported
  cases hexhausted : exhausted exe s with
  | true => exact stops_of_endsWith (step_exhausted hexhausted) (by decide) (by decide)
  | false =>
    rcases hle.lt_or_eq with hlt | heq
    · rw [step]
      refine wp_seq (wp_meterInsn henabled hexhausted) ?_
      rintro _ s0 ⟨hs1, hdue⟩
      refine wp_seq (wp_fetch (by rw [hs1.pc]; exact hlt)) ?_
      rintro insn s1 ⟨rfl, hinsn⟩
      have hcount := exe.insnCount_lt
      obtain ⟨nextPc, hnext, hnext'⟩ :=
        U64.checkedAdd_one (a := s1.pc) (by rw [hs1.pc]; omega)
      rw [wp_bind, wp_readReg (by omega), show U64.checkedAdd s1.reg[11] 1 = some nextPc from hnext, orPanic_some,
        wp_bind, wp_pure]
      refine wp_seq wp_traceRegisters ?_
      rintro _ s2 ⟨hs2, hdue2, hmeter2⟩
      have hkeeps := hs1.trans hs2
      rw [wp_bind]
      refine wp_mono (wp_execInsn hverify insn nextPc (hready.keeps hkeeps) ?_ ?_ ?_ ?_)
        ?_ ?_
      · rw [hkeeps.pc]
        exact hlt
      · rw [hs2.pc]
        exact hinsn
      · rw [hs2.pc, hnext']
      · rw [hdue2, hmeter2]
        exact hdue
      · rintro pc s3 ⟨⟨t, ht⟩, hready3⟩
        rw [hkeeps.control, ← control_writePc] at ht
        exact ⟨⟨t, ht⟩, hready3.callDepth_lt, hready3.maxCallDepth_le⟩
      · intro halt s3 h
        refine h.mono (Or.imp hkeeps.unresolved fun h => ?_)
        rwa [hkeeps.pc] at h
    · exact stops_of_endsWith (step_overrun (verify_ok hverify).1 henabled hexhausted heq) (by decide)
        (by decide)

end Step

/-! ## Runs -/

/-- What every state of a run keeps. -/
structure RunInv (exe : Executable C) (s : Interpreter C) : Prop where
  ready : Ready exe s
  control : s.control.Inv exe.code

theorem RunInv.pc_le (h : RunInv exe s) : s.pc.toNat ≤ exe.insnCount := h.control.pc_le

section Runs

variable (hverify : verify exe.text exe.sbpfVersion = .ok ())
  (henabled : exe.config.enableInstructionMeter = true)
include hverify henabled

theorem continues_inv (hs : RunInv exe s) (h : Continues exe memory s s') :
    RunInv exe s' ∧ ∃ t, Control.Step exe.code t s.control s'.control := by
  obtain ⟨⟨t, ht⟩, hready⟩ := wp_ok (wp_step hverify henabled _ hs.ready hs.pc_le) h
  exact ⟨⟨hready, ht.inv (wellFormed_code hverify) hs.control⟩, t, ht⟩

theorem reachable_inv (hstart : RunInv exe start) (h : Reachable exe memory start s) : RunInv exe s := by
  induction h with
  | refl => exact hstart
  | tail _ hstep ih => exact (continues_inv hverify henabled ih hstep).1

/-- A state of a run is the first one, or a step of the run goes on to it. -/
theorem reachable_arrives (hstart : RunInv exe start) (h : Reachable exe memory start s) :
    s = start ∨ ∃ t, Arrives exe memory start s t := by
  rcases h.cases_tail with rfl | ⟨r, hr, hstep⟩
  · exact .inl rfl
  · obtain ⟨-, t, ht⟩ := continues_inv hverify henabled (reachable_inv hverify henabled hstart hr) hstep
    exact .inr ⟨t, r, hr, hstep, ht⟩

theorem sound_of_reachable (hstart : RunInv exe start) (hin : start.pc.toNat < exe.insnCount)
    (hfirst : ¬ exe.code.Second start.pc.toNat) (h : Reachable exe memory start s) : Sound exe memory start s := by
  have hcode := wellFormed_code hverify
  have hs := reachable_inv hverify henabled hstart h
  have hstep := wp_step hverify henabled memory hs.ready hs.pc_le
  have harrives := reachable_arrives hverify henabled hstart h
  have second_of_arrives {t : Transfer} (ht : Arrives exe memory start s t) (hsecond : exe.code.Second s.pc.toNat) :
      t = .call := by
    obtain ⟨r, hr, -, hrs⟩ := ht
    exact hrs.eq_call_of_second hcode (reachable_inv hverify henabled hstart hr).control hsecond
  refine { no_panic := ?_, pc_le := ?_, overrun := ?_, arrives_end := ?_, not_invalid := ?_, unsupported := ?_,
           first_slot := ?_ }
  · cases hrun : (step exe memory).run s with
    | ok _ s' => exact .inl ⟨s', hrun⟩
    | error halt s' =>
      cases halt with
      | panic => exact (wp_error hstep hrun).elim
      | done => exact .inr ⟨_, s', hrun, rfl⟩
  · intro s' hs'
    obtain ⟨hinv, ht⟩ := continues_inv hverify henabled hs hs'
    exact ⟨hinv.pc_le, ht⟩
  · intro hend
    cases hexhausted : exhausted exe s with
    | true => exact step_exhausted hexhausted
    | false => exact step_overrun (verify_ok hverify).1 henabled hexhausted hend
  · intro hend
    rcases harrives with rfl | ⟨t, ht⟩
    · omega
    · obtain ⟨r, -, -, hrs⟩ := id ht
      rcases hrs.next_or_ret_of_end hcode hend with rfl | rfl
      · exact .inl ht
      · exact .inr ht
  · rintro ⟨s', hrun, hresult⟩
    exact (wp_error hstep hrun).1 hresult
  · rintro ⟨s', hrun, hresult⟩
    refine ((wp_error hstep hrun).2 hresult).imp_right fun hsecond => ⟨hsecond, ?_⟩
    rcases harrives with rfl | ⟨t, ht⟩
    · exact absurd hsecond hfirst
    · exact second_of_arrives ht hsecond ▸ ht
  · rintro t ht hnext hsecond
    have := second_of_arrives ht hsecond
    rcases hnext with rfl | rfl <;> cases this

end Runs

theorem runInv_new {vm : EbpfVm C} {callFrames : List CallFrame}
    (hdepth : 1 ≤ exe.config.maxCallDepth) (hnew : Interpreter.new vm exe registers callFrames = some start)
    (hfresh : vm.callDepth = 0) (hin : start.pc.toNat < exe.insnCount) : RunInv exe start := by
  rw [Interpreter.new] at hnew
  split at hnew
  · rename_i hframes
    cases hnew
    have hreturns : (⟨vm, callFrames, registers⟩ : Interpreter C).returns = [] := by
      simp [returns, hfresh]
    refine ⟨⟨?_, hframes⟩, ⟨hin.le, fun hr => ?_, fun hr => ?_⟩⟩
    · rw [hfresh]
      exact UInt64.le_iff_toNat_le.mp hdepth
    · rw [Interpreter.control, hreturns] at hr
      cases hr
    · rw [Interpreter.control, hreturns] at hr
      cases hr
  · cases hnew

/-- Every state of every run of a verified program on a fresh machine is sound, from an
entry in the program that is not the second slot of an `LDDW`. -/
theorem verified_run_sound (exe : Executable C) (memory : Memory C)
    (hverify : Verifier.verify exe.text exe.sbpfVersion = .ok ())
    (henabled : exe.config.enableInstructionMeter = true) (hdepth : 1 ≤ exe.config.maxCallDepth)
    (vm : EbpfVm C) (registers : Registers) (callFrames : List CallFrame) (start s : Interpreter C)
    (hnew : Interpreter.new vm exe registers callFrames = some start) (hfresh : vm.callDepth = 0)
    (hin : start.pc.toNat < exe.insnCount) (hfirst : ¬ exe.code.Second start.pc.toNat)
    (hrun : Reachable exe memory start s) : Sound exe memory start s :=
  sound_of_reachable hverify henabled (runInv_new hdepth hnew hfresh hin) hin hfirst hrun

end General

/-! ## A program of one instruction -/

namespace OneInsn

/-- `add64 r0, 0`. -/
def text : List UInt8 := [0x07, 0, 0, 0, 0, 0, 0, 0]

def config : Config where
  maxCallDepth := 1
  stackFrameSize := 4096
  enableStackFrameGaps := true
  enableInstructionMeter := true
  enableRegisterTracing := false
  stackSize_lt := by decide

/-- The context is the number of units left. -/
def exe : Executable UInt64 where
  text := text
  textVmAddr := MM_BYTECODE_START
  sbpfVersion := .V0
  functionRegistry := fun _ => none
  loaderRegistry := fun _ => none
  config := config
  context := { consume := U64.satSub, getRemaining := id }
  text_lt := by decide

/-- Memory without regions. -/
def memory : Memory UInt64 where
  load := fun _ vmAddr => throw (.AccessViolation .Load vmAddr 1 "unknown")
  store := fun _ _ vmAddr => throw (.AccessViolation .Store vmAddr 1 "unknown")
  isAccess_of_load := by rintro w vmAddr c c' err h; cases h; rfl
  isAccess_of_store := by rintro w value vmAddr c c' err h; cases h; rfl

/-- A fresh machine with a budget of one instruction. -/
def vm : EbpfVm UInt64 where
  callDepth := 0
  context := 1
  previousInstructionMeter := 1
  dueInsnCount := 0
  registers := replicate 12 0
  programResult := .ok 0
  registerTrace := []

def callFrames : List CallFrame := [⟨replicate 4 0, 0, 0⟩]

def start : Interpreter UInt64 := ⟨vm, callFrames, replicate 12 0⟩

/-- After the instruction. -/
def behind : Interpreter UInt64 := ⟨{ vm with dueInsnCount := 1 }, callFrames, (replicate 12 0).set 11 1 pc_lt⟩

theorem verify_text : verify text .V0 = .ok () := by
  have hinsn : verifyInsn text .V0 0 = .ok 1 := by rfl
  have hpass : verifyFrom text .V0 0 = .ok 1 :=
    (verifyFrom_next (by decide) hinsn).trans (verifyFrom_end (by decide))
  simp only [verify, hpass]
  rfl

theorem reachable_behind : Reachable exe memory start behind := .single rfl

end OneInsn

namespace Loop

/-- `lddw r0, 2`, `sub64 r0, 1`, `jne r0, 0, -2` and `exit`. -/
def text : List UInt8 :=
  [0x18, 0, 0, 0, 2, 0, 0, 0, 0, 0, 0, 0, 0, 0, 0, 0, 0x17, 0, 0, 0, 1, 0, 0, 0, 0x55, 0, 0xfe, 0xff, 0, 0, 0, 0,
    0x95, 0, 0, 0, 0, 0, 0, 0]

def exe : Executable UInt64 := { OneInsn.exe with text := text, text_lt := by decide }

def vm : EbpfVm UInt64 := { OneInsn.vm with context := 10, previousInstructionMeter := 10 }

def start : Interpreter UInt64 := ⟨vm, OneInsn.callFrames, replicate 12 0⟩

/-- At `sub64` again, once the jump was taken. -/
def again : Interpreter UInt64 :=
  ⟨{ vm with dueInsnCount := 3 }, OneInsn.callFrames, ((replicate 12 0).set 0 1 (Nat.zero_lt_succ _)).set 11 2 pc_lt⟩

theorem verify_text : verify text .V0 = .ok () := by
  have hpass : verifyFrom text .V0 0 = .ok 5 := by
    rw [verifyFrom_next (by decide) (show verifyInsn text .V0 0 = .ok 2 by rfl)]
    rw [verifyFrom_next (by decide) (show verifyInsn text .V0 2 = .ok 3 by rfl)]
    rw [verifyFrom_next (by decide) (show verifyInsn text .V0 3 = .ok 4 by rfl)]
    rw [verifyFrom_next (by decide) (show verifyInsn text .V0 4 = .ok 5 by rfl)]
    exact verifyFrom_end (by decide)
  simp only [verify, hpass]
  rfl

theorem reachable_again : Reachable exe OneInsn.memory start again :=
  .tail (.tail (.single (show Continues _ _ _ _ from rfl)) rfl) rfl

end Loop

theorem verified_run_sound_loop : Loop.again.pc = 2 ∧ Sound Loop.exe OneInsn.memory Loop.start Loop.again := by
  have hfirst : ¬ Loop.exe.code.Second Loop.start.pc.toNat := by
    rintro ⟨q, -, hq⟩
    cases hq
  exact ⟨rfl, verified_run_sound Loop.exe OneInsn.memory Loop.verify_text rfl (by decide) Loop.vm
    (replicate 12 0) OneInsn.callFrames Loop.start Loop.again rfl rfl (by decide) hfirst Loop.reachable_again⟩

/-- Control is behind the code, and the run does not end with `ExecutionOverrun`: the
budget, which is checked first, is used up. -/
theorem overrun_not_reported :
    Verifier.verify OneInsn.exe.text OneInsn.exe.sbpfVersion = .ok () ∧
      Interpreter.new OneInsn.vm OneInsn.exe (Vector.replicate 12 0) OneInsn.callFrames = some OneInsn.start ∧
      Reachable OneInsn.exe OneInsn.memory OneInsn.start OneInsn.behind ∧
      OneInsn.behind.pc.toNat = OneInsn.exe.insnCount ∧
      EndsWith OneInsn.exe OneInsn.memory OneInsn.behind (.error .ExceededMaxInstructions) ∧
      ¬ EndsWith OneInsn.exe OneInsn.memory OneInsn.behind (.error .ExecutionOverrun) := by
  have hends : EndsWith OneInsn.exe OneInsn.memory OneInsn.behind (.error .ExceededMaxInstructions) :=
    step_exhausted (by decide)
  refine ⟨OneInsn.verify_text, rfl, OneInsn.reachable_behind, by decide, hends, ?_⟩
  rintro ⟨s', hs', hresult⟩
  obtain ⟨s'', hs'', hresult'⟩ := hends
  rw [hs'] at hs''
  cases hs''
  rw [hresult] at hresult'
  cases hresult'

end Svm.Sbpf
