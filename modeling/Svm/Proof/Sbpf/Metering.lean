import Svm.Proof.Sbpf.Soundness
import Svm.Spec.Sbpf.Metering

/-!
# The meter of the interpreter is exact

Everything a step does but for its count and its syscall leaves the meter alone
(`Frames`). What remains is then what the charges leave of the budget, along every run
(`Charged.meterInv`), and `execute_program_meters` reads the count of a whole run off it.
-/

namespace Svm.Sbpf

open Machine Ebpf Run Interpreter Executable

variable {fuel : Nat}

/-- What is known of the budget: what remained after the last syscall, the instructions
since then, and what remains in the context. -/
@[ext] structure Meter where
  previous : UInt64
  due : UInt64
  remaining : UInt64

section Metering

variable {C α : Type} {exe : Executable C} {memory : Memory C} {units : Units C} {s s' start : Interpreter C}
  {insn : Insn} {nextPc : UInt64} {E : Halt → Interpreter C → Prop}

def Interpreter.meter (exe : Executable C) (s : Interpreter C) : Meter :=
  ⟨s.vm.previousInstructionMeter, s.vm.dueInsnCount, exe.context.getRemaining s.vm.context⟩

/-! ## What leaves the meter alone -/

abbrev Unmetered (exe : Executable C) (x : StepM C α) : Prop := Frames (meter exe) x

theorem unmetered_throwErr (err) : Unmetered exe (throwErr err : StepM C α) := fun _ => rfl

theorem unmetered_ofOutcome (x : Except (Trap EbpfError) α) : Unmetered exe (ofOutcome x) := by
  cases x with
  | ok a => exact frames_pure a
  | error trap =>
    cases trap with
    | panic => exact frames_throw _
    | error err => exact unmetered_throwErr err

theorem unmetered_writeReg (i : Nat) (value) : Unmetered exe (writeReg i value) := by
  rw [writeReg]
  split
  · exact fun _ => rfl
  · exact frames_throw _

theorem unmetered_translateMemoryAccess
    (h : ∀ c, exe.context.getRemaining (final access c) = exe.context.getRemaining c) :
    Unmetered exe (translateMemoryAccess access) := by
  intro s
  have hs := h s.vm.context
  simp only [translateMemoryAccess, wp_bind, wp_get]
  cases hrun : access.run s.vm.context with
  | ok value context | error err context =>
    rw [final, hrun] at hs
    exact Meter.ext rfl rfl hs

theorem unmetered_pushFrame : Unmetered exe (pushFrame exe) := by
  intro s
  simp only [pushFrame, wp_bind, wp_get]
  split
  · cases U64.checkedAdd s.reg[11] 1 with
    | none => rfl
    | some targetPc =>
      cases U64.checkedAdd s.vm.callDepth 1 with
      | none => rfl
      | some callDepth =>
        simp only [orPanic_some, wp_pure, wp_bind]
        split
        · rfl
        · split
          · cases U64.checkedMul exe.config.stackFrameSize _ <;> rfl
          · rfl
  · rfl

theorem unmetered_checkPc (targetPc) : Unmetered exe (checkPc exe targetPc) :=
  (frames_pure _).ite (unmetered_throwErr _)

theorem unmetered_callInternal : Unmetered exe (callInternal exe insn nextPc) := by
  refine .ite (.ite (unmetered_pushFrame.bind fun _ => frames_pure _) (frames_pure _)) ?_
  cases exe.functionRegistry insn.imm.toUInt64.toUInt32 with
  | none => exact frames_pure _
  | some targetPc => exact unmetered_pushFrame.bind fun _ => (unmetered_checkPc targetPc).bind fun _ => frames_pure _

theorem unmetered_callReg : Unmetered exe (callReg exe insn) := by
  have htarget : Unmetered exe (callxTarget exe insn) :=
    (frames_readReg _).ite ((frames_readReg _).ite (frames_readReg _))
  exact htarget.bind fun _ => unmetered_pushFrame.bind fun _ => unmetered_checkPc _

theorem unmetered_exit : Unmetered exe (exit exe) := by
  intro s
  simp only [exit, wp_bind, wp_get]
  split
  · split <;> rfl
  · cases U64.checkedSub s.vm.callDepth 1 with
    | none => rfl
    | some callDepth =>
      simp only [orPanic_some, wp_pure, wp_bind]
      cases s.callFrames[callDepth.toNat]? <;> rfl

/-- Every arm but `CALL_IMM` leaves the meter alone. -/
theorem unmetered_exec (hmetered : exe.Metered memory units) (harm : arm ≠ .callImm) :
    Unmetered exe (exec exe memory insn nextPc arm) := by
  cases arm with
  | ldDwImm =>
    exact (frames_orPanic _).bind fun _ => (unmetered_writeReg _ _).bind fun _ => (frames_readReg _).bind
      fun _ => (frames_orPanic _).bind fun _ => (unmetered_writeReg _ _).bind fun _ => frames_orPanic _
  | load w =>
    exact (frames_readReg _).bind fun _ => (unmetered_translateMemoryAccess (hmetered.load w _)).bind
      fun _ => (unmetered_writeReg _ _).bind fun _ => frames_pure _
  | store w o =>
    exact (frames_readReg _).bind fun _ => (frames_operand o insn).bind
      fun _ => (unmetered_translateMemoryAccess (hmetered.store w _ _)).bind fun _ => frames_pure _
  | alu op o =>
    exact (frames_readReg _).bind fun _ => (frames_operand o insn).bind fun _ => (unmetered_ofOutcome _).bind
      fun _ => (unmetered_writeReg _ _).bind fun _ => frames_pure _
  | ja => exact frames_orPanic _
  | jmp32 c o | jmp64 c o => exact frames_branch _ o _ _
  | callReg => exact unmetered_callReg
  | callImm => exact absurd rfl harm
  | exit => exact unmetered_exit

/-! ## Syscalls -/

theorem callExternal_eq (exe : Executable C) (insn : Insn) : callExternal exe insn = (match exe.syscallOf insn with
      | none => pure false
      | some function => do
        match ← dispatchSyscall exe function with
        | .ok value =>
          writeReg 0 value return true
        | .error _ => throw .done) := by
  rw [callExternal, syscallOf]
  split
  · rfl
  · rfl

theorem loaderRegistry_of_syscallOf (h : exe.syscallOf insn = some function) :
    exe.loaderRegistry insn.imm.toUInt64.toUInt32 = some function := by
  rw [syscallOf] at h
  split at h
  · exact h
  · cases h

/-- What a syscall does to the meter, when the instructions that are due can be paid. -/
theorem wp_dispatchSyscall_meter (henabled : exe.config.enableInstructionMeter = true) (function)
    (hdue : s.vm.dueInsnCount ≤ s.vm.previousInstructionMeter) :
    wp (dispatchSyscall exe function)
      (fun _ s' =>
        let context := exe.context.consume s.vm.context s.vm.dueInsnCount
        let remaining := exe.context.getRemaining (function context (s.reg.get 1) (s.reg.get 2)
          (s.reg.get 3) (s.reg.get 4) (s.reg.get 5)).2
        s'.meter exe = ⟨remaining, 0, remaining⟩) E s := by
  have hused : U64.checkedSub s.vm.previousInstructionMeter (s.vm.previousInstructionMeter - s.vm.dueInsnCount) =
      some s.vm.dueInsnCount := by
    rw [U64.checkedSub_of_le (UInt64.sub_le hdue), Option.some.injEq, ← UInt64.toNat_inj,
      UInt64.toNat_sub_of_le _ _ (UInt64.sub_le hdue), UInt64.toNat_sub_of_le _ _ hdue]
    exact Nat.sub_sub_self (UInt64.le_iff_toNat_le.mp hdue)
  simp only [dispatchSyscall, invokeFunction, wp_bind, wp_get, U64.checkedSub_of_le hdue, orPanic_some, wp_pure,
    wp_set, henabled, if_true, setVm, hused]
  rfl

/-! ## The invariant -/

/-- What remains is what `n` instructions and `u` units of syscalls leave of the budget;
the instructions since the last syscall are due. -/
structure MeterInv (budget n u : Nat) (m : Meter) : Prop where
  remaining : m.remaining = m.previous
  due_le : m.due.toNat ≤ m.previous.toNat
  due_le_steps : m.due.toNat ≤ n
  previous : m.previous.toNat = budget - (n - m.due.toNat + u)

variable {budget n u : Nat}

theorem MeterInv.exhausted_iff (henabled : exe.config.enableInstructionMeter = true)
    (h : MeterInv budget n u (s.meter exe)) : exhausted exe s = true ↔ budget ≤ n + u := by
  have hdue : s.vm.dueInsnCount.toNat ≤ n := h.due_le_steps
  have hprevious : s.vm.previousInstructionMeter.toNat = budget - (n - s.vm.dueInsnCount.toNat + u) := h.previous
  rw [exhausted, henabled, Bool.true_and, decide_eq_true_iff, ge_iff_le, UInt64.le_iff_toNat_le]
  omega

/-- A syscall pays the instructions that are due, and then its units. -/
theorem MeterInv.syscall {remaining : UInt64} {units : Nat} (h : MeterInv budget n u m)
    (hremaining : remaining.toNat = m.remaining.toNat - m.due.toNat - units) :
    MeterInv budget n (u + units) ⟨remaining, 0, remaining⟩ := by
  have hdue := h.due_le_steps
  have hprevious := h.previous
  rw [h.remaining] at hremaining
  refine ⟨rfl, Nat.zero_le _, Nat.zero_le _, ?_⟩
  show remaining.toNat = budget - (n - 0 + (u + units))
  omega

theorem MeterInv.count (henabled : exe.config.enableInstructionMeter = true) (h : MeterInv budget n u (s.meter exe))
    (hexhausted : exhausted exe s = false) :
    (s.vm.dueInsnCount + 1).toNat = s.vm.dueInsnCount.toNat + 1 ∧ MeterInv budget (n + 1) u (s.counted.meter exe) := by
  have hlt := due_lt henabled hexhausted
  have hmax := s.vm.previousInstructionMeter.toNat_lt
  have hone : (s.vm.dueInsnCount + 1).toNat = s.vm.dueInsnCount.toNat + 1 := by
    exact Nat.mod_eq_of_lt (by simpa using by omega)
  have hdue : s.vm.dueInsnCount.toNat ≤ n := h.due_le_steps
  have hprevious : s.vm.previousInstructionMeter.toNat = budget - (n - s.vm.dueInsnCount.toNat + u) := h.previous
  refine ⟨hone, h.remaining, ?_, ?_, ?_⟩
  · show (s.vm.dueInsnCount + 1).toNat ≤ s.vm.previousInstructionMeter.toNat
    omega
  · show (s.vm.dueInsnCount + 1).toNat ≤ n + 1
    omega
  · show s.vm.previousInstructionMeter.toNat = budget - (n + 1 - (s.vm.dueInsnCount + 1).toNat + u)
    omega

theorem MeterInv.frame (h : MeterInv budget n u (s.meter exe)) (hx : Unmetered exe x) :
    wp x (fun _ s' => MeterInv budget n u (s'.meter exe)) (fun _ s' => MeterInv budget n u (s'.meter exe)) s :=
  wp_mono (hx s) (fun _ s' hs' => by rw [hs']; exact h) fun _ s' hs' => by rw [hs']; exact h

/-! ## Steps -/

theorem wp_fetch_meter (s) :
    wp (fetch exe) (fun insn s' => s' = s ∧ getInsn exe.text s.pc.toNat = some insn)
      (fun _ s' => s'.meter exe = s.meter exe ∧ getInsn exe.text s.pc.toNat = none) s := by
  cases hinsn : getInsn exe.text s.pc.toNat with
  | some insn =>
    refine wp_mono (wp_fetch_some hinsn) ?_ fun _ _ h => h
    rintro _ _ ⟨rfl, rfl⟩
    exact ⟨rfl, rfl⟩
  | none =>
    have hget : getInsn exe.text s.reg[11].toNat = none := hinsn
    simp only [fetch, wp_bind, wp_get]
    cases U64.checkedMul s.reg[11] 8 with
    | none => exact ⟨rfl, trivial⟩
    | some offset =>
      simp only [orPanic_some, wp_pure, hget]
      split
      · exact ⟨rfl, trivial⟩
      · exact ⟨rfl, trivial⟩

theorem wp_callExternal_meter (hmetered : exe.Metered memory units) (h : MeterInv budget n u (s.meter exe)) :
    let units := callUnits exe units insn s.reg (exe.context.consume s.vm.context s.vm.dueInsnCount)
    wp (callExternal exe insn) (fun _ s' => MeterInv budget n (u + units) (s'.meter exe))
      (fun _ s' => MeterInv budget n (u + units) (s'.meter exe)) s := by
  intro units
  rw [callExternal_eq]
  cases hfunction : exe.syscallOf insn with
  | none =>
    have hunits : units = 0 := by simp only [units, callUnits, hfunction]
    rw [hunits]
    exact h
  | some function =>
    refine wp_seq (wp_dispatchSyscall_meter hmetered.enabled function (UInt64.le_iff_toNat_le.mpr h.due_le)) ?_
    intro result s1 hs1
    have hinv : MeterInv budget n (u + units) (s1.meter exe) := by
      rw [hs1]
      refine h.syscall ?_
      rw [hmetered.syscall (loaderRegistry_of_syscallOf hfunction), hmetered.consume]
      simp only [units, callUnits, hfunction]
      rfl
    cases result with
    | ok value => exact hinv
    | error err => exact hinv

theorem slotUnits_of_ne (hinsn : getInsn exe.text s.pc.toNat = some insn)
    (harm : selectArm exe.sbpfVersion insn.opc = some arm) (hne : arm ≠ .callImm) (context : C) :
    slotUnits exe units s.pc.toNat s.reg context = 0 := by
  rw [slotUnits, armAt_eq_some.mpr ⟨hinsn, harm⟩]
  cases arm <;> first | rfl | exact absurd rfl hne

theorem wp_execInsn_meter (hmetered : exe.Metered memory units) (h : MeterInv budget n u (s.meter exe))
    (hinsn : getInsn exe.text s.pc.toNat = some insn) :
    let units := slotUnits exe units s.pc.toNat s.reg (exe.context.consume s.vm.context s.vm.dueInsnCount)
    wp (execInsn exe memory insn nextPc) (fun _ s' => MeterInv budget n (u + units) (s'.meter exe))
      (fun _ s' => MeterInv budget n (u + units) (s'.meter exe)) s := by
  rw [execInsn]
  cases harm : selectArm exe.sbpfVersion insn.opc with
  | none =>
    have hnone : exe.armAt s.pc.toNat = none := by simp [armAt, hinsn, harm]
    rw [slotUnits, hnone]
    exact h.frame (unmetered_throwErr _)
  | some arm =>
    by_cases hcall : arm = .callImm
    · subst hcall
      rw [slotUnits, armAt_eq_some.mpr ⟨hinsn, harm⟩]
      simp only [exec, callImm, wp_bind]
      refine wp_mono (wp_callExternal_meter hmetered h) (fun resolved s1 hs1 => ?_) fun _ _ h => h
      refine wp_seq (hs1.frame unmetered_callInternal) (fun target s2 hs2 => ?_)
      cases target with
      | some targetPc => exact hs2
      | none => exact hs2.frame ((frames_pure _).ite (unmetered_throwErr _))
    · rw [slotUnits_of_ne hinsn harm hcall]
      exact h.frame (unmetered_exec hmetered hcall)

theorem wp_meterInsn_counted (hexhausted : exhausted exe s = false)
    (hone : (s.vm.dueInsnCount + 1).toNat = s.vm.dueInsnCount.toNat + 1) :
    wp (meterInsn exe) Q E s ↔ Q () s.counted := by
  have hmax := (s.vm.dueInsnCount + 1).toNat_lt
  obtain ⟨due, hdue, hdue'⟩ := U64.checkedAdd_one (a := s.vm.dueInsnCount) (by omega)
  obtain rfl : due = s.vm.dueInsnCount + 1 := by rw [← UInt64.toNat_inj, hdue', hone]
  simp only [meterInsn, wp_bind, wp_get, hexhausted, hdue]
  rfl

/-- What a syscall depends on. -/
def Interpreter.syscallInput (s : Interpreter C) : Registers × C × UInt64 × UInt64 :=
  (s.reg, s.vm.context, s.vm.dueInsnCount, s.vm.previousInstructionMeter)

theorem wp_traceRegisters_input : wp (traceRegisters exe) (fun _ s' => s'.syscallInput = s.syscallInput) E s := by
  rw [traceRegisters]
  split <;> rfl

theorem wp_step_meter (hmetered : exe.Metered memory units) (h : MeterInv budget n u (s.meter exe))
    (hexhausted : exhausted exe s = false) :
    wp (step exe memory) (fun _ s' => MeterInv budget (n + 1) (u + stepUnits exe units s) (s'.meter exe))
      (fun halt s' => halt = .done → MeterInv budget (n + 1) (u + stepUnits exe units s) (s'.meter exe)) s := by
  obtain ⟨hone, hcounted⟩ := h.count hmetered.enabled hexhausted
  have hunits : stepUnits exe units s = slotUnits exe units s.counted.pc.toNat s.counted.reg
      (exe.context.consume s.counted.vm.context s.counted.vm.dueInsnCount) := by
    rw [stepUnits, hexhausted]
    rfl
  rw [hunits, step, wp_bind, wp_meterInsn_counted hexhausted hone, wp_bind]
  generalize s.counted = s0 at hcounted ⊢
  refine wp_mono (wp_fetch_meter s0) ?_ ?_
  · rintro insn s1 ⟨rfl, hinsn⟩
    rw [wp_bind, wp_readReg (by omega), wp_bind]
    cases U64.checkedAdd s1.reg[11] 1 with
    | none => exact fun h => by cases h
    | some nextPc =>
      rw [orPanic_some, wp_pure]
      refine wp_seq wp_traceRegisters_input (fun _ s2 hs2 => ?_)
      obtain ⟨hreg, hcontext, hdue, hprevious⟩ :
          s2.reg = s1.reg ∧ s2.vm.context = s1.vm.context ∧ s2.vm.dueInsnCount = s1.vm.dueInsnCount ∧
            s2.vm.previousInstructionMeter = s1.vm.previousInstructionMeter := by
        simpa [syscallInput] using hs2
      have hpc : s2.pc = s1.pc := by rw [pc, pc, hreg]
      have hmeter : s2.meter exe = s1.meter exe := by
        rw [meter, meter, hcontext, hdue, hprevious]
      rw [← hmeter] at hcounted
      rw [← hpc] at hinsn
      rw [← hpc, ← hreg, ← hcontext, ← hdue, wp_bind]
      refine wp_mono (wp_execInsn_meter hmetered hcounted hinsn) (fun pc s3 hs3 => ?_) fun _ _ h _ => h
      exact wp_mono (hs3.frame (unmetered_writeReg 11 pc)) (fun _ _ h => h) fun _ _ h _ => h
  · rintro halt s' ⟨hs', hnone⟩ -
    have hslot : exe.armAt s0.pc.toNat = none := by
      rw [armAt, hnone]
      rfl
    rw [slotUnits, hslot, hs']
    exact hcounted

theorem meter_of_exhausted (hexhausted : exhausted exe s = true) (hs' : (step exe memory).run s = .error .done s') :
    s'.meter exe = s.meter exe := by
  have hstep : wp (step exe memory) (fun _ _ => False) (fun _ t => t.meter exe = s.meter exe) s := by
    simp only [step, meterInsn, wp_bind, wp_get, hexhausted]
    rfl
  have hmeter := wp_error hstep hs'
  exact hmeter

theorem not_exhausted_of_continues (hs : Continues exe memory s s') : exhausted exe s = false := by
  cases hexhausted : exhausted exe s with
  | false => rfl
  | true =>
    obtain ⟨s'', hs'', -⟩ := @step_exhausted C exe s memory hexhausted
    rw [Continues, hs''] at hs
    cases hs

/-! ## Runs -/

section Runs

variable (hmetered : exe.Metered memory units) (hstart : MeterInv budget 0 0 (start.meter exe))
include hmetered hstart

theorem Charged.meterInv (h : Charged exe memory units start n u s) : MeterInv budget n u (s.meter exe) := by
  induction h with
  | start => exact hstart
  | step _ hs ih =>
    have hnext := wp_ok (wp_step_meter hmetered ih (not_exhausted_of_continues hs)) hs
    exact hnext

/-- Each step is charged, so that the budget bounds the steps. -/
theorem Charged.le_budget (h : Charged exe memory units start n u s) : n ≤ budget := by
  cases h with
  | start => exact Nat.zero_le _
  | @step n u s _ h hs =>
    have hiff := (h.meterInv hmetered hstart).exhausted_iff hmetered.enabled
    rw [not_exhausted_of_continues hs] at hiff
    have : ¬ budget ≤ n + u := fun hle => nomatch hiff.mpr hle
    omega

theorem Ended.meterInv (h : Ended exe memory units start n u s') : MeterInv budget n u (s'.meter exe) := by
  obtain ⟨m, v, s, hs, hrun, rfl, rfl⟩ := h
  have hinv := hs.meterInv hmetered hstart
  cases hexhausted : exhausted exe s with
  | false =>
    rw [stepPassed, hexhausted]
    exact wp_error (wp_step_meter hmetered hinv hexhausted) hrun rfl
  | true =>
    rw [stepPassed, stepUnits, hexhausted, meter_of_exhausted hexhausted hrun]
    exact hinv

theorem Charged.not_outOfFuel (hs : Charged exe memory units start n u s)
    (hfuel : budget < n + fuel) : runInterpreter exe memory fuel s ≠ .outOfFuel := by
  induction fuel generalizing n u s with
  | zero =>
    have hle := hs.le_budget hmetered hstart
    omega
  | succ fuel ih =>
    rw [runInterpreter]
    cases hrun : (Interpreter.step exe memory).run s with
    | ok _ s1 => exact ih (hs.step hrun) (by omega)
    | error halt s1 => cases halt <;> exact fun h => nomatch h

end Runs

/-- The loop ends where the run does. -/
theorem Charged.ended_of_finished (hs : Charged exe memory units start n u s)
    (h : runInterpreter exe memory fuel s = .finished s') : ∃ n u, Ended exe memory units start n u s' := by
  induction fuel generalizing n u s with
  | zero => cases h
  | succ fuel ih =>
    rw [runInterpreter] at h
    cases hrun : (Interpreter.step exe memory).run s with
    | ok _ s1 =>
      rw [hrun] at h
      exact ih (hs.step hrun) h
    | error halt s1 =>
      rw [hrun] at h
      cases halt with
      | panic => cases h
      | done =>
        cases h
        exact ⟨_, _, n, u, s, hs, hrun, rfl, rfl⟩

/-! ## Programs -/

theorem meterInv_first (exe) (entrypoint) (callFrames) (vm : EbpfVm C) :
    MeterInv (exe.context.getRemaining vm.context).toNat 0 0 ((vm.first exe entrypoint callFrames).meter exe) :=
  ⟨rfl, Nat.zero_le _, Nat.zero_le _, rfl⟩

theorem executeProgram_eq (entrypoint) (callFrames) (fuel : Nat) (vm) :
    executeProgram exe memory entrypoint callFrames fuel vm =
      if exe.config.maxCallDepth.toNat ≤ callFrames.length then
        match runInterpreter exe memory fuel (vm.first exe entrypoint callFrames) with
        | .finished s => .finished (s.vm.conclude exe (exe.context.getRemaining vm.context))
        | .panic => .panic
        | .outOfFuel => .outOfFuel
      else .panic := by
  by_cases hframes : exe.config.maxCallDepth.toNat ≤ callFrames.length
  · simp only [executeProgram, new, if_pos hframes]
    rfl
  · simp [executeProgram, new, if_neg hframes]

theorem executeProgram_finished {callFrames : List CallFrame} {vm : EbpfVm C}
    (h : executeProgram exe memory entrypoint callFrames fuel vm = .finished (outcome, vm')) :
    ∃ s, runInterpreter exe memory fuel (vm.first exe entrypoint callFrames) = .finished s ∧
      s.vm.conclude exe (exe.context.getRemaining vm.context) = (outcome, vm') := by
  rw [executeProgram_eq] at h
  split at h
  · cases hrun : runInterpreter exe memory fuel (vm.first exe entrypoint callFrames) with
    | finished s =>
      rw [hrun] at h
      exact ⟨s, rfl, RunOutcome.finished.inj h⟩
    | panic | outOfFuel =>
      rw [hrun] at h
      cases h
  · cases h

theorem executeProgram_not_outOfFuel {callFrames : List CallFrame} {vm : EbpfVm C}
    (h : runInterpreter exe memory fuel (vm.first exe entrypoint callFrames) ≠ .outOfFuel) :
    executeProgram exe memory entrypoint callFrames fuel vm ≠ .outOfFuel := by
  rw [executeProgram_eq]
  split
  · cases hrun : runInterpreter exe memory fuel (vm.first exe entrypoint callFrames) with
    | finished s | panic => exact fun h => nomatch h
    | outOfFuel => exact absurd hrun h
  · exact fun h => nomatch h

/-- The count of a run is what it was charged, up to the budget. -/
theorem MeterInv.conclude {count : UInt64} {result : Except EbpfError UInt64}
    (hmetered : exe.Metered memory units) (h : MeterInv initial.toNat n u (s.meter exe))
    (hconclude : s.vm.conclude exe initial = ((count, result), vm')) : count.toNat = min (n + u) initial.toNat ∧
      (exe.context.getRemaining vm'.context).toNat + count.toNat = initial.toNat ∧ result = s.vm.programResult := by
  have hdue : s.vm.dueInsnCount.toNat ≤ n := h.due_le_steps
  have hremaining : (exe.context.getRemaining s.vm.context).toNat =
      initial.toNat - (n - s.vm.dueInsnCount.toNat + u) := (congrArg UInt64.toNat h.remaining).trans h.previous
  have hpaid := hmetered.consume s.vm.context s.vm.dueInsnCount
  simp only [EbpfVm.conclude, hmetered.enabled] at hconclude
  obtain ⟨⟨rfl, rfl⟩, rfl⟩ := hconclude
  rw [U64.toNat_satSub, hpaid]
  refine ⟨by omega, by omega, rfl⟩

end Metering

/-- A run is charged one unit for each instruction that passes the budget check, and the
units of its syscalls: the count reports them up to the budget, and the budget has dropped
by the count. -/
theorem execute_program_meters {C : Type} (exe : Executable C) (memory : Memory C) (units : Units C)
    (hmetered : exe.Metered memory units) (entrypoint : UInt64) (callFrames : List CallFrame) (vm : EbpfVm C) :
    let budget := (exe.context.getRemaining vm.context).toNat
    let first := vm.first exe entrypoint callFrames
    -- The budget bounds the run.
    (∀ fuel, budget < fuel → executeProgram exe memory entrypoint callFrames fuel vm ≠ .outOfFuel) ∧
    (∀ fuel count result vm',
      executeProgram exe memory entrypoint callFrames fuel vm = .finished ((count, result), vm') →
      ∃ n u s, Ended exe memory units first n u s ∧ result = s.vm.programResult ∧
        count.toNat = min (n + u) budget ∧
        (exe.context.getRemaining vm'.context).toNat + count.toNat = budget ∧
        -- The instructions that are due at the end can be paid.
        s.vm.dueInsnCount ≤ exe.context.getRemaining s.vm.context) ∧
    ∀ n u s, Charged exe memory units first n u s →
      (budget ≤ n + u → EndsWith exe memory s (.error .ExceededMaxInstructions)) ∧
      -- Otherwise the instruction is performed, and the subtractions of a syscall do not underflow.
      (n + u < budget → stepPassed exe s = 1 ∧
        ∀ function, ∃ result s', (dispatchSyscall exe function).run s.counted = .ok result s') := by
  intro budget first
  have hfirst : MeterInv budget 0 0 (first.meter exe) := meterInv_first exe entrypoint callFrames vm
  refine ⟨fun fuel hfuel => ?_, fun fuel count result vm' hrun => ?_, fun n u s hs => ?_⟩
  · exact executeProgram_not_outOfFuel (Charged.start.not_outOfFuel hmetered hfirst (by omega))
  · obtain ⟨s, hs, hconclude⟩ := executeProgram_finished hrun
    obtain ⟨n, u, hended⟩ : ∃ n u, Ended exe memory units first n u s := Charged.start.ended_of_finished hs
    have hinv := hended.meterInv hmetered hfirst
    obtain ⟨hcount, hremaining, hresult⟩ := hinv.conclude hmetered hconclude
    refine ⟨n, u, s, hended, hresult, hcount, hremaining, ?_⟩
    have hdue := UInt64.le_iff_toNat_le.mpr hinv.due_le
    rwa [← hinv.remaining] at hdue
  · have hinv := hs.meterInv hmetered hfirst
    refine ⟨fun hle => step_exhausted ((hinv.exhausted_iff hmetered.enabled).mpr hle), fun hlt => ?_⟩
    have hexhausted : exhausted exe s = false := by
      rw [← Bool.not_eq_true, hinv.exhausted_iff hmetered.enabled]
      omega
    refine ⟨by rw [stepPassed, hexhausted]; rfl, fun function => ?_⟩
    have hdue := UInt64.le_iff_toNat_le.mpr (hinv.count hmetered.enabled hexhausted).2.due_le
    have hsyscall := wp_dispatchSyscall_meter (E := fun _ _ => False) hmetered.enabled function hdue
    cases hrun : (dispatchSyscall exe function).run s.counted with
    | ok result s' => exact ⟨result, s', rfl⟩
    | error halt s' => exact (wp_error hsyscall hrun).elim

/-! ## A program with a syscall -/

namespace OneSyscall

/-- `call 0`, `exit`. -/
def text : List UInt8 := [0x85, 0, 0, 0, 0, 0, 0, 0, 0x95, 0, 0, 0, 0, 0, 0, 0]

/-- A syscall of three units. -/
def log : Syscall UInt64 := fun remaining _ _ _ _ _ => (.ok 0, U64.satSub remaining 3)

def exe : Executable UInt64 :=
  { OneInsn.exe with
    text := text
    loaderRegistry := fun _ => some log
    text_lt := by decide }

def units : Units UInt64 := fun _ _ _ _ _ _ _ => 3

/-- A budget of ten. -/
def vm : EbpfVm UInt64 := { OneInsn.vm with context := 10 }

theorem metered : exe.Metered OneInsn.memory units where
  enabled := rfl
  consume c n := U64.toNat_satSub c n
  syscall := by
    intro key function h c r1 r2 r3 r4 r5
    cases h
    exact U64.toNat_satSub c 3
  load _ _ _ := rfl
  store _ _ _ _ := rfl

end OneSyscall

/-- Two instructions and three units of the syscall. -/
theorem execute_program_meters_syscall :
    ∃ result vm', executeProgram OneSyscall.exe OneInsn.memory 0 OneInsn.callFrames 11 OneSyscall.vm =
        .finished ((5, result), vm') ∧
      ∃ n u s, Ended OneSyscall.exe OneInsn.memory OneSyscall.units
          (OneSyscall.vm.first OneSyscall.exe 0 OneInsn.callFrames) n u s ∧ 5 = min (n + u) 10 := by
  refine ⟨.ok 0, _, rfl, ?_⟩
  obtain ⟨n, u, s, hended, -, hcount, -⟩ := (execute_program_meters OneSyscall.exe OneInsn.memory OneSyscall.units
    OneSyscall.metered 0 OneInsn.callFrames OneSyscall.vm).2.1 11 5 (.ok 0) _ rfl
  exact ⟨n, u, s, hended, hcount⟩

end Svm.Sbpf
