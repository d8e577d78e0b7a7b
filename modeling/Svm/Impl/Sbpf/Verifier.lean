import Svm.Impl.Sbpf.Ebpf
import Svm.Framework.Run

/-!
# The verifier

`RequisiteVerifier::verify` of `verifier.rs`: one pass over the slots of a
program. Each instruction has to be one of the version's, is checked by the arm
of its opcode, and then has its registers checked; an `LDDW` takes two slots.
-/

namespace Svm.Sbpf

open Machine Ebpf

inductive VerifierError where
  | ProgramLengthNotMultiple
  | NoProgram
  | DivisionByZero (insnPtr : Nat)
  | UnsupportedLEBEArgument (insnPtr : Nat)
  | LDDWCannotBeLast
  | IncompleteLDDW (insnPtr : Nat)
  | JumpOutOfCode (dstInsnPtr insnPtr : Nat)
  | JumpToMiddleOfLDDW (dstInsnPtr insnPtr : Nat)
  | InvalidSourceRegister (insnPtr : Nat)
  | CannotWriteR10 (insnPtr : Nat)
  | InvalidDestinationRegister (insnPtr : Nat)
  | UnknownOpCode (opc : UInt8) (insnPtr : Nat)
  | ShiftWithOverflow (shiftBy immBits : UInt64) (insnPtr : Nat)
  | InvalidRegister (insnPtr : Nat)
  | UnalignedImmediate (insnPtr : Nat)
  deriving DecidableEq, Repr

namespace Verifier

abbrev VerifyM := Except (Trap VerifierError)

def fail {α : Type} (err : VerifierError) : VerifyM α := .error (.error err)

/-- An index out of bounds panics. -/
def orPanic {α : Type} : Option α → VerifyM α
  | some a => .ok a
  | none => .error .panic

/-! ## Checks -/

variable (prog : List UInt8)

def checkProgLen : VerifyM Unit :=
  if prog.length % INSN_SIZE ≠ 0 then fail .ProgramLengthNotMultiple
  else if prog = [] then fail .NoProgram
  else .ok ()

variable (insn : Insn)

def checkImmNonzero (insnPtr : Nat) : VerifyM Unit :=
  if insn.imm = 0 then fail (.DivisionByZero insnPtr) else .ok ()

def checkImmEndian (insnPtr : Nat) : VerifyM Unit :=
  if insn.imm = 16 ∨ insn.imm = 32 ∨ insn.imm = 64 then .ok () else fail (.UnsupportedLEBEArgument insnPtr)

def checkImmAligned (insnPtr : Nat) (alignment : Int64) : VerifyM Unit :=
  if insn.imm &&& (alignment - 1) = 0 then .ok () else fail (.UnalignedImmediate insnPtr)

def checkLoadDw (insnPtr : Nat) : VerifyM Unit :=
  -- Last instruction cannot be LD_DW because there would be no 2nd DW
  if (insnPtr + 1) * INSN_SIZE ≥ prog.length then fail .LDDWCannotBeLast
  else do
    let nextInsn ← orPanic (getInsn prog (insnPtr + 1))
    if nextInsn.opc ≠ 0 then fail (.IncompleteLDDW insnPtr) else .ok ()

def checkJmpOffset (insnPtr : Nat) : VerifyM Unit := do
  let insn ← orPanic (getInsn prog insnPtr)
  let dstInsnPtr : Int := insnPtr + 1 + insn.off.toInt
  if dstInsnPtr < 0 ∨ ¬ dstInsnPtr.toNat < prog.length / INSN_SIZE then
    fail (.JumpOutOfCode (asUnsigned 64 dstInsnPtr) insnPtr)
  else
    let dstInsn ← orPanic (getInsn prog dstInsnPtr.toNat)
    if dstInsn.opc = 0 then fail (.JumpToMiddleOfLDDW dstInsnPtr.toNat insnPtr) else .ok ()

def checkRegisters (store : Bool) (insnPtr : Nat) (v : SBPFVersion) : VerifyM Unit :=
  if insn.src > 10 then fail (.InvalidSourceRegister insnPtr)
  else if insn.dst ≤ 9 then .ok ()
  else if insn.dst = 10 then
    if store then .ok ()
    else if v.manualStackFrameBump ∧ insn.opc = ADD64_IMM then .ok ()
    else fail (.CannotWriteR10 insnPtr)
  else fail (.InvalidDestinationRegister insnPtr)

def checkImmShift (insnPtr : Nat) (immBits : UInt64) : VerifyM Unit :=
  let shiftBy := insn.imm.toUInt64
  if insn.imm < 0 ∨ shiftBy ≥ immBits then fail (.ShiftWithOverflow shiftBy immBits insnPtr) else .ok ()

variable (v : SBPFVersion)

/-- The register number of a `callx`. -/
def callxReg : Int :=
  if v.callxUsesSrcReg then insn.src.toNat
  else if v.callxUsesDstReg then insn.dst.toNat
  else insn.imm.toInt

def checkCallxRegister (insnPtr : Nat) (v : SBPFVersion) : VerifyM Unit :=
  if 0 ≤ callxReg insn v ∧ callxReg insn v < 10 then .ok () else fail (.InvalidRegister insnPtr)

/-! ## The arms -/

/-- What an arm of the match on the opcode does. -/
inductive Check where
  | pass
  /-- `store = true`: the instruction writes no register. -/
  | store
  | loadDw
  | immNonzero
  | immShift (immBits : UInt64)
  | immEndian
  | immAligned (alignment : Int64)
  | jmpOffset
  | callxRegister
  deriving DecidableEq, Repr

/-- What the guards look at: the version, and whether `dst` is the frame pointer. -/
abbrev Guarded := SBPFVersion × Bool

abbrev VerifierArm := Dispatch.Arm Guarded UInt8 Check

def always : Guarded → Bool := fun _ => true
def on (p : SBPFVersion → Bool) : Guarded → Bool := fun c => p c.1
def onFramePtr (p : SBPFVersion → Bool) : Guarded → Bool := fun c => c.2 && p c.1

/-- An arm for several opcodes. -/
def armsOf (opcs : List UInt8) (guard : Guarded → Bool) (check : Check) : List VerifierArm :=
  opcs.map fun opc => ⟨opc, guard, check⟩

def ldArms : List VerifierArm :=
  [ ⟨LD_DW_IMM, on (!·.disableLddw), .loadDw⟩ ]

def ldxArms : List VerifierArm :=
  [ ⟨LD_B_REG, on (!·.moveMemoryInstructionClasses), .pass⟩,
    ⟨LD_H_REG, on (!·.moveMemoryInstructionClasses), .pass⟩,
    ⟨LD_W_REG, on (!·.moveMemoryInstructionClasses), .pass⟩,
    ⟨LD_DW_REG, on (!·.moveMemoryInstructionClasses), .pass⟩ ]

def stArms : List VerifierArm :=
  [ ⟨ST_B_IMM, on (!·.moveMemoryInstructionClasses), .store⟩,
    ⟨ST_H_IMM, on (!·.moveMemoryInstructionClasses), .store⟩,
    ⟨ST_W_IMM, on (!·.moveMemoryInstructionClasses), .store⟩,
    ⟨ST_DW_IMM, on (!·.moveMemoryInstructionClasses), .store⟩ ]

def stxArms : List VerifierArm :=
  [ ⟨ST_B_REG, on (!·.moveMemoryInstructionClasses), .store⟩,
    ⟨ST_H_REG, on (!·.moveMemoryInstructionClasses), .store⟩,
    ⟨ST_W_REG, on (!·.moveMemoryInstructionClasses), .store⟩,
    ⟨ST_DW_REG, on (!·.moveMemoryInstructionClasses), .store⟩ ]

def alu32LoadArms : List VerifierArm :=
  [ ⟨ADD32_IMM, always, .pass⟩, ⟨ADD32_REG, always, .pass⟩,
    ⟨SUB32_IMM, always, .pass⟩, ⟨SUB32_REG, always, .pass⟩,
    ⟨MUL32_IMM, on (!·.enablePqr), .pass⟩, ⟨MUL32_REG, on (!·.enablePqr), .pass⟩,
    ⟨LD_1B_REG, on (·.moveMemoryInstructionClasses), .pass⟩,
    ⟨DIV32_IMM, on (!·.enablePqr), .immNonzero⟩, ⟨DIV32_REG, on (!·.enablePqr), .pass⟩,
    ⟨LD_2B_REG, on (·.moveMemoryInstructionClasses), .pass⟩,
    ⟨OR32_IMM, always, .pass⟩, ⟨OR32_REG, always, .pass⟩,
    ⟨AND32_IMM, always, .pass⟩, ⟨AND32_REG, always, .pass⟩,
    ⟨LSH32_IMM, always, .immShift 32⟩, ⟨LSH32_REG, always, .pass⟩,
    ⟨RSH32_IMM, always, .immShift 32⟩, ⟨RSH32_REG, always, .pass⟩,
    ⟨NEG32, on (!·.disableNeg), .pass⟩,
    ⟨LD_4B_REG, on (·.moveMemoryInstructionClasses), .pass⟩,
    ⟨MOD32_IMM, on (!·.enablePqr), .immNonzero⟩, ⟨MOD32_REG, on (!·.enablePqr), .pass⟩,
    ⟨LD_8B_REG, on (·.moveMemoryInstructionClasses), .pass⟩,
    ⟨XOR32_IMM, always, .pass⟩, ⟨XOR32_REG, always, .pass⟩,
    ⟨MOV32_IMM, always, .pass⟩, ⟨MOV32_REG, always, .pass⟩,
    ⟨ARSH32_IMM, always, .immShift 32⟩, ⟨ARSH32_REG, always, .pass⟩,
    ⟨LE, on (!·.disableLe), .immEndian⟩,
    ⟨BE, always, .immEndian⟩ ]

def alu64StoreArms : List VerifierArm :=
  [ ⟨ADD64_IMM, onFramePtr (·.manualStackFrameBump), .immAligned 64⟩,
    ⟨ADD64_IMM, always, .pass⟩, ⟨ADD64_REG, always, .pass⟩,
    ⟨SUB64_IMM, always, .pass⟩, ⟨SUB64_REG, always, .pass⟩,
    ⟨MUL64_IMM, on (!·.enablePqr), .pass⟩,
    ⟨ST_1B_IMM, on (·.moveMemoryInstructionClasses), .store⟩,
    ⟨MUL64_REG, on (!·.enablePqr), .pass⟩,
    ⟨ST_1B_REG, on (·.moveMemoryInstructionClasses), .store⟩,
    ⟨DIV64_IMM, on (!·.enablePqr), .immNonzero⟩,
    ⟨ST_2B_IMM, on (·.moveMemoryInstructionClasses), .store⟩,
    ⟨DIV64_REG, on (!·.enablePqr), .pass⟩,
    ⟨ST_2B_REG, on (·.moveMemoryInstructionClasses), .store⟩,
    ⟨OR64_IMM, always, .pass⟩, ⟨OR64_REG, always, .pass⟩,
    ⟨AND64_IMM, always, .pass⟩, ⟨AND64_REG, always, .pass⟩,
    ⟨LSH64_IMM, always, .immShift 64⟩, ⟨LSH64_REG, always, .pass⟩,
    ⟨RSH64_IMM, always, .immShift 64⟩, ⟨RSH64_REG, always, .pass⟩,
    ⟨ST_4B_IMM, on (·.moveMemoryInstructionClasses), .store⟩,
    ⟨NEG64, on (!·.disableNeg), .pass⟩,
    ⟨ST_4B_REG, on (·.moveMemoryInstructionClasses), .store⟩,
    ⟨MOD64_IMM, on (!·.enablePqr), .immNonzero⟩,
    ⟨ST_8B_IMM, on (·.moveMemoryInstructionClasses), .store⟩,
    ⟨MOD64_REG, on (!·.enablePqr), .pass⟩,
    ⟨ST_8B_REG, on (·.moveMemoryInstructionClasses), .store⟩,
    ⟨XOR64_IMM, always, .pass⟩, ⟨XOR64_REG, always, .pass⟩,
    ⟨MOV64_IMM, always, .pass⟩, ⟨MOV64_REG, always, .pass⟩,
    ⟨ARSH64_IMM, always, .immShift 64⟩, ⟨ARSH64_REG, always, .pass⟩,
    ⟨HOR64_IMM, on (·.disableLddw), .pass⟩ ]

def pqrArms : List VerifierArm :=
  [ ⟨LMUL32_IMM, on (·.enablePqr), .pass⟩, ⟨LMUL32_REG, on (·.enablePqr), .pass⟩,
    ⟨LMUL64_IMM, on (·.enablePqr), .pass⟩, ⟨LMUL64_REG, on (·.enablePqr), .pass⟩,
    ⟨UHMUL64_IMM, on (·.enablePqr), .pass⟩, ⟨UHMUL64_REG, on (·.enablePqr), .pass⟩,
    ⟨SHMUL64_IMM, on (·.enablePqr), .pass⟩, ⟨SHMUL64_REG, on (·.enablePqr), .pass⟩,
    ⟨UDIV32_IMM, on (·.enablePqr), .immNonzero⟩, ⟨UDIV32_REG, on (·.enablePqr), .pass⟩,
    ⟨UDIV64_IMM, on (·.enablePqr), .immNonzero⟩, ⟨UDIV64_REG, on (·.enablePqr), .pass⟩,
    ⟨UREM32_IMM, on (·.enablePqr), .immNonzero⟩, ⟨UREM32_REG, on (·.enablePqr), .pass⟩,
    ⟨UREM64_IMM, on (·.enablePqr), .immNonzero⟩, ⟨UREM64_REG, on (·.enablePqr), .pass⟩,
    ⟨SDIV32_IMM, on (·.enablePqr), .immNonzero⟩, ⟨SDIV32_REG, on (·.enablePqr), .pass⟩,
    ⟨SDIV64_IMM, on (·.enablePqr), .immNonzero⟩, ⟨SDIV64_REG, on (·.enablePqr), .pass⟩,
    ⟨SREM32_IMM, on (·.enablePqr), .immNonzero⟩, ⟨SREM32_REG, on (·.enablePqr), .pass⟩,
    ⟨SREM64_IMM, on (·.enablePqr), .immNonzero⟩, ⟨SREM64_REG, on (·.enablePqr), .pass⟩ ]

def jmp32Arms : List VerifierArm :=
  armsOf
    [JEQ32_IMM, JEQ32_REG, JGT32_IMM, JGT32_REG, JGE32_IMM, JGE32_REG, JLT32_IMM, JLT32_REG,
     JLE32_IMM, JLE32_REG, JSET32_IMM, JSET32_REG, JNE32_IMM, JNE32_REG, JSGT32_IMM, JSGT32_REG,
     JSGE32_IMM, JSGE32_REG, JSLT32_IMM, JSLT32_REG, JSLE32_IMM, JSLE32_REG]
    (on (·.enableJmp32)) .jmpOffset

def jmp64Arms : List VerifierArm :=
  armsOf
    [JA, JEQ64_IMM, JEQ64_REG, JGT64_IMM, JGT64_REG, JGE64_IMM, JGE64_REG, JLT64_IMM, JLT64_REG,
     JLE64_IMM, JLE64_REG, JSET64_IMM, JSET64_REG, JNE64_IMM, JNE64_REG, JSGT64_IMM, JSGT64_REG,
     JSGE64_IMM, JSGE64_REG, JSLT64_IMM, JSLT64_REG, JSLE64_IMM, JSLE64_REG]
    always .jmpOffset ++
  [ ⟨CALL_IMM, always, .pass⟩, ⟨CALL_REG, always, .callxRegister⟩, ⟨EXIT, always, .pass⟩ ]

def arms : List VerifierArm :=
  ldArms ++ ldxArms ++ stArms ++ stxArms ++ alu32LoadArms ++ alu64StoreArms ++ pqrArms ++ jmp32Arms ++ jmp64Arms

def selectCheck (insn : Insn) : Option Check :=
  Dispatch.select arms (v, insn.dst.toNat == FRAME_PTR_REG) insn.opc

/-- An arm. The result is `insn_ptr`, which an `LDDW` moves to its second slot. -/
def Check.run (insn : Insn) (insnPtr : Nat) : Check → VerifyM Nat
  | .pass => .ok insnPtr
  | .store => .ok insnPtr
  | .loadDw => do checkLoadDw prog insnPtr; return insnPtr + 1
  | .immNonzero => do checkImmNonzero insn insnPtr; return insnPtr
  | .immShift immBits => do checkImmShift insn insnPtr immBits; return insnPtr
  | .immEndian => do checkImmEndian insn insnPtr; return insnPtr
  | .immAligned alignment => do checkImmAligned insn insnPtr alignment; return insnPtr
  | .jmpOffset => do checkJmpOffset prog insnPtr; return insnPtr
  | .callxRegister => do checkCallxRegister insn insnPtr v; return insnPtr

/-! ## The pass -/

/-- One turn of the loop, from the slot `insnPtr` to the slot of the next instruction. -/
def verifyInsn (insnPtr : Nat) : VerifyM Nat := do
  let insn ← orPanic (getInsn prog insnPtr)
  match selectCheck v insn with
  | none => fail (.UnknownOpCode insn.opc insnPtr)
  | some check =>
    let insnPtr ← check.run prog v insn insnPtr
    checkRegisters insn (check == .store) insnPtr v
    return insnPtr + 1

theorem Check.lt_run_succ {prog : List UInt8} {v : SBPFVersion} {insn : Insn} {check : Check}
    (h : check.run prog v insn p = .ok q) : p < q + 1 := by
  cases check <;> simp only [Check.run, Run.except_bind_ok, pure, Except.pure, Except.ok.injEq] at h
  all_goals omega

theorem lt_of_verifyInsn {prog : List UInt8} {v : SBPFVersion} (h : verifyInsn prog v p = .ok q) : p < q := by
  obtain ⟨insn, -, h⟩ := Run.except_inv h
  split at h
  · cases h
  · obtain ⟨r, hr, h⟩ := Run.except_inv h
    obtain ⟨_, -, h⟩ := Run.except_inv h
    cases h
    exact Check.lt_run_succ hr

/-- The loop. The result is the last `insn_ptr`. -/
def verifyFrom (prog : List UInt8) (v : SBPFVersion) (insnPtr : Nat) : VerifyM Nat :=
  if (insnPtr + 1) * INSN_SIZE ≤ prog.length then
    match _h : verifyInsn prog v insnPtr with
    | .error err => .error err
    | .ok next => verifyFrom prog v next
  else .ok insnPtr
  termination_by prog.length - insnPtr
  decreasing_by
    have := lt_of_verifyInsn ‹_›
    simp only [INSN_SIZE] at *
    omega

def verify : VerifyM Unit := do
  checkProgLen prog
  let insnPtr ← verifyFrom prog v 0
  -- insn_ptr should now be equal to number of instructions.
  if insnPtr ≠ prog.length / INSN_SIZE then fail (.JumpOutOfCode insnPtr insnPtr) else .ok ()

end Verifier

end Svm.Sbpf
