import Svm.Impl.Sbpf.Arith
import Svm.Framework.Run

/-!
# The interpreter

`Interpreter::step` of `interpreter.rs` on the machine of `vm.rs`. A step is a
program that may stop: with a panic, or because the run is over, which leaves its
outcome in `program_result`. Memory and syscalls are what the machine is given:
any memory that fails with access errors only, and any functions on the context.
-/

namespace Svm.Sbpf

open Machine Ebpf

/-! ## The machine -/

/-- What the interpreter takes from the `Config` of `vm.rs`. The stack is allocated
with `stack_size()` bytes, so that this size is one of an allocation. -/
structure Config where
  maxCallDepth : UInt64
  stackFrameSize : UInt64
  enableStackFrameGaps : Bool
  enableInstructionMeter : Bool
  enableRegisterTracing : Bool
  stackSize_lt : stackFrameSize.toNat * maxCallDepth.toNat < 2 ^ 63

/-- The trait `ContextObject`, for the meter. -/
structure ContextObject (C : Type) where
  consume : C → UInt64 → C
  getRemaining : C → UInt64

/-- `BuiltinFunctionDefinition::rust`: a syscall on the context. -/
abbrev Syscall (C : Type) := C → (a b c d e : UInt64) → Except String UInt64 × C

/-- An executable with its loader. The text is a slice, of at most `isize::MAX` bytes. -/
structure Executable (C : Type) where
  text : List UInt8
  textVmAddr : UInt64
  sbpfVersion : SBPFVersion
  functionRegistry : UInt32 → Option UInt64
  loaderRegistry : UInt32 → Option (Syscall C)
  config : Config
  context : ContextObject C
  text_lt : text.length < 2 ^ 63

/-- The number of slots. -/
def Executable.insnCount {C : Type} (exe : Executable C) : Nat := exe.text.length / INSN_SIZE

inductive Width where
  | u8 | u16 | u32 | u64
  deriving DecidableEq, Repr

/-- The errors of an access to memory. -/
def EbpfError.isAccess : EbpfError → Bool
  | .InvalidMemoryRegion _ => true
  | .AccessViolation .. => true
  | .StackAccessViolation .. => true
  | _ => false

/-- `MemoryMapping::load` and `store` on the mapping behind the context. A store is
given the value before it is narrowed. -/
structure Memory (C : Type) where
  load : Width → (vmAddr : UInt64) → EStateM EbpfError C UInt64
  store : Width → (value vmAddr : UInt64) → EStateM EbpfError C UInt64
  isAccess_of_load {w : Width} {vmAddr : UInt64} {c c' : C} {err : EbpfError} :
    (load w vmAddr).run c = .error err c' → err.isAccess = true
  isAccess_of_store {w : Width} {value vmAddr : UInt64} {c c' : C} {err : EbpfError} :
    (store w value vmAddr).run c = .error err c' → err.isAccess = true

abbrev Registers := Vector UInt64 12

structure CallFrame where
  callerSavedRegisters : Vector UInt64 4
  framePointer : UInt64
  targetPc : UInt64
  deriving DecidableEq

structure EbpfVm (C : Type) where
  callDepth : UInt64
  context : C
  previousInstructionMeter : UInt64
  dueInsnCount : UInt64
  registers : Registers
  programResult : Except EbpfError UInt64
  registerTrace : List Registers

structure Interpreter (C : Type) where
  vm : EbpfVm C
  callFrames : List CallFrame
  reg : Registers

variable {C : Type}

theorem pc_lt : 11 < 12 := by decide

def Interpreter.pc (s : Interpreter C) : UInt64 := s.reg[11]

/-- `Interpreter::new`, which asserts that there are enough call frames. -/
def Interpreter.new (vm : EbpfVm C) (exe : Executable C) (registers : Registers) (callFrames : List CallFrame) :
    Option (Interpreter C) :=
  if exe.config.maxCallDepth.toNat ≤ callFrames.length then some ⟨vm, callFrames, registers⟩ else none

/-! ## Programs on the machine -/

/-- Why a step does not go on: `done` is `return false`. -/
inductive Halt where
  | panic
  | done
  deriving DecidableEq, Repr

abbrev StepM (C : Type) := EStateM Halt (Interpreter C)

namespace Interpreter

def orPanic {α : Type} : Option α → StepM C α
  | some a => pure a
  | none => throw .panic

def setVm (s : Interpreter C) (vm : EbpfVm C) : Interpreter C := { s with vm := vm }

def throwErr {α : Type} (err : EbpfError) : StepM C α := do
  modify fun s =>
    s.setVm { s.vm with registers := s.vm.registers.set 11 s.reg[11], programResult := .error err }
  throw .done

def ofOutcome {α : Type} : Except (Trap EbpfError) α → StepM C α
  | .ok a => pure a
  | .error .panic => throw .panic
  | .error (.error err) => throwErr err

def readReg (i : Nat) : StepM C UInt64 := do
  let s ← get
  orPanic s.reg[i]?

def writeReg (i : Nat) (value : UInt64) : StepM C Unit := do
  if h : i < 12 then modify fun s => { s with reg := s.reg.set i value } else throw .panic

/-- `translate_memory_access!`. -/
def translateMemoryAccess (access : EStateM EbpfError C UInt64) : StepM C UInt64 := do
  let s ← get
  match access.run s.vm.context with
  | .ok value context =>
    set (s.setVm { s.vm with context := context })
    return value
  | .error err context =>
    set (s.setVm { s.vm with context := context })
    throwErr err

def operand (o : Operand) (insn : Insn) : StepM C UInt64 :=
  match o with
  | .imm => pure insn.imm.toUInt64
  | .reg => readReg insn.src.toNat

/-- `(base as i64).wrapping_add(insn.off as i64) as u64`. -/
def offsetAddr (base : UInt64) (insn : Insn) : UInt64 := base + insn.off.toInt64.toUInt64

/-- `(next_pc as i64 + insn.off as i64) as u64`. -/
def jumpTarget (nextPc : UInt64) (insn : Insn) : Option UInt64 :=
  (iCheckedAdd 64 nextPc.toInt64.toInt insn.off.toInt).map fun target => (Int64.ofInt target).toUInt64

/-! ## Calls -/

variable (exe : Executable C)

/-- The registers `r6` to `r9`. -/
def scratchRegisters (reg : Registers) : Vector UInt64 4 := #v[reg[6], reg[7], reg[8], reg[9]]

def pushFrame : StepM C Unit := do
  let s ← get
  let depth := s.vm.callDepth.toNat
  if depth < s.callFrames.length then
    let targetPc ← orPanic (U64.checkedAdd s.reg[11] 1)
    let frame : CallFrame := ⟨scratchRegisters s.reg, s.reg[10], targetPc⟩
    let callDepth ← orPanic (U64.checkedAdd s.vm.callDepth 1)
    set { s with vm := { s.vm with callDepth := callDepth }, callFrames := s.callFrames.set depth frame }
    if callDepth = exe.config.maxCallDepth then throwErr .CallDepthExceeded
    else if !exe.sbpfVersion.manualStackFrameBump then
      -- With fixed frames we start the new frame at the next fixed offset
      let numFrames := if exe.sbpfVersion.stackFrameGaps && exe.config.enableStackFrameGaps then 2 else 1
      let stackFrameSize ← orPanic (U64.checkedMul exe.config.stackFrameSize numFrames)
      modify fun s => { s with reg := s.reg.set 10 (s.reg[10] + stackFrameSize) }
    else pure ()
  else throw .panic

/-- `check_pc!`. The result is the next pc. -/
def checkPc (targetPc : UInt64) : StepM C UInt64 :=
  if isPcInProgram exe.text targetPc then pure targetPc else throwErr .CallOutsideTextSegment

/-- `BuiltinFunctionDefinition::vm`, called through `invoke_function`. -/
def invokeFunction (function : Syscall C) : StepM C Unit := do
  if exe.config.enableInstructionMeter then
    let s ← get
    let usedCus ← orPanic (U64.checkedSub s.vm.previousInstructionMeter s.vm.dueInsnCount)
    set (s.setVm { s.vm with context := exe.context.consume s.vm.context usedCus })
  else pure ()
  modify fun s =>
    let r := s.vm.registers
    let (result, context) := function s.vm.context r[1] r[2] r[3] r[4] r[5]
    s.setVm { s.vm with
      context := context
      programResult := result.mapError .SyscallError }
  if exe.config.enableInstructionMeter then
    modify fun s => s.setVm { s.vm with previousInstructionMeter := exe.context.getRemaining s.vm.context }
  else pure ()

/-- `registers[0..6].copy_from_slice(&reg[0..6])`. -/
def copyArguments (reg registers : Registers) : Registers :=
  #v[reg[0], reg[1], reg[2], reg[3], reg[4], reg[5], registers[6], registers[7], registers[8], registers[9],
    registers[10], registers[11]]

def dispatchSyscall (function : Syscall C) : StepM C (Except EbpfError UInt64) := do
  let s ← get
  let due ← orPanic (U64.checkedSub s.vm.previousInstructionMeter s.vm.dueInsnCount)
  set (s.setVm { s.vm with dueInsnCount := due, registers := copyArguments s.reg s.vm.registers })
  invokeFunction exe function
  modify fun s => s.setVm { s.vm with dueInsnCount := 0 }
  let s ← get
  return s.vm.programResult

/-- The part of `CALL_IMM` for syscalls: whether there was one. -/
def callExternal (insn : Insn) : StepM C Bool :=
  if !exe.sbpfVersion.staticSyscalls || insn.src == 0 then
    match exe.loaderRegistry insn.imm.toUInt64.toUInt32 with
    | none => pure false
    | some function => do
      match ← dispatchSyscall exe function with
      | .ok value =>
        writeReg 0 value
        return true
      | .error _ => throw .done
  else pure false

/-- `(next_pc as i64).saturating_add(insn.imm)`, as a pc. -/
def callTarget (nextPc : UInt64) (insn : Insn) : UInt64 :=
  (Int64.ofInt (iSatAdd 64 nextPc.toInt64.toInt insn.imm.toInt)).toUInt64

/-- The part of `CALL_IMM` for internal calls: the next pc, if there was one. -/
def callInternal (insn : Insn) (nextPc : UInt64) : StepM C (Option UInt64) :=
  if exe.sbpfVersion.staticSyscalls then
    let targetPc := callTarget nextPc insn
    if isPcInProgram exe.text targetPc && insn.src == 1 then do
      pushFrame exe
      return some targetPc
    else pure none
  else
    match exe.functionRegistry insn.imm.toUInt64.toUInt32 with
    | none => pure none
    | some targetPc => do
      pushFrame exe
      return some (← checkPc exe targetPc)

def callImm (insn : Insn) (nextPc : UInt64) : StepM C UInt64 := do
  let resolved ← callExternal exe insn
  match ← callInternal exe insn nextPc with
  | some targetPc => return targetPc
  | none => if resolved then return nextPc else throwErr .UnsupportedInstruction

/-- The address that `CALL_REG` calls. -/
def callxTarget (insn : Insn) : StepM C UInt64 :=
  if exe.sbpfVersion.callxUsesSrcReg then readReg insn.src.toNat
  else if exe.sbpfVersion.callxUsesDstReg then readReg insn.dst.toNat
  else readReg insn.imm.toUInt64.toNat

def callReg (insn : Insn) : StepM C UInt64 := do
  let targetPc ← callxTarget exe insn
  pushFrame exe
  checkPc exe ((targetPc - exe.textVmAddr) / 8)

/-- The registers of the caller. -/
def restoreRegisters (reg : Registers) (frame : CallFrame) : Registers :=
  let saved := frame.callerSavedRegisters
  #v[reg[0], reg[1], reg[2], reg[3], reg[4], reg[5], saved[0], saved[1], saved[2], saved[3],
    frame.framePointer, reg[11]]

def exit : StepM C UInt64 := do
  let s ← get
  if s.vm.callDepth = 0 then
    if exe.config.enableInstructionMeter && s.vm.dueInsnCount > s.vm.previousInstructionMeter then
      throwErr .ExceededMaxInstructions
    else
      set (s.setVm { s.vm with programResult := .ok s.reg[0] })
      throw .done
  else
    -- Return from BPF to BPF call
    let callDepth ← orPanic (U64.checkedSub s.vm.callDepth 1)
    let frame ← orPanic s.callFrames[callDepth.toNat]?
    set { s with vm := { s.vm with callDepth := callDepth }, reg := restoreRegisters s.reg frame }
    return frame.targetPc

/-! ## The arms -/

/-- What an arm of the match on the opcode does. -/
inductive Arm where
  | ldDwImm
  | load (w : Width)
  | store (w : Width) (o : Operand)
  | alu (op : AluOp) (o : Operand)
  | ja
  | jmp32 (c : Cond) (o : Operand)
  | jmp64 (c : Cond) (o : Operand)
  | callReg
  | callImm
  | exit
  deriving DecidableEq, Repr

abbrev InterpreterArm := Dispatch.Arm SBPFVersion UInt8 Arm

def always : SBPFVersion → Bool := fun _ => true

def ldArms : List InterpreterArm :=
  [ ⟨LD_DW_IMM, (!·.disableLddw), .ldDwImm⟩ ]

def ldxArms : List InterpreterArm :=
  [ ⟨LD_B_REG, (!·.moveMemoryInstructionClasses), .load .u8⟩,
    ⟨LD_H_REG, (!·.moveMemoryInstructionClasses), .load .u16⟩,
    ⟨LD_W_REG, (!·.moveMemoryInstructionClasses), .load .u32⟩,
    ⟨LD_DW_REG, (!·.moveMemoryInstructionClasses), .load .u64⟩ ]

def stArms : List InterpreterArm :=
  [ ⟨ST_B_IMM, (!·.moveMemoryInstructionClasses), .store .u8 .imm⟩,
    ⟨ST_H_IMM, (!·.moveMemoryInstructionClasses), .store .u16 .imm⟩,
    ⟨ST_W_IMM, (!·.moveMemoryInstructionClasses), .store .u32 .imm⟩,
    ⟨ST_DW_IMM, (!·.moveMemoryInstructionClasses), .store .u64 .imm⟩ ]

def stxArms : List InterpreterArm :=
  [ ⟨ST_B_REG, (!·.moveMemoryInstructionClasses), .store .u8 .reg⟩,
    ⟨ST_H_REG, (!·.moveMemoryInstructionClasses), .store .u16 .reg⟩,
    ⟨ST_W_REG, (!·.moveMemoryInstructionClasses), .store .u32 .reg⟩,
    ⟨ST_DW_REG, (!·.moveMemoryInstructionClasses), .store .u64 .reg⟩ ]

def alu32LoadArms : List InterpreterArm :=
  [ ⟨ADD32_IMM, always, .alu .add32 .imm⟩, ⟨ADD32_REG, always, .alu .add32 .reg⟩,
    ⟨SUB32_IMM, always, .alu .sub32 .imm⟩, ⟨SUB32_REG, always, .alu .sub32 .reg⟩,
    ⟨MUL32_IMM, (!·.enablePqr), .alu .mul32 .imm⟩, ⟨MUL32_REG, (!·.enablePqr), .alu .mul32 .reg⟩,
    ⟨LD_1B_REG, (·.moveMemoryInstructionClasses), .load .u8⟩,
    ⟨DIV32_IMM, (!·.enablePqr), .alu .div32 .imm⟩, ⟨DIV32_REG, (!·.enablePqr), .alu .div32 .reg⟩,
    ⟨LD_2B_REG, (·.moveMemoryInstructionClasses), .load .u16⟩,
    ⟨OR32_IMM, always, .alu .or32 .imm⟩, ⟨OR32_REG, always, .alu .or32 .reg⟩,
    ⟨AND32_IMM, always, .alu .and32 .imm⟩, ⟨AND32_REG, always, .alu .and32 .reg⟩,
    ⟨LSH32_IMM, always, .alu .lsh32 .imm⟩, ⟨LSH32_REG, always, .alu .lsh32 .reg⟩,
    ⟨RSH32_IMM, always, .alu .rsh32 .imm⟩, ⟨RSH32_REG, always, .alu .rsh32 .reg⟩,
    ⟨NEG32, (!·.disableNeg), .alu .neg32 .imm⟩,
    ⟨LD_4B_REG, (·.moveMemoryInstructionClasses), .load .u32⟩,
    ⟨MOD32_IMM, (!·.enablePqr), .alu .mod32 .imm⟩, ⟨MOD32_REG, (!·.enablePqr), .alu .mod32 .reg⟩,
    ⟨LD_8B_REG, (·.moveMemoryInstructionClasses), .load .u64⟩,
    ⟨XOR32_IMM, always, .alu .xor32 .imm⟩, ⟨XOR32_REG, always, .alu .xor32 .reg⟩,
    ⟨MOV32_IMM, always, .alu .mov32 .imm⟩, ⟨MOV32_REG, always, .alu .mov32 .reg⟩,
    ⟨ARSH32_IMM, always, .alu .arsh32 .imm⟩, ⟨ARSH32_REG, always, .alu .arsh32 .reg⟩,
    ⟨LE, (!·.disableLe), .alu .le .imm⟩,
    ⟨BE, always, .alu .be .imm⟩ ]

def alu64StoreArms : List InterpreterArm :=
  [ ⟨ADD64_IMM, always, .alu .add64 .imm⟩, ⟨ADD64_REG, always, .alu .add64 .reg⟩,
    ⟨SUB64_IMM, always, .alu .sub64 .imm⟩, ⟨SUB64_REG, always, .alu .sub64 .reg⟩,
    ⟨MUL64_IMM, (!·.enablePqr), .alu .mul64 .imm⟩,
    ⟨ST_1B_IMM, (·.moveMemoryInstructionClasses), .store .u8 .imm⟩,
    ⟨MUL64_REG, (!·.enablePqr), .alu .mul64 .reg⟩,
    ⟨ST_1B_REG, (·.moveMemoryInstructionClasses), .store .u8 .reg⟩,
    ⟨DIV64_IMM, (!·.enablePqr), .alu .div64 .imm⟩,
    ⟨ST_2B_IMM, (·.moveMemoryInstructionClasses), .store .u16 .imm⟩,
    ⟨DIV64_REG, (!·.enablePqr), .alu .div64 .reg⟩,
    ⟨ST_2B_REG, (·.moveMemoryInstructionClasses), .store .u16 .reg⟩,
    ⟨OR64_IMM, always, .alu .or64 .imm⟩, ⟨OR64_REG, always, .alu .or64 .reg⟩,
    ⟨AND64_IMM, always, .alu .and64 .imm⟩, ⟨AND64_REG, always, .alu .and64 .reg⟩,
    ⟨LSH64_IMM, always, .alu .lsh64 .imm⟩, ⟨LSH64_REG, always, .alu .lsh64 .reg⟩,
    ⟨RSH64_IMM, always, .alu .rsh64 .imm⟩, ⟨RSH64_REG, always, .alu .rsh64 .reg⟩,
    ⟨ST_4B_IMM, (·.moveMemoryInstructionClasses), .store .u32 .imm⟩,
    ⟨NEG64, (!·.disableNeg), .alu .neg64 .imm⟩,
    ⟨ST_4B_REG, (·.moveMemoryInstructionClasses), .store .u32 .reg⟩,
    ⟨MOD64_IMM, (!·.enablePqr), .alu .mod64 .imm⟩,
    ⟨ST_8B_IMM, (·.moveMemoryInstructionClasses), .store .u64 .imm⟩,
    ⟨MOD64_REG, (!·.enablePqr), .alu .mod64 .reg⟩,
    ⟨ST_8B_REG, (·.moveMemoryInstructionClasses), .store .u64 .reg⟩,
    ⟨XOR64_IMM, always, .alu .xor64 .imm⟩, ⟨XOR64_REG, always, .alu .xor64 .reg⟩,
    ⟨MOV64_IMM, always, .alu .mov64 .imm⟩, ⟨MOV64_REG, always, .alu .mov64 .reg⟩,
    ⟨ARSH64_IMM, always, .alu .arsh64 .imm⟩, ⟨ARSH64_REG, always, .alu .arsh64 .reg⟩,
    ⟨HOR64_IMM, (·.disableLddw), .alu .hor64 .imm⟩ ]

def pqrArms : List InterpreterArm :=
  [ ⟨LMUL32_IMM, (·.enablePqr), .alu .lmul32 .imm⟩, ⟨LMUL32_REG, (·.enablePqr), .alu .lmul32 .reg⟩,
    ⟨LMUL64_IMM, (·.enablePqr), .alu .lmul64 .imm⟩, ⟨LMUL64_REG, (·.enablePqr), .alu .lmul64 .reg⟩,
    ⟨UHMUL64_IMM, (·.enablePqr), .alu .uhmul64 .imm⟩, ⟨UHMUL64_REG, (·.enablePqr), .alu .uhmul64 .reg⟩,
    ⟨SHMUL64_IMM, (·.enablePqr), .alu .shmul64 .imm⟩, ⟨SHMUL64_REG, (·.enablePqr), .alu .shmul64 .reg⟩,
    ⟨UDIV32_IMM, (·.enablePqr), .alu .udiv32 .imm⟩, ⟨UDIV32_REG, (·.enablePqr), .alu .udiv32 .reg⟩,
    ⟨UDIV64_IMM, (·.enablePqr), .alu .udiv64 .imm⟩, ⟨UDIV64_REG, (·.enablePqr), .alu .udiv64 .reg⟩,
    ⟨UREM32_IMM, (·.enablePqr), .alu .urem32 .imm⟩, ⟨UREM32_REG, (·.enablePqr), .alu .urem32 .reg⟩,
    ⟨UREM64_IMM, (·.enablePqr), .alu .urem64 .imm⟩, ⟨UREM64_REG, (·.enablePqr), .alu .urem64 .reg⟩,
    ⟨SDIV32_IMM, (·.enablePqr), .alu .sdiv32 .imm⟩, ⟨SDIV32_REG, (·.enablePqr), .alu .sdiv32 .reg⟩,
    ⟨SDIV64_IMM, (·.enablePqr), .alu .sdiv64 .imm⟩, ⟨SDIV64_REG, (·.enablePqr), .alu .sdiv64 .reg⟩,
    ⟨SREM32_IMM, (·.enablePqr), .alu .srem32 .imm⟩, ⟨SREM32_REG, (·.enablePqr), .alu .srem32 .reg⟩,
    ⟨SREM64_IMM, (·.enablePqr), .alu .srem64 .imm⟩, ⟨SREM64_REG, (·.enablePqr), .alu .srem64 .reg⟩ ]

def jmp32Arms : List InterpreterArm :=
  [ ⟨JEQ32_IMM, (·.enableJmp32), .jmp32 .eq .imm⟩, ⟨JEQ32_REG, (·.enableJmp32), .jmp32 .eq .reg⟩,
    ⟨JGT32_IMM, (·.enableJmp32), .jmp32 .gt .imm⟩, ⟨JGT32_REG, (·.enableJmp32), .jmp32 .gt .reg⟩,
    ⟨JGE32_IMM, (·.enableJmp32), .jmp32 .ge .imm⟩, ⟨JGE32_REG, (·.enableJmp32), .jmp32 .ge .reg⟩,
    ⟨JLT32_IMM, (·.enableJmp32), .jmp32 .lt .imm⟩, ⟨JLT32_REG, (·.enableJmp32), .jmp32 .lt .reg⟩,
    ⟨JLE32_IMM, (·.enableJmp32), .jmp32 .le .imm⟩, ⟨JLE32_REG, (·.enableJmp32), .jmp32 .le .reg⟩,
    ⟨JSET32_IMM, (·.enableJmp32), .jmp32 .set .imm⟩, ⟨JSET32_REG, (·.enableJmp32), .jmp32 .set .reg⟩,
    ⟨JNE32_IMM, (·.enableJmp32), .jmp32 .ne .imm⟩, ⟨JNE32_REG, (·.enableJmp32), .jmp32 .ne .reg⟩,
    ⟨JSGT32_IMM, (·.enableJmp32), .jmp32 .sgt .imm⟩, ⟨JSGT32_REG, (·.enableJmp32), .jmp32 .sgt .reg⟩,
    ⟨JSGE32_IMM, (·.enableJmp32), .jmp32 .sge .imm⟩, ⟨JSGE32_REG, (·.enableJmp32), .jmp32 .sge .reg⟩,
    ⟨JSLT32_IMM, (·.enableJmp32), .jmp32 .slt .imm⟩, ⟨JSLT32_REG, (·.enableJmp32), .jmp32 .slt .reg⟩,
    ⟨JSLE32_IMM, (·.enableJmp32), .jmp32 .sle .imm⟩, ⟨JSLE32_REG, (·.enableJmp32), .jmp32 .sle .reg⟩ ]

def jmp64Arms : List InterpreterArm :=
  [ ⟨JA, always, .ja⟩,
    ⟨JEQ64_IMM, always, .jmp64 .eq .imm⟩, ⟨JEQ64_REG, always, .jmp64 .eq .reg⟩,
    ⟨JGT64_IMM, always, .jmp64 .gt .imm⟩, ⟨JGT64_REG, always, .jmp64 .gt .reg⟩,
    ⟨JGE64_IMM, always, .jmp64 .ge .imm⟩, ⟨JGE64_REG, always, .jmp64 .ge .reg⟩,
    ⟨JLT64_IMM, always, .jmp64 .lt .imm⟩, ⟨JLT64_REG, always, .jmp64 .lt .reg⟩,
    ⟨JLE64_IMM, always, .jmp64 .le .imm⟩, ⟨JLE64_REG, always, .jmp64 .le .reg⟩,
    ⟨JSET64_IMM, always, .jmp64 .set .imm⟩, ⟨JSET64_REG, always, .jmp64 .set .reg⟩,
    ⟨JNE64_IMM, always, .jmp64 .ne .imm⟩, ⟨JNE64_REG, always, .jmp64 .ne .reg⟩,
    ⟨JSGT64_IMM, always, .jmp64 .sgt .imm⟩, ⟨JSGT64_REG, always, .jmp64 .sgt .reg⟩,
    ⟨JSGE64_IMM, always, .jmp64 .sge .imm⟩, ⟨JSGE64_REG, always, .jmp64 .sge .reg⟩,
    ⟨JSLT64_IMM, always, .jmp64 .slt .imm⟩, ⟨JSLT64_REG, always, .jmp64 .slt .reg⟩,
    ⟨JSLE64_IMM, always, .jmp64 .sle .imm⟩, ⟨JSLE64_REG, always, .jmp64 .sle .reg⟩,
    ⟨CALL_REG, always, .callReg⟩,
    ⟨CALL_IMM, always, .callImm⟩,
    ⟨EXIT, always, .exit⟩ ]

def arms : List InterpreterArm :=
  ldArms ++ ldxArms ++ stArms ++ stxArms ++ alu32LoadArms ++ alu64StoreArms ++ pqrArms ++ jmp32Arms ++ jmp64Arms

def selectArm (v : SBPFVersion) (opc : UInt8) : Option Arm := Dispatch.select arms v opc

/-- A jump, if `eval` says so of `dst` and the operand. -/
def branch (eval : UInt64 → UInt64 → Bool) (o : Operand) (insn : Insn) (nextPc : UInt64) : StepM C UInt64 := do
  let dst ← readReg insn.dst.toNat
  let x ← operand o insn
  if eval dst x then orPanic (jumpTarget nextPc insn) else return nextPc

variable (memory : Memory C)

/-- An arm. The result is `next_pc`. -/
def exec (insn : Insn) (nextPc : UInt64) : Arm → StepM C UInt64
  | .ldDwImm => do
    let imm ← orPanic (augmentLddw exe.text insn)
    writeReg insn.dst.toNat imm.toUInt64
    let pc ← readReg 11
    writeReg 11 (← orPanic (U64.checkedAdd pc 1))
    orPanic (U64.checkedAdd nextPc 1)
  | .load w => do
    let vmAddr := offsetAddr (← readReg insn.src.toNat) insn
    writeReg insn.dst.toNat (← translateMemoryAccess (memory.load w vmAddr))
    return nextPc
  | .store w o => do
    let vmAddr := offsetAddr (← readReg insn.dst.toNat) insn
    let value ← operand o insn
    let _ ← translateMemoryAccess (memory.store w value vmAddr)
    return nextPc
  | .alu op o => do
    let dst ← readReg insn.dst.toNat
    let x ← operand o insn
    writeReg insn.dst.toNat (← ofOutcome (op.eval exe.sbpfVersion o dst x))
    return nextPc
  | .ja => orPanic (jumpTarget nextPc insn)
  | .jmp32 c o => branch c.eval32 o insn nextPc
  | .jmp64 c o => branch c.eval64 o insn nextPc
  | .callReg => callReg exe insn
  | .callImm => callImm exe insn nextPc
  | .exit => exit exe

/-! ## The step -/

/-- The budget is used up. -/
def exhausted (s : Interpreter C) : Bool :=
  exe.config.enableInstructionMeter && s.vm.dueInsnCount ≥ s.vm.previousInstructionMeter

/-- The budget check and the count of the instruction. -/
def meterInsn : StepM C Unit := do
  let s ← get
  if exhausted exe s then throwErr .ExceededMaxInstructions
  else
    let due ← orPanic (U64.checkedAdd s.vm.dueInsnCount 1)
    set (s.setVm { s.vm with dueInsnCount := due })

/-- The instruction at the pc. -/
def fetch : StepM C Insn := do
  let s ← get
  let offset ← orPanic (U64.checkedMul s.reg[11] 8)
  if offset.toNat ≥ exe.text.length then throwErr .ExecutionOverrun
  else orPanic (getInsn exe.text s.reg[11].toNat)

def traceRegisters : StepM C Unit :=
  if exe.config.enableRegisterTracing then
    modify fun s => s.setVm { s.vm with registerTrace := s.vm.registerTrace ++ [s.reg] }
  else pure ()

def execInsn (insn : Insn) (nextPc : UInt64) : StepM C UInt64 :=
  match selectArm exe.sbpfVersion insn.opc with
  | none => throwErr .UnsupportedInstruction
  | some arm => exec exe memory insn nextPc arm

/-- `step`, which goes on or stops. -/
def step : StepM C Unit := do
  meterInsn exe
  let insn ← fetch exe
  let nextPc ← orPanic (U64.checkedAdd (← readReg 11) 1)
  traceRegisters exe
  writeReg 11 (← execInsn exe memory insn nextPc)

end Interpreter

end Svm.Sbpf
