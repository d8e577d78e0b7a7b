import Svm.Impl.Sbpf.MemoryMapping
import Svm.Framework.Dispatch

/-!
# Instructions

`ebpf.rs` and the version predicates of `program.rs`: the opcodes, which share
codes across versions, and the instruction at a slot of a program. Reading
outside the program is a panic, so the readers are partial.
-/

namespace Svm.Sbpf

open Machine

/-! ## Versions -/

namespace SBPFVersion

variable (v : SBPFVersion)

def stackFrameGaps : Bool := v == .V0
def enablePqr : Bool := v == .V2
def explicitSignExtensionOfResults : Bool := v == .V2
def swapSubRegImmOperands : Bool := v == .V2
def disableNeg : Bool := v == .V2
def callxUsesSrcReg : Bool := v == .V2
def disableLddw : Bool := v == .V2
def disableLe : Bool := v == .V2
def moveMemoryInstructionClasses : Bool := v == .V2
def staticSyscalls : Bool := decide (.V3 ≤ v)
def enableJmp32 : Bool := decide (.V3 ≤ v)
def callxUsesDstReg : Bool := decide (.V3 ≤ v)

def all : List SBPFVersion := [.V0, .V1, .V2, .V3, .V4, .Reserved]

theorem mem_all : v ∈ all := by cases v <;> decide

end SBPFVersion

/-! ## Opcodes -/

namespace Ebpf

def INSN_SIZE : Nat := 8
def FRAME_PTR_REG : Nat := 10

def BPF_LD : UInt8 := 0x00
def BPF_LDX : UInt8 := 0x01
def BPF_ST : UInt8 := 0x02
def BPF_STX : UInt8 := 0x03
def BPF_ALU32_LOAD : UInt8 := 0x04
def BPF_JMP64 : UInt8 := 0x05
def BPF_JMP32 : UInt8 := 0x06
def BPF_PQR : UInt8 := 0x06
def BPF_ALU64_STORE : UInt8 := 0x07
def BPF_W : UInt8 := 0x00
def BPF_H : UInt8 := 0x08
def BPF_B : UInt8 := 0x10
def BPF_DW : UInt8 := 0x18
def BPF_1B : UInt8 := 0x20
def BPF_2B : UInt8 := 0x30
def BPF_4B : UInt8 := 0x80
def BPF_8B : UInt8 := 0x90
def BPF_IMM : UInt8 := 0x00
def BPF_MEM : UInt8 := 0x60
def BPF_K : UInt8 := 0x00
def BPF_X : UInt8 := 0x08
def BPF_ADD : UInt8 := 0x00
def BPF_SUB : UInt8 := 0x10
def BPF_MUL : UInt8 := 0x20
def BPF_DIV : UInt8 := 0x30
def BPF_OR : UInt8 := 0x40
def BPF_AND : UInt8 := 0x50
def BPF_LSH : UInt8 := 0x60
def BPF_RSH : UInt8 := 0x70
def BPF_NEG : UInt8 := 0x80
def BPF_MOD : UInt8 := 0x90
def BPF_XOR : UInt8 := 0xa0
def BPF_MOV : UInt8 := 0xb0
def BPF_ARSH : UInt8 := 0xc0
def BPF_END : UInt8 := 0xd0
def BPF_HOR : UInt8 := 0xf0
def BPF_UHMUL : UInt8 := 0x20
def BPF_UDIV : UInt8 := 0x40
def BPF_UREM : UInt8 := 0x60
def BPF_LMUL : UInt8 := 0x80
def BPF_SHMUL : UInt8 := 0xa0
def BPF_SDIV : UInt8 := 0xc0
def BPF_SREM : UInt8 := 0xe0
def BPF_JA : UInt8 := 0x00
def BPF_JEQ : UInt8 := 0x10
def BPF_JGT : UInt8 := 0x20
def BPF_JGE : UInt8 := 0x30
def BPF_JSET : UInt8 := 0x40
def BPF_JNE : UInt8 := 0x50
def BPF_JSGT : UInt8 := 0x60
def BPF_JSGE : UInt8 := 0x70
def BPF_CALL : UInt8 := 0x80
def BPF_EXIT : UInt8 := 0x90
def BPF_JLT : UInt8 := 0xa0
def BPF_JLE : UInt8 := 0xb0
def BPF_JSLT : UInt8 := 0xc0
def BPF_JSLE : UInt8 := 0xd0

def LD_DW_IMM : UInt8 := BPF_LD ||| BPF_IMM ||| BPF_DW
def LD_B_REG : UInt8 := BPF_LDX ||| BPF_MEM ||| BPF_B
def LD_H_REG : UInt8 := BPF_LDX ||| BPF_MEM ||| BPF_H
def LD_W_REG : UInt8 := BPF_LDX ||| BPF_MEM ||| BPF_W
def LD_DW_REG : UInt8 := BPF_LDX ||| BPF_MEM ||| BPF_DW
def ST_B_IMM : UInt8 := BPF_ST ||| BPF_MEM ||| BPF_B
def ST_H_IMM : UInt8 := BPF_ST ||| BPF_MEM ||| BPF_H
def ST_W_IMM : UInt8 := BPF_ST ||| BPF_MEM ||| BPF_W
def ST_DW_IMM : UInt8 := BPF_ST ||| BPF_MEM ||| BPF_DW
def ST_B_REG : UInt8 := BPF_STX ||| BPF_MEM ||| BPF_B
def ST_H_REG : UInt8 := BPF_STX ||| BPF_MEM ||| BPF_H
def ST_W_REG : UInt8 := BPF_STX ||| BPF_MEM ||| BPF_W
def ST_DW_REG : UInt8 := BPF_STX ||| BPF_MEM ||| BPF_DW
def LD_1B_REG : UInt8 := BPF_ALU32_LOAD ||| BPF_X ||| BPF_1B
def LD_2B_REG : UInt8 := BPF_ALU32_LOAD ||| BPF_X ||| BPF_2B
def LD_4B_REG : UInt8 := BPF_ALU32_LOAD ||| BPF_X ||| BPF_4B
def LD_8B_REG : UInt8 := BPF_ALU32_LOAD ||| BPF_X ||| BPF_8B
def ST_1B_IMM : UInt8 := BPF_ALU64_STORE ||| BPF_K ||| BPF_1B
def ST_2B_IMM : UInt8 := BPF_ALU64_STORE ||| BPF_K ||| BPF_2B
def ST_4B_IMM : UInt8 := BPF_ALU64_STORE ||| BPF_K ||| BPF_4B
def ST_8B_IMM : UInt8 := BPF_ALU64_STORE ||| BPF_K ||| BPF_8B
def ST_1B_REG : UInt8 := BPF_ALU64_STORE ||| BPF_X ||| BPF_1B
def ST_2B_REG : UInt8 := BPF_ALU64_STORE ||| BPF_X ||| BPF_2B
def ST_4B_REG : UInt8 := BPF_ALU64_STORE ||| BPF_X ||| BPF_4B
def ST_8B_REG : UInt8 := BPF_ALU64_STORE ||| BPF_X ||| BPF_8B
def ADD32_IMM : UInt8 := BPF_ALU32_LOAD ||| BPF_K ||| BPF_ADD
def ADD32_REG : UInt8 := BPF_ALU32_LOAD ||| BPF_X ||| BPF_ADD
def SUB32_IMM : UInt8 := BPF_ALU32_LOAD ||| BPF_K ||| BPF_SUB
def SUB32_REG : UInt8 := BPF_ALU32_LOAD ||| BPF_X ||| BPF_SUB
def MUL32_IMM : UInt8 := BPF_ALU32_LOAD ||| BPF_K ||| BPF_MUL
def MUL32_REG : UInt8 := BPF_ALU32_LOAD ||| BPF_X ||| BPF_MUL
def DIV32_IMM : UInt8 := BPF_ALU32_LOAD ||| BPF_K ||| BPF_DIV
def DIV32_REG : UInt8 := BPF_ALU32_LOAD ||| BPF_X ||| BPF_DIV
def OR32_IMM : UInt8 := BPF_ALU32_LOAD ||| BPF_K ||| BPF_OR
def OR32_REG : UInt8 := BPF_ALU32_LOAD ||| BPF_X ||| BPF_OR
def AND32_IMM : UInt8 := BPF_ALU32_LOAD ||| BPF_K ||| BPF_AND
def AND32_REG : UInt8 := BPF_ALU32_LOAD ||| BPF_X ||| BPF_AND
def LSH32_IMM : UInt8 := BPF_ALU32_LOAD ||| BPF_K ||| BPF_LSH
def LSH32_REG : UInt8 := BPF_ALU32_LOAD ||| BPF_X ||| BPF_LSH
def RSH32_IMM : UInt8 := BPF_ALU32_LOAD ||| BPF_K ||| BPF_RSH
def RSH32_REG : UInt8 := BPF_ALU32_LOAD ||| BPF_X ||| BPF_RSH
def NEG32 : UInt8 := BPF_ALU32_LOAD ||| BPF_NEG
def MOD32_IMM : UInt8 := BPF_ALU32_LOAD ||| BPF_K ||| BPF_MOD
def MOD32_REG : UInt8 := BPF_ALU32_LOAD ||| BPF_X ||| BPF_MOD
def XOR32_IMM : UInt8 := BPF_ALU32_LOAD ||| BPF_K ||| BPF_XOR
def XOR32_REG : UInt8 := BPF_ALU32_LOAD ||| BPF_X ||| BPF_XOR
def MOV32_IMM : UInt8 := BPF_ALU32_LOAD ||| BPF_K ||| BPF_MOV
def MOV32_REG : UInt8 := BPF_ALU32_LOAD ||| BPF_X ||| BPF_MOV
def ARSH32_IMM : UInt8 := BPF_ALU32_LOAD ||| BPF_K ||| BPF_ARSH
def ARSH32_REG : UInt8 := BPF_ALU32_LOAD ||| BPF_X ||| BPF_ARSH
def LMUL32_IMM : UInt8 := BPF_PQR ||| BPF_K ||| BPF_LMUL
def LMUL32_REG : UInt8 := BPF_PQR ||| BPF_X ||| BPF_LMUL
def UDIV32_IMM : UInt8 := BPF_PQR ||| BPF_K ||| BPF_UDIV
def UDIV32_REG : UInt8 := BPF_PQR ||| BPF_X ||| BPF_UDIV
def UREM32_IMM : UInt8 := BPF_PQR ||| BPF_K ||| BPF_UREM
def UREM32_REG : UInt8 := BPF_PQR ||| BPF_X ||| BPF_UREM
def SDIV32_IMM : UInt8 := BPF_PQR ||| BPF_K ||| BPF_SDIV
def SDIV32_REG : UInt8 := BPF_PQR ||| BPF_X ||| BPF_SDIV
def SREM32_IMM : UInt8 := BPF_PQR ||| BPF_K ||| BPF_SREM
def SREM32_REG : UInt8 := BPF_PQR ||| BPF_X ||| BPF_SREM
def LE : UInt8 := BPF_ALU32_LOAD ||| BPF_K ||| BPF_END
def BE : UInt8 := BPF_ALU32_LOAD ||| BPF_X ||| BPF_END
def ADD64_IMM : UInt8 := BPF_ALU64_STORE ||| BPF_K ||| BPF_ADD
def ADD64_REG : UInt8 := BPF_ALU64_STORE ||| BPF_X ||| BPF_ADD
def SUB64_IMM : UInt8 := BPF_ALU64_STORE ||| BPF_K ||| BPF_SUB
def SUB64_REG : UInt8 := BPF_ALU64_STORE ||| BPF_X ||| BPF_SUB
def MUL64_IMM : UInt8 := BPF_ALU64_STORE ||| BPF_K ||| BPF_MUL
def MUL64_REG : UInt8 := BPF_ALU64_STORE ||| BPF_X ||| BPF_MUL
def DIV64_IMM : UInt8 := BPF_ALU64_STORE ||| BPF_K ||| BPF_DIV
def DIV64_REG : UInt8 := BPF_ALU64_STORE ||| BPF_X ||| BPF_DIV
def OR64_IMM : UInt8 := BPF_ALU64_STORE ||| BPF_K ||| BPF_OR
def OR64_REG : UInt8 := BPF_ALU64_STORE ||| BPF_X ||| BPF_OR
def AND64_IMM : UInt8 := BPF_ALU64_STORE ||| BPF_K ||| BPF_AND
def AND64_REG : UInt8 := BPF_ALU64_STORE ||| BPF_X ||| BPF_AND
def LSH64_IMM : UInt8 := BPF_ALU64_STORE ||| BPF_K ||| BPF_LSH
def LSH64_REG : UInt8 := BPF_ALU64_STORE ||| BPF_X ||| BPF_LSH
def RSH64_IMM : UInt8 := BPF_ALU64_STORE ||| BPF_K ||| BPF_RSH
def RSH64_REG : UInt8 := BPF_ALU64_STORE ||| BPF_X ||| BPF_RSH
def NEG64 : UInt8 := BPF_ALU64_STORE ||| BPF_NEG
def MOD64_IMM : UInt8 := BPF_ALU64_STORE ||| BPF_K ||| BPF_MOD
def MOD64_REG : UInt8 := BPF_ALU64_STORE ||| BPF_X ||| BPF_MOD
def XOR64_IMM : UInt8 := BPF_ALU64_STORE ||| BPF_K ||| BPF_XOR
def XOR64_REG : UInt8 := BPF_ALU64_STORE ||| BPF_X ||| BPF_XOR
def MOV64_IMM : UInt8 := BPF_ALU64_STORE ||| BPF_K ||| BPF_MOV
def MOV64_REG : UInt8 := BPF_ALU64_STORE ||| BPF_X ||| BPF_MOV
def ARSH64_IMM : UInt8 := BPF_ALU64_STORE ||| BPF_K ||| BPF_ARSH
def ARSH64_REG : UInt8 := BPF_ALU64_STORE ||| BPF_X ||| BPF_ARSH
def HOR64_IMM : UInt8 := BPF_ALU64_STORE ||| BPF_K ||| BPF_HOR
def LMUL64_IMM : UInt8 := BPF_PQR ||| BPF_B ||| BPF_K ||| BPF_LMUL
def LMUL64_REG : UInt8 := BPF_PQR ||| BPF_B ||| BPF_X ||| BPF_LMUL
def UHMUL64_IMM : UInt8 := BPF_PQR ||| BPF_B ||| BPF_K ||| BPF_UHMUL
def UHMUL64_REG : UInt8 := BPF_PQR ||| BPF_B ||| BPF_X ||| BPF_UHMUL
def UDIV64_IMM : UInt8 := BPF_PQR ||| BPF_B ||| BPF_K ||| BPF_UDIV
def UDIV64_REG : UInt8 := BPF_PQR ||| BPF_B ||| BPF_X ||| BPF_UDIV
def UREM64_IMM : UInt8 := BPF_PQR ||| BPF_B ||| BPF_K ||| BPF_UREM
def UREM64_REG : UInt8 := BPF_PQR ||| BPF_B ||| BPF_X ||| BPF_UREM
def SHMUL64_IMM : UInt8 := BPF_PQR ||| BPF_B ||| BPF_K ||| BPF_SHMUL
def SHMUL64_REG : UInt8 := BPF_PQR ||| BPF_B ||| BPF_X ||| BPF_SHMUL
def SDIV64_IMM : UInt8 := BPF_PQR ||| BPF_B ||| BPF_K ||| BPF_SDIV
def SDIV64_REG : UInt8 := BPF_PQR ||| BPF_B ||| BPF_X ||| BPF_SDIV
def SREM64_IMM : UInt8 := BPF_PQR ||| BPF_B ||| BPF_K ||| BPF_SREM
def SREM64_REG : UInt8 := BPF_PQR ||| BPF_B ||| BPF_X ||| BPF_SREM
def JEQ32_IMM : UInt8 := BPF_JMP32 ||| BPF_K ||| BPF_JEQ
def JEQ32_REG : UInt8 := BPF_JMP32 ||| BPF_X ||| BPF_JEQ
def JGT32_IMM : UInt8 := BPF_JMP32 ||| BPF_K ||| BPF_JGT
def JGT32_REG : UInt8 := BPF_JMP32 ||| BPF_X ||| BPF_JGT
def JGE32_IMM : UInt8 := BPF_JMP32 ||| BPF_K ||| BPF_JGE
def JGE32_REG : UInt8 := BPF_JMP32 ||| BPF_X ||| BPF_JGE
def JLT32_IMM : UInt8 := BPF_JMP32 ||| BPF_K ||| BPF_JLT
def JLT32_REG : UInt8 := BPF_JMP32 ||| BPF_X ||| BPF_JLT
def JLE32_IMM : UInt8 := BPF_JMP32 ||| BPF_K ||| BPF_JLE
def JLE32_REG : UInt8 := BPF_JMP32 ||| BPF_X ||| BPF_JLE
def JSET32_IMM : UInt8 := BPF_JMP32 ||| BPF_K ||| BPF_JSET
def JSET32_REG : UInt8 := BPF_JMP32 ||| BPF_X ||| BPF_JSET
def JNE32_IMM : UInt8 := BPF_JMP32 ||| BPF_K ||| BPF_JNE
def JNE32_REG : UInt8 := BPF_JMP32 ||| BPF_X ||| BPF_JNE
def JSGT32_IMM : UInt8 := BPF_JMP32 ||| BPF_K ||| BPF_JSGT
def JSGT32_REG : UInt8 := BPF_JMP32 ||| BPF_X ||| BPF_JSGT
def JSGE32_IMM : UInt8 := BPF_JMP32 ||| BPF_K ||| BPF_JSGE
def JSGE32_REG : UInt8 := BPF_JMP32 ||| BPF_X ||| BPF_JSGE
def JSLT32_IMM : UInt8 := BPF_JMP32 ||| BPF_K ||| BPF_JSLT
def JSLT32_REG : UInt8 := BPF_JMP32 ||| BPF_X ||| BPF_JSLT
def JSLE32_IMM : UInt8 := BPF_JMP32 ||| BPF_K ||| BPF_JSLE
def JSLE32_REG : UInt8 := BPF_JMP32 ||| BPF_X ||| BPF_JSLE
def JA : UInt8 := BPF_JMP64 ||| BPF_JA
def JEQ64_IMM : UInt8 := BPF_JMP64 ||| BPF_K ||| BPF_JEQ
def JEQ64_REG : UInt8 := BPF_JMP64 ||| BPF_X ||| BPF_JEQ
def JGT64_IMM : UInt8 := BPF_JMP64 ||| BPF_K ||| BPF_JGT
def JGT64_REG : UInt8 := BPF_JMP64 ||| BPF_X ||| BPF_JGT
def JGE64_IMM : UInt8 := BPF_JMP64 ||| BPF_K ||| BPF_JGE
def JGE64_REG : UInt8 := BPF_JMP64 ||| BPF_X ||| BPF_JGE
def JLT64_IMM : UInt8 := BPF_JMP64 ||| BPF_K ||| BPF_JLT
def JLT64_REG : UInt8 := BPF_JMP64 ||| BPF_X ||| BPF_JLT
def JLE64_IMM : UInt8 := BPF_JMP64 ||| BPF_K ||| BPF_JLE
def JLE64_REG : UInt8 := BPF_JMP64 ||| BPF_X ||| BPF_JLE
def JSET64_IMM : UInt8 := BPF_JMP64 ||| BPF_K ||| BPF_JSET
def JSET64_REG : UInt8 := BPF_JMP64 ||| BPF_X ||| BPF_JSET
def JNE64_IMM : UInt8 := BPF_JMP64 ||| BPF_K ||| BPF_JNE
def JNE64_REG : UInt8 := BPF_JMP64 ||| BPF_X ||| BPF_JNE
def JSGT64_IMM : UInt8 := BPF_JMP64 ||| BPF_K ||| BPF_JSGT
def JSGT64_REG : UInt8 := BPF_JMP64 ||| BPF_X ||| BPF_JSGT
def JSGE64_IMM : UInt8 := BPF_JMP64 ||| BPF_K ||| BPF_JSGE
def JSGE64_REG : UInt8 := BPF_JMP64 ||| BPF_X ||| BPF_JSGE
def JSLT64_IMM : UInt8 := BPF_JMP64 ||| BPF_K ||| BPF_JSLT
def JSLT64_REG : UInt8 := BPF_JMP64 ||| BPF_X ||| BPF_JSLT
def JSLE64_IMM : UInt8 := BPF_JMP64 ||| BPF_K ||| BPF_JSLE
def JSLE64_REG : UInt8 := BPF_JMP64 ||| BPF_X ||| BPF_JSLE
def CALL_IMM : UInt8 := BPF_JMP64 ||| BPF_CALL
def CALL_REG : UInt8 := BPF_JMP64 ||| BPF_X ||| BPF_CALL
def EXIT : UInt8 := BPF_JMP64 ||| BPF_EXIT

/-! ## Reading a program -/

structure Insn where
  ptr : Nat
  opc : UInt8
  dst : UInt8
  src : UInt8
  off : Int16
  imm : Int64
  deriving DecidableEq, Repr

variable (prog : List UInt8)

/-- `pc.saturating_add(1).saturating_mul(INSN_SIZE) <= prog.len()`. -/
def isPcInProgram (pc : UInt64) : Bool :=
  decide ((U64.satMul (U64.satAdd pc 1) 8).toNat ≤ prog.length)

/-- `LittleEndian::read_i16(&prog[i..])`. -/
def readI16 (i : Nat) : Option Int16 := do
  let b0 ← prog[i]?
  let b1 ← prog[i + 1]?
  return (b0.toUInt16 ||| b1.toUInt16 <<< 8).toInt16

/-- `LittleEndian::read_i32(&prog[i..])`. -/
def readI32 (i : Nat) : Option Int32 := do
  let b0 ← prog[i]?
  let b1 ← prog[i + 1]?
  let b2 ← prog[i + 2]?
  let b3 ← prog[i + 3]?
  return (b0.toUInt32 ||| b1.toUInt32 <<< 8 ||| b2.toUInt32 <<< 16 ||| b3.toUInt32 <<< 24).toInt32

/-- `get_insn_unchecked`, and `get_insn`, which asserts its bounds in debug builds only. -/
def getInsn (pc : Nat) : Option Insn := do
  let opc ← prog[INSN_SIZE * pc]?
  let registers ← prog[INSN_SIZE * pc + 1]?
  let off ← readI16 prog (INSN_SIZE * pc + 2)
  let imm ← readI32 prog (INSN_SIZE * pc + 4)
  return {
    ptr := pc
    opc := opc
    dst := registers &&& 0x0f
    src := (registers &&& 0xf0) >>> 4
    off := off
    imm := imm.toInt64 }

/-- The immediate of an `LDDW`, with the half from its second slot. -/
def augmentLddw (insn : Insn) : Option Int64 := do
  let moreSignificantHalf ← readI32 prog ((insn.ptr + 1) * INSN_SIZE + 4)
  return (insn.imm.toUInt64 &&& (0xffffffff : UInt64) ||| moreSignificantHalf.toInt64.toUInt64 <<< 32).toInt64

end Ebpf

/-- How a step of code that may panic stops short. -/
inductive Trap (ε : Type) where
  | panic
  | error (err : ε)
  deriving DecidableEq, Repr

end Svm.Sbpf
