import Svm.Impl.Sbpf.Vm
import Svm.Spec.Sbpf.Soundness

/-!
# What a run is charged

Each instruction that passes the budget check is charged one unit, and each syscall the
units that it consumes. `Charged` counts both along a run, `Ended` for a run that is over.
`Executable.Metered` is what the meter of the context, the syscalls and the memory are
assumed to do: `consume` stops at zero, and nothing else changes what remains.
-/

namespace Svm.Sbpf

open Ebpf Interpreter

variable {C : Type}

/-- How many units a syscall consumes. -/
abbrev Units (C : Type) := Syscall C → C → (a b c d e : UInt64) → Nat

/-- The budget is changed by `consume` only, which stops at zero. -/
structure Executable.Metered (exe : Executable C) (memory : Memory C) (units : Units C) : Prop where
  enabled : exe.config.enableInstructionMeter = true
  consume : ∀ c n, (exe.context.getRemaining (exe.context.consume c n)).toNat =
    (exe.context.getRemaining c).toNat - n.toNat
  syscall : ∀ {key : UInt32} {function : Syscall C}, exe.loaderRegistry key = some function → ∀ c r1 r2 r3 r4 r5,
    (exe.context.getRemaining (function c r1 r2 r3 r4 r5).2).toNat =
      (exe.context.getRemaining c).toNat - units function c r1 r2 r3 r4 r5
  load : ∀ w vmAddr c, exe.context.getRemaining (Run.final (memory.load w vmAddr) c) = exe.context.getRemaining c
  store : ∀ w value vmAddr c,
    exe.context.getRemaining (Run.final (memory.store w value vmAddr) c) = exe.context.getRemaining c

/-- The syscall that a `CALL_IMM` makes. -/
def Executable.syscallOf (exe : Executable C) (insn : Insn) : Option (Syscall C) :=
  if !exe.sbpfVersion.staticSyscalls || insn.src == 0 then exe.loaderRegistry insn.imm.toUInt64.toUInt32 else none

variable (exe : Executable C) (memory : Memory C) (units : Units C)

/-- The units consumed by the syscall of a `CALL_IMM`. -/
def callUnits (insn : Insn) (reg : Registers) (context : C) : Nat :=
  match exe.syscallOf insn with
  | some function => units function context (reg.get 1) (reg.get 2) (reg.get 3) (reg.get 4) (reg.get 5)
  | none => 0

/-- The units consumed by the syscall of the instruction at the slot `p`. -/
def slotUnits (p : Nat) (reg : Registers) (context : C) : Nat :=
  match exe.armAt p with
  | some (insn, .callImm) => callUnits exe units insn reg context
  | _ => 0

/-- The units consumed by the syscall of the next step. The syscall gets a context in
which the instructions that are due have been paid. -/
def stepUnits (s : Interpreter C) : Nat :=
  if exhausted exe s then 0
  else slotUnits exe units s.pc.toNat s.reg (exe.context.consume s.vm.context (s.vm.dueInsnCount + 1))

/-- The next step passes the budget check. -/
def stepPassed (s : Interpreter C) : Nat := if exhausted exe s then 0 else 1

/-- The run from `start` gets to `s` after `n` steps, with `u` units consumed by syscalls. -/
inductive Charged (start : Interpreter C) : (n u : Nat) → Interpreter C → Prop where
  | start : Charged start 0 0 start
  | step {n u : Nat} {s s' : Interpreter C} (h : Charged start n u s) (hs : Continues exe memory s s') :
    Charged start (n + 1) (u + stepUnits exe units s) s'

/-- The run from `start` is over in `s'`, after `n` steps that passed the budget check. -/
def Ended (start : Interpreter C) (n u : Nat) (s' : Interpreter C) : Prop :=
  ∃ m v s, Charged exe memory units start m v s ∧ (step exe memory).run s = .error .done s' ∧
    n = m + stepPassed exe s ∧ u = v + stepUnits exe units s

/-- The first state of `execute_program`. -/
def EbpfVm.first (entrypoint : UInt64) (callFrames : List CallFrame) (vm : EbpfVm C) : Interpreter C :=
  ⟨vm.prepare exe entrypoint, callFrames, (vm.prepare exe entrypoint).registers⟩

/-- The state in which the next instruction is performed: it has been counted. -/
def Interpreter.counted (s : Interpreter C) : Interpreter C :=
  s.setVm { s.vm with dueInsnCount := s.vm.dueInsnCount + 1 }

end Svm.Sbpf
