import Svm.Impl.Sbpf.Interpreter
import Svm.Spec.Sbpf.Control
import Mathlib.Logic.Relation

/-!
# Sound runs

The control flow of an executable and of the interpreter's states, the states
that a run gets to, and what is asked of each of them (`Sound`): the next step
does not panic, keeps control in the code, and fails only for the reasons that
no check before the run can exclude.
-/

namespace Svm.Sbpf

open Ebpf Interpreter

variable {C : Type}

/-- Whether an arm is a jump. -/
def Interpreter.Arm.jumps : Arm → Bool
  | .ja | .jmp32 .. | .jmp64 .. => true
  | _ => false

/-- The arm of the interpreter for the instruction at the slot `p`. -/
def Executable.armAt (exe : Executable C) (p : Nat) : Option (Insn × Arm) := do
  let insn ← getInsn exe.text p
  let arm ← selectArm exe.sbpfVersion insn.opc
  return (insn, arm)

/-- The text of an executable as control flow sees it. -/
def Executable.code (exe : Executable C) : Code where
  length := exe.insnCount
  wide := {p | ∃ insn, exe.armAt p = some (insn, .ldDwImm)}
  jumps p := {t | ∃ insn arm, exe.armAt p = some (insn, arm) ∧ arm.jumps = true ∧
    (t : Int) = p + 1 + insn.off.toInt}

/-- Where the calls that are open return to. -/
def Interpreter.returns (s : Interpreter C) : List Nat :=
  ((s.callFrames.take s.vm.callDepth.toNat).map (·.targetPc.toNat)).reverse

def Interpreter.control (s : Interpreter C) : Control := ⟨s.pc.toNat, s.returns⟩

/-- No syscall has the number of the call. -/
def Executable.NoSyscall (exe : Executable C) (insn : Insn) : Prop :=
  exe.sbpfVersion.staticSyscalls = false ∨ insn.src = 0 → exe.loaderRegistry insn.imm.toUInt64.toUInt32 = none

/-- No function is the target of the call. -/
def Executable.NoFunction (exe : Executable C) (insn : Insn) (nextPc : UInt64) : Prop :=
  if exe.sbpfVersion.staticSyscalls then
    insn.src = 1 → isPcInProgram exe.text (callTarget nextPc insn) = false
  else exe.functionRegistry insn.imm.toUInt64.toUInt32 = none

/-- The instruction is a `CALL_IMM` of no syscall and no function. -/
def Executable.Unresolved (exe : Executable C) (s : Interpreter C) : Prop :=
  ∃ insn, exe.armAt s.pc.toNat = some (insn, .callImm) ∧ exe.NoSyscall insn ∧ exe.NoFunction insn (s.pc + 1)

variable (exe : Executable C) (memory : Memory C)

/-- A step that goes on. -/
def Continues (s s' : Interpreter C) : Prop := (step exe memory).run s = .ok () s'

/-- A step that ends the run, with a result or an error. -/
def EndsWith (s : Interpreter C) (result : Except EbpfError UInt64) : Prop :=
  ∃ s', (step exe memory).run s = .error .done s' ∧ s'.vm.programResult = result

/-- The states of the run from `start`. -/
def Reachable (start s : Interpreter C) : Prop := Relation.ReflTransGen (Continues exe memory) start s

/-- A step of the run that goes on to `s`, by `t`. -/
def Arrives (start s : Interpreter C) (t : Transfer) : Prop :=
  ∃ r, Reachable exe memory start r ∧ Continues exe memory r s ∧ Control.Step exe.code t r.control s.control

/-- What is asked of a state of the run from `start`. -/
structure Sound (start s : Interpreter C) : Prop where
  /-- The next step goes on, or ends the run with a result or an error. -/
  no_panic : (∃ s', Continues exe memory s s') ∨ ∃ result, EndsWith exe memory s result
  /-- It follows the control flow of the code, and goes on in the code or right behind it. -/
  pc_le {s' : Interpreter C} : Continues exe memory s s' →
    s'.pc.toNat ≤ exe.insnCount ∧ ∃ t, Control.Step exe.code t s.control s'.control
  /-- Behind the code the run ends, and only for this reason or an empty budget. -/
  overrun : s.pc.toNat = exe.insnCount →
    EndsWith exe memory s (.error (if exhausted exe s then .ExceededMaxInstructions else .ExecutionOverrun))
  /-- Control gets there by falling off the last instruction or returning behind it. -/
  arrives_end : s.pc.toNat = exe.insnCount → Arrives exe memory start s .next ∨ Arrives exe memory start s .ret
  not_invalid : ¬ EndsWith exe memory s (.error .InvalidInstruction)
  /-- An instruction is unsupported because it is a call of nothing, or because a call
  went to the second slot of an `LDDW`. -/
  unsupported : EndsWith exe memory s (.error .UnsupportedInstruction) →
    exe.Unresolved s ∨ (exe.code.Second s.pc.toNat ∧ Arrives exe memory start s .call)
  /-- Jumps and falling through do not go to the second slot of an `LDDW`. -/
  first_slot {t : Transfer} : Arrives exe memory start s t → t = .next ∨ t = .jump →
    ¬ exe.code.Second s.pc.toNat

end Svm.Sbpf
