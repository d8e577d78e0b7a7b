import Svm.Impl.Sbpf.Interpreter

/-!
# Running a program

`EbpfVm::execute_program` of `vm.rs` in the interpreted mode. The loop over
`Interpreter::step` is given fuel; the entry point of the executable is an argument.
-/

namespace Svm.Sbpf

open Machine

variable {C : Type}

/-- How a run of the interpreter ends. -/
inductive RunOutcome (α : Type) where
  | finished (value : α)
  | panic
  | outOfFuel

/-- `while interpreter.step() {}`. -/
def runInterpreter (exe : Executable C) (memory : Memory C) : Nat → Interpreter C → RunOutcome (Interpreter C)
  | 0, _ => .outOfFuel
  | fuel + 1, s =>
    match (Interpreter.step exe memory).run s with
    | .ok _ s => runInterpreter exe memory fuel s
    | .error .done s => .finished s
    | .error .panic _ => .panic

/-- The machine at the start of `execute_program`. -/
def EbpfVm.prepare (exe : Executable C) (entrypoint : UInt64) (vm : EbpfVm C) : EbpfVm C :=
  { vm with
    registers := vm.registers.set 11 entrypoint pc_lt
    previousInstructionMeter := exe.context.getRemaining vm.context
    dueInsnCount := 0
    programResult := .ok 0 }

/-- The end of `execute_program`: the instruction count and the result. -/
def EbpfVm.conclude (exe : Executable C) (initialInsnCount : UInt64) (vm : EbpfVm C) :
    (UInt64 × Except EbpfError UInt64) × EbpfVm C :=
  let vm' := { vm with programResult := .ok 0 }
  if exe.config.enableInstructionMeter then
    let context := exe.context.consume vm.context vm.dueInsnCount
    ((U64.satSub initialInsnCount (exe.context.getRemaining context), vm.programResult), { vm' with context := context })
  else ((0, vm.programResult), vm')

def executeProgram (exe : Executable C) (memory : Memory C) (entrypoint : UInt64) (callFrames : List CallFrame)
    (fuel : Nat) (vm : EbpfVm C) : RunOutcome ((UInt64 × Except EbpfError UInt64) × EbpfVm C) :=
  let prepared := vm.prepare exe entrypoint
  match Interpreter.new prepared exe prepared.registers callFrames with
  | none => .panic
  | some start =>
    match runInterpreter exe memory fuel start with
    | .finished s => .finished (s.vm.conclude exe (exe.context.getRemaining vm.context))
    | .panic => .panic
    | .outOfFuel => .outOfFuel

end Svm.Sbpf
