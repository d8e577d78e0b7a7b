import Svm.Spec.Trace

/-!
# The programs on the stack

`TransactionContext.programs` are the programs that the instructions on the stack
execute. A `StackStep` is any operation of the invoke context on its stack, in whatever
order and whether it fails or not, or work on the accounts between the operations.
-/

namespace Svm

open Run

namespace TransactionContext

/-- The key of the program that the instruction at an index of the trace executes. -/
def programAt (ctx : TransactionContext) (indexInTrace : Nat) : Option Pubkey :=
  match ctx.getInstructionContextAtIndexInTrace indexInTrace with
  | .ok ic => (ctx.getProgramKey ic).toOption
  | .error _ => none

/-- The programs on the stack, the current one last. -/
def programs (ctx : TransactionContext) : List (Option Pubkey) := ctx.instructionStack.map ctx.programAt

end TransactionContext

/-- The instruction at the position of the stack executes the program. -/
def InvokeContext.Runs (s : InvokeContext) (position : Nat) (key : Pubkey) : Prop :=
  s.transactionContext.programs[position]? = some (some key)

inductive StackStep (ext : Externals) : InvokeContext → InvokeContext → Prop
  /-- What an operation leaves, also when it fails. -/
  | operate (op : TraceOp) (s : InvokeContext) : StackStep ext s (final (op.run ext) s)
  | work (s : InvokeContext) (accounts : TransactionAccounts) (returnDataBytes : List UInt8)
      (transactionFrame : TransactionFrame) (syscallContext : List (Option SyscallContext))
      (keys : accounts.accountKeys = s.transactionContext.accounts.accountKeys) :
      StackStep ext s
        { transactionContext := { s.transactionContext with
            accounts := accounts
            returnDataBytes := returnDataBytes
            transactionFrame := transactionFrame }
          syscallContext := syscallContext }

/-- The state is reached from a new transaction over `accounts` whose top level
instructions have been prepared from the message. -/
def StackReachable (ext : Externals) (message : SVMMessage) (accounts : List (Pubkey × AccountSharedData))
    (rent : Rent) (stackCapacity traceCapacity : Nat) (s : InvokeContext) : Prop :=
  ∃ start : InvokeContext,
    (InvokeContext.prepareTopLevelInstructions message).run
      ⟨.new accounts rent stackCapacity traceCapacity message.instructions.length, []⟩ = .ok () start ∧
    Relation.ReflTransGen (StackStep ext) start s

/-- A run during which the instruction at the position stays on the stack. -/
def RunsAbove (ext : Externals) (position : Nat) : InvokeContext → InvokeContext → Prop :=
  Relation.ReflTransGen fun s s' =>
    StackStep ext s s' ∧ position < s'.transactionContext.getInstructionStackHeight

end Svm
