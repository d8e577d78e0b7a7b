import Svm.Impl.InvokeContext

/-!
# Chains of calls

The instructions of a message and the cross-program invocations below them, as
a run of the invoke context: an instruction of the message is entered when the
stack is empty, the current instruction calls another one, instructions leave
the stack, and in between programs work on the accounts. `CallStep` lists these
steps. A call that is refused leaves everything as it was; a call that was
prepared and then fails to enter the stack ends the transaction, so no step
follows it. `Passes` is what a call may pass on to the instruction it calls.
-/

namespace Svm

open Run

/-- How an instruction came onto the stack. -/
inductive Call where
  | topLevel
  /-- `prepare_next_cpi_instruction` with a list of signers. -/
  | cpi (instruction : Instruction) (signers : List Pubkey)
  /-- `native_invoke_signed`, which derives the signers from seeds. -/
  | native (instruction : Instruction) (signerSeeds : List (List (List UInt8)))
  deriving DecidableEq, Repr

/-- What other crates tell a chain of calls. -/
structure CallExternals extends Externals where
  createProgramAddress : (seeds : List (List UInt8)) → (programId : Pubkey) → Except UInt64 Pubkey

namespace Call

/-- The instruction that is called, if it is not one of the message. -/
def instruction? : Call → Option Instruction
  | .topLevel => none
  | .cpi instruction _ => some instruction
  | .native instruction _ => some instruction

/-- The call signs for the key: it is listed, or derived from seeds and the program
id of the caller. -/
def Vouches (ext : CallExternals) (keys : List Pubkey) (caller : InstructionContext) : Call → Pubkey → Prop
  | .topLevel, _ => False
  | .cpi _ signers, key => key ∈ signers
  | .native _ signerSeeds, key =>
    ∃ programId, keys[caller.programAccountIndexInTx.toNat]? = some programId ∧
      ∃ seeds ∈ signerSeeds, ext.createProgramAddress seeds programId = .ok key

end Call

/-- What a call passes on from the caller to the callee, in a transaction over the
accounts `keys`. -/
structure Passes (ext : CallExternals) (keys : List Pubkey) (call : Call) (instruction : Instruction)
    (caller callee : InstructionContext) : Prop where
  /-- Every account of the callee is one of the caller. -/
  account : ∀ x ∈ callee.instructionAccounts,
    ∃ y ∈ caller.instructionAccounts, y.indexInTransaction = x.indexInTransaction
  writable : ∀ x ∈ callee.instructionAccounts, ∀ y ∈ caller.instructionAccounts,
    y.indexInTransaction = x.indexInTransaction → x.isWritable = true → y.isWritable = true
  signer : ∀ x ∈ callee.instructionAccounts, ∀ y ∈ caller.instructionAccounts,
    y.indexInTransaction = x.indexInTransaction → x.isSigner = true →
      y.isSigner = true ∨
      ∃ key, keys[x.indexInTransaction.toNat]? = some key ∧ call.Vouches ext keys caller key
  /-- At every position, an account has the flags of all metas that name its key. -/
  flags : ∀ x ∈ callee.instructionAccounts, ∃ key, keys[x.indexInTransaction.toNat]? = some key ∧
    x.isSigner = (instruction.accounts.any fun m => m.pubkey == key && m.isSigner) ∧
    x.isWritable = (instruction.accounts.any fun m => m.pubkey == key && m.isWritable)
  /-- The program of the callee is an account of the caller. -/
  program : keys[callee.programAccountIndexInTx.toNat]? = some instruction.programId ∧
    ∃ y ∈ caller.instructionAccounts, y.indexInTransaction = callee.programAccountIndexInTx

/-- The invoke context, with the calls of the instructions on its stack. -/
structure CallState where
  invokeContext : InvokeContext
  calls : List Call

namespace CallState

abbrev ctx (s : CallState) : TransactionContext := s.invokeContext.transactionContext

end CallState

/-- The steps of the instructions of a message with `n` instructions. -/
inductive CallStep (ext : CallExternals) (n : Nat) : CallState → CallState → Prop
  | enter {s : CallState} {invokeContext : InvokeContext}
      (idle : s.ctx.instructionStack = []) (next : s.ctx.nextTopLevelInstructionIndex < n)
      (pushed : (InvokeContext.push ext.toExternals).run s.invokeContext = .ok () invokeContext) :
      CallStep ext n s ⟨invokeContext, [.topLevel]⟩
  | cpi {s : CallState} {instruction : Instruction} {signers : List Pubkey}
      {prepared invokeContext : InvokeContext}
      (prepares : (InvokeContext.prepareNextCpiInstruction instruction signers).run s.invokeContext =
        .ok () prepared)
      (pushed : (InvokeContext.push ext.toExternals).run prepared = .ok () invokeContext) :
      CallStep ext n s ⟨invokeContext, s.calls ++ [.cpi instruction signers]⟩
  | native {s : CallState} {instruction : Instruction} {signerSeeds : List (List (List UInt8))}
      {signers : List Pubkey} {prepared invokeContext : InvokeContext}
      (derives : InvokeContext.nativeSigners ext.createProgramAddress s.ctx signerSeeds = .ok signers)
      (prepares : (InvokeContext.prepareNextCpiInstruction instruction signers).run s.invokeContext =
        .ok () prepared)
      (pushed : (InvokeContext.push ext.toExternals).run prepared = .ok () invokeContext) :
      CallStep ext n s ⟨invokeContext, s.calls ++ [.native instruction signerSeeds]⟩
  | refused {s : CallState} {instruction : Instruction} {signers : List Pubkey} {fault : Fault}
      {invokeContext : InvokeContext}
      (refuses : (InvokeContext.prepareNextCpiInstruction instruction signers).run s.invokeContext =
        .error fault invokeContext) :
      CallStep ext n s ⟨invokeContext, s.calls⟩
  | leave {s : CallState} : CallStep ext n s ⟨final InvokeContext.pop s.invokeContext, s.calls.dropLast⟩
  | work {s : CallState} (accounts : TransactionAccounts) (returnDataBytes : List UInt8)
      (transactionFrame : TransactionFrame) (syscallContext : List (Option SyscallContext))
      (keys : accounts.accountKeys = s.ctx.accounts.accountKeys) :
      CallStep ext n s
        ⟨{ transactionContext := { s.ctx with
             accounts := accounts
             returnDataBytes := returnDataBytes
             transactionFrame := transactionFrame }
           syscallContext := syscallContext }, s.calls⟩

/-- The state is reached from a new transaction over `accounts` whose top level
instructions have been prepared from the message. -/
def CallReachable (ext : CallExternals) (message : SVMMessage) (accounts : List (Pubkey × AccountSharedData))
    (rent : Rent) (stackCapacity traceCapacity : Nat) (s : CallState) : Prop :=
  ∃ start : InvokeContext,
    (InvokeContext.prepareTopLevelInstructions message).run
      ⟨.new accounts rent stackCapacity traceCapacity message.instructions.length, []⟩ = .ok () start ∧
    Relation.ReflTransGen (CallStep ext message.instructions.length) ⟨start, []⟩ s

end Svm
