import Svm.Impl.Syscalls.ProcessedSibling

/-!
# Runs of the trace

A run of `prepare_next_cpi_instruction`, `push` and `pop` after the top level
instructions have been prepared, with work on the accounts in between. The
state of a run carries, beside the invoke context, what was configured for each
instruction and a log of the pushes, with the caller that was on top of the
stack. `Disciplined` is how the runtime uses the three operations: a call is
pushed right after it was prepared, and an instruction of the message when
nothing runs. `WellFormed` says what the trace and the stack then are.
-/

namespace Svm

open Run

/-- What an instruction was configured with. -/
structure Configuration where
  program : UInt16
  accounts : List InstructionAccount
  table : List UInt16
  data : List UInt8
  deriving DecidableEq, Repr

/-- One entry of the log: an instruction was pushed at a height of the stack, on top
of its caller. -/
structure Invocation where
  index : Nat
  level : Nat
  caller : Option Nat
  deriving DecidableEq, Repr

structure TraceState where
  invokeContext : InvokeContext
  /-- The instructions configured, the prepared one included. -/
  configured : List Configuration
  /-- The instructions pushed, in this order. -/
  pushed : List Invocation
  /-- A call is prepared and not pushed yet. -/
  prepared : Bool

namespace TraceState

abbrev ctx (s : TraceState) : TransactionContext := s.invokeContext.transactionContext

end TraceState

/-- The invocation that a push adds. -/
def TransactionContext.nextInvocation (ctx : TransactionContext) : Invocation where
  index := if ctx.instructionStack = [] then ctx.nextTopLevelInstructionIndex else ctx.getInstructionTraceLength
  level := ctx.getInstructionStackHeight
  caller := ctx.instructionStack.getLast?

/-- The operations of a run. -/
inductive TraceOp where
  | prepare (instruction : Instruction) (signers : List Pubkey)
  | push
  | pop
  deriving DecidableEq, Repr

namespace TraceOp

def run (ext : Externals) : TraceOp → EStateM Fault InvokeContext Unit
  | prepare instruction signers => InvokeContext.prepareNextCpiInstruction instruction signers
  | push => mapError .error (InvokeContext.push ext)
  | pop => mapError .error InvokeContext.pop

/-- How the runtime uses an operation, for a message with `n` instructions. -/
def Disciplined (n : Nat) (s : TraceState) : TraceOp → Prop
  | prepare _ _ => s.prepared = false
  | push => s.prepared = true ∨ s.ctx.instructionStack = [] ∧ s.ctx.nextTopLevelInstructionIndex < n
  | pop => s.prepared = false

end TraceOp

/-- Work between the operations: the keys of the accounts, the instructions sysvar
and what describes the trace stay. -/
structure Worked (ext : Externals) (s s' : InvokeContext) : Prop where
  keys : s'.transactionContext.accounts.accountKeys = s.transactionContext.accounts.accountKeys
  sysvar : ∀ index, s.transactionContext.findIndexOfAccount ext.instructionsId = some index →
    (s'.transactionContext.accounts.view index).data = (s.transactionContext.accounts.view index).data
  rest : ∃ accounts returnDataBytes returnDataPubkey returnDataScratchpad cpiScratchpad,
    s'.transactionContext = { s.transactionContext with
      accounts := accounts
      returnDataBytes := returnDataBytes
      transactionFrame := { s.transactionContext.transactionFrame with
        returnDataPubkey := returnDataPubkey
        returnDataScratchpad := returnDataScratchpad
        cpiScratchpad := cpiScratchpad } }

/-- The steps of a run, none of which fails. `allowed` says which operations are used. -/
inductive TraceStep (ext : Externals) (allowed : TraceState → TraceOp → Prop) : TraceState → TraceState → Prop
  | prepare {s : TraceState} {instruction : Instruction} {signers : List Pubkey} {invokeContext : InvokeContext}
      {program : UInt16} {accounts : List InstructionAccount} {table : List UInt16}
      (use : allowed s (.prepare instruction signers))
      (run : (TraceOp.run ext (.prepare instruction signers)).run s.invokeContext = .ok () invokeContext)
      (resolved : InvokeContext.resolveCpi s.ctx instruction signers = .ok (program, accounts, table)) :
      TraceStep ext allowed s
        ⟨invokeContext, s.configured ++ [⟨program, accounts, table, instruction.data⟩], s.pushed, true⟩
  | push {s : TraceState} {invokeContext : InvokeContext} (use : allowed s .push)
      (run : (TraceOp.run ext .push).run s.invokeContext = .ok () invokeContext) :
      TraceStep ext allowed s ⟨invokeContext, s.configured, s.pushed ++ [s.ctx.nextInvocation], false⟩
  | pop {s : TraceState} {invokeContext : InvokeContext} (use : allowed s .pop)
      (run : (TraceOp.run ext .pop).run s.invokeContext = .ok () invokeContext) :
      TraceStep ext allowed s ⟨invokeContext, s.configured, s.pushed, s.prepared⟩
  | work {s : TraceState} {invokeContext : InvokeContext} (worked : Worked ext s.invokeContext invokeContext) :
      TraceStep ext allowed s { s with invokeContext := invokeContext }

/-- What an instruction of a message is configured with. -/
def SVMMessage.configuration (message : SVMMessage) (instruction : SVMInstruction) : Configuration :=
  let (table, accounts) := InvokeContext.resolveTopLevel message instruction
  ⟨.ofNat instruction.programIdIndex.toNat, accounts, table, instruction.data⟩

def SVMMessage.configurations (message : SVMMessage) : List Configuration :=
  message.instructions.map message.configuration

/-- The state is reached from a new transaction over `accounts` whose top level
instructions have been prepared from the message. -/
def TraceReachable (ext : Externals) (allowed : TraceState → TraceOp → Prop) (message : SVMMessage)
    (accounts : List (Pubkey × AccountSharedData)) (rent : Rent) (stackCapacity traceCapacity : Nat)
    (s : TraceState) : Prop :=
  ∃ start : InvokeContext,
    (InvokeContext.prepareTopLevelInstructions message).run
      ⟨.new accounts rent stackCapacity traceCapacity message.instructions.length, []⟩ = .ok () start ∧
    Relation.ReflTransGen (TraceStep ext allowed) ⟨start, message.configurations, [], false⟩ s

/-- The trace and the stack of a transaction with `n` top level instructions, where
`configured` was configured. -/
structure WellFormed (n : Nat) (configured : List Configuration) (ctx : TransactionContext) : Prop where
  /-- The stack is a chain: every entry was called by the one below it. -/
  chain : ∀ level caller callee, ctx.instructionStack[level]? = some caller →
    ctx.instructionStack[level + 1]? = some callee →
      ∃ frame : InstructionFrame, ctx.instructionTrace[callee]? = some frame ∧
        frame.indexOfCallerInstruction.toNat = caller
  /-- The bottom of the stack is a top level instruction. -/
  bottom : ∀ index, ctx.instructionStack[0]? = some index → index < n
  nestingLevel : ∀ level index, ctx.instructionStack[level]? = some index →
    ∃ frame : InstructionFrame, ctx.instructionTrace[index]? = some frame ∧ frame.nestingLevel.toNat = level
  /-- A CPI of the trace comes after its caller. -/
  caller : ∀ index (frame : InstructionFrame), n ≤ index → index < ctx.getInstructionTraceLength →
    ctx.instructionTrace[index]? = some frame → frame.indexOfCallerInstruction.toNat < index
  /-- Every instruction of the trace is as it was configured. -/
  configured : ∀ index, index < ctx.getInstructionTraceLength →
    ∃ c ic, configured[index]? = some c ∧ ctx.getInstructionContextAtIndexInTrace index = .ok ic ∧
      ic.programAccountIndexInTx = c.program ∧ ic.instructionAccounts = c.accounts ∧ ic.dedupMap = c.table ∧
      ic.instructionData = c.data
  topLevel : ctx.getInstructionTraceLength - ctx.transactionFrame.numberOfCpisInTrace.toNat = n
  called : ctx.numberOfCalledInstructionsInTrace ≤ ctx.instructionTraceCapacity
  depth : ctx.instructionStack.length ≤ ctx.instructionStackCapacity
  current : ∀ index, ctx.instructionStack.getLast? = some index →
    ctx.transactionFrame.currentExecutingInstruction.toNat = index

/-- While the top level instruction `k` or an instruction under it runs, the
instructions sysvar account, if there is one, stores `k`. -/
def IndexStored (ext : Externals) (loadCurrentIndex : List UInt8 → UInt16) (ctx : TransactionContext) : Prop :=
  ∀ k index, ctx.instructionStack[0]? = some k → ctx.findIndexOfAccount ext.instructionsId = some index →
    (loadCurrentIndex (ctx.accounts.view index).data).toNat = k

/-- The sysvar's accessors: what `store_current_index_checked` wrote is what is
loaded. -/
def StoresIndex (ext : Externals) (loadCurrentIndex : List UInt8 → UInt16) : Prop :=
  ∀ data index writes, ext.storeCurrentIndexChecked data index = (writes, .ok ()) →
    loadCurrentIndex (writes.foldl (fun bytes (i, b) => bytes.set i b) data) = index

namespace TraceState

/-- The instructions pushed before the current one on the same caller, the most
recent first. -/
def siblings (s : TraceState) (current : Invocation) : List Invocation :=
  ((s.pushed.takeWhile fun p => p.index ≠ current.index).filter fun p => p.caller = current.caller).reverse

end TraceState

end Svm
