import Svm.Impl.Processor.AccountLoader
import Svm.Impl.Serialization

/-!
# Messages and the compute meter

`process_message` with the parts of the invoke context that meter it: `consume` and
`consume_checked`, `process_executable_chain` with its readings of the meter around
the program it invokes, and the units that `process_instruction` reports through its
out parameter, also when it fails.
-/

namespace Svm

open Machine Run

/-! ## The meter -/

/-- One write to the compute meter. -/
structure Charge where
  before : UInt64
  after : UInt64
  deriving DecidableEq, Repr

/-- The invoke context with its compute meter. `charges` is a history variable: the
writes to the meter in their order, which nothing reads. -/
structure MeteredContext extends InvokeContext where
  computeMeter : UInt64
  charges : List Charge

abbrev MeteredM (ε : Type) := EStateM ε MeteredContext

/-- Code on the invoke context that does not use the meter. -/
def unmetered {α : Type} (x : InvokeM α) : MeteredM InstructionError α :=
  zoom MeteredContext.toInvokeContext (fun s c => { s with toInvokeContext := c }) x

/-- `u64::saturating_sub`. -/
def satSub64 (a b : UInt64) : UInt64 := .ofNat (a.toNat - b.toNat)

namespace MeteredContext

def getRemaining (s : MeteredContext) : UInt64 := s.computeMeter

def consume (amount : UInt64) (s : MeteredContext) : MeteredContext :=
  let computeMeter := satSub64 s.computeMeter amount
  { s with computeMeter, charges := s.charges ++ [⟨s.computeMeter, computeMeter⟩] }

def consumeChecked (amount : UInt64) : MeteredM InstructionError Unit := do
  let exceeded := (← get).computeMeter < amount
  modify (consume amount)
  throwIf exceeded .ComputationalBudgetExceeded

end MeteredContext

/-! ## Programs -/

/-- How the invocation of a program fails: with an `InstructionError` that a syscall or
a builtin returned, or with any other error. -/
inductive ProgramError where
  | instruction (err : InstructionError)
  | other
  deriving DecidableEq, Repr

/-- `process_executable_chain`'s reading of the `ProgramResult`. -/
def ProgramError.toInstructionError : ProgramError → InstructionError
  | .instruction err => err
  | .other => .ProgramFailedToComplete

/-- The entrypoint of a builtin, run on the context. -/
abbrev BuiltinFunction := MeteredM ProgramError Unit

structure LoaderIds where
  nativeLoader : Pubkey
  bpfLoaderDeprecated : Pubkey
  bpfLoader : Pubkey
  bpfLoaderUpgradeable : Pubkey
  loaderV4 : Pubkey

namespace TransactionContext

def setReturnData (programId : Pubkey) (data : List UInt8) : TransactionM Unit :=
  modify fun ctx => { ctx with
    transactionFrame := { ctx.transactionFrame with
      returnDataPubkey := programId
      returnDataScratchpad := { ctx.transactionFrame.returnDataScratchpad with len := data.length } }
    returnDataBytes := data }

/-- The builtin that executes an instruction: a program of the native loader itself,
or the loader of a program. -/
def builtinId (ids : LoaderIds) (ic : InstructionContext) : TransactionM Pubkey := do
  let ownerId ← onAccounts ic.getProgramOwner
  if ownerId = ids.nativeLoader then MonadExcept.ofExcept ((← get).getProgramKey ic)
  else if ownerId = ids.bpfLoaderDeprecated ∨ ownerId = ids.bpfLoader ∨ ownerId = ids.bpfLoaderUpgradeable ∨
      ownerId = ids.loaderV4 then
    return ownerId
  else throw .UnsupportedProgramId

end TransactionContext

/-! ## Instructions -/

/-- The context beside the out parameter of `process_instruction`. -/
structure Measured where
  context : MeteredContext
  computeUnitsConsumed : UInt64

abbrev MeasuredM := EStateM InstructionError Measured

/-- Code that does not use the out parameter. -/
def onContext {α : Type} (x : MeteredM InstructionError α) : MeasuredM α :=
  zoom Measured.context (fun s c => { s with context := c }) x

namespace MeteredContext

/-- What `process_executable_chain` does before it reads the meter: the builtin that
executes the instruction, its entrypoint as `find` has it in the program cache, and
the program of the instruction, whose return data is reset. -/
def enterProgram (ids : LoaderIds) (find : Pubkey → Option BuiltinFunction) :
    InvokeM (Pubkey × BuiltinFunction × Pubkey) := onTransaction do
  let ic ← MonadExcept.ofExcept (← get).getCurrentInstructionContext
  let builtinId ← TransactionContext.builtinId ids ic
  match find builtinId with
  | none => throw .UnsupportedProgramId
  | some function =>
    let programId ← MonadExcept.ofExcept ((← get).getProgramKey ic)
    TransactionContext.setReturnData programId []
    return (builtinId, function, programId)

def processExecutableChain (ids : LoaderIds) (find : Pubkey → Option BuiltinFunction) : MeasuredM Unit := do
  let (builtinId, function, programId) ← onContext (unmetered (enterProgram ids find))
  let preRemainingUnits := (← get).context.getRemaining
  let result ← onContext (attempt (mapError ProgramError.toInstructionError function))
  let postRemainingUnits := (← get).context.getRemaining
  let computeUnitsConsumed := satSub64 preRemainingUnits postRemainingUnits
  modify fun s => { s with computeUnitsConsumed }
  throwIf (builtinId = programId ∧ result.isOk ∧ computeUnitsConsumed = 0) .BuiltinProgramsMustConsumeComputeUnits
  MonadExcept.ofExcept result

def processInstruction (ext : Externals) (ids : LoaderIds) (find : Pubkey → Option BuiltinFunction) :
    MeasuredM Unit := do
  modify fun s => { s with computeUnitsConsumed := 0 }
  onContext (unmetered (InvokeContext.push ext))
  let result ← attempt (processExecutableChain ids find)
  -- MUST pop if and only if `push` succeeded, independent of `result`.
  let popped ← attempt (onContext (unmetered InvokeContext.pop))
  MonadExcept.ofExcept (InvokeContext.andResult result popped)

/-- `process_precompile`, with the result of the callback. -/
def processPrecompile (ext : Externals) (verified : Except InstructionError Unit) : MeteredM InstructionError Unit := do
  unmetered (InvokeContext.push ext)
  let popped ← attempt (unmetered InvokeContext.pop)
  MonadExcept.ofExcept (InvokeContext.andResult verified popped)

end MeteredContext

/-! ## Messages -/

/-- The callbacks for precompiles: which programs are, and how one verifies an
instruction's data among those of the message. -/
structure Precompiles where
  isPrecompile : Pubkey → Bool
  processPrecompile : (programId : Pubkey) → (data : List UInt8) → (instructionDatas : List (List UInt8)) →
    Except InstructionError Unit

/-- The context beside `process_message`'s out parameter. -/
structure Accumulated where
  context : MeteredContext
  accumulatedConsumedUnits : UInt64

/-- Code on the accumulated state. An error is a `TransactionError::InstructionError`. -/
abbrev AccumulatedM := EStateM (UInt8 × InstructionError) Accumulated

namespace MessageProcessor

/-- What an instruction of a message is processed by. -/
def processTopLevel (ext : Externals) (ids : LoaderIds) (precompiles : Precompiles) (message : SVMTransaction)
    (find : Pubkey → Option BuiltinFunction) (programId : Pubkey) (instruction : SVMInstruction) :
    MeasuredM Unit :=
  if precompiles.isPrecompile programId then
    onContext (MeteredContext.processPrecompile ext
      (precompiles.processPrecompile programId instruction.data (message.instructions.map (·.data))))
  else MeteredContext.processInstruction ext ids find

/-- One pass of the loop over the instructions of a message. -/
def processNext (topLevelInstructionIndex : Nat) (process : MeasuredM Unit) : AccumulatedM Unit := fun s =>
  let result := result process ⟨s.context, 0⟩
  let ⟨context, computeUnitsConsumed⟩ := final process ⟨s.context, 0⟩
  let accumulatedConsumedUnits :=
    .ofNat (satAdd 64 s.accumulatedConsumedUnits.toNat computeUnitsConsumed.toNat)
  match result with
  | .ok () => .ok () { context, accumulatedConsumedUnits }
  | .error err => .error (.ofNat topLevelInstructionIndex, err) { context, accumulatedConsumedUnits }

/-- The loop from an index on. `find` is the lookup of entrypoints in the program cache
as each instruction finds it. -/
def processFrom (ext : Externals) (ids : LoaderIds) (precompiles : Precompiles) (message : SVMTransaction)
    (find : (topLevelInstructionIndex : Nat) → Pubkey → Option BuiltinFunction) (index : Nat) :
    List (Pubkey × SVMInstruction) → AccumulatedM Unit
  | [] => pure ()
  | (programId, instruction) :: rest => do
    processNext index (processTopLevel ext ids precompiles message (find index) programId instruction)
    processFrom ext ids precompiles message find (index + 1) rest

def processMessage (ext : Externals) (ids : LoaderIds) (precompiles : Precompiles) (message : SVMTransaction)
    (find : (topLevelInstructionIndex : Nat) → Pubkey → Option BuiltinFunction) : AccumulatedM Unit := do
  zoom (·.context.toInvokeContext) (fun s c => { s with context := { s.context with toInvokeContext := c } })
    (InvokeContext.prepareTopLevelInstructions message.toSVMMessage)
  processFrom ext ids precompiles message find 0 message.programInstructions

end MessageProcessor

end Svm
