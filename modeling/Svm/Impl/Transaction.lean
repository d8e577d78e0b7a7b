import Svm.Framework.Run
import Svm.Impl.InstructionAccounts
import Svm.Impl.Sbpf.MemoryRegion

/-!
# The transaction context

`transaction.rs` and `instruction.rs`: the instruction trace and stack of a
transaction over its accounts, the view of one instruction, and the handler
that grows an account when a program writes past its end.
-/

namespace Svm

open Machine Run

/-- What the transaction context takes from other crates: two ids, the writes of
`store_current_index_checked` with its result, and the host address of an
account's payload. -/
structure Externals where
  instructionsId : Pubkey
  sysvarId : Pubkey
  storeCurrentIndexChecked :
    (data : List UInt8) → (instructionIndex : UInt16) → List (Nat × UInt8) × Except InstructionError Unit
  payloadAddr : (indexInTransaction : UInt16) → Payload → UInt64

structure InstructionFrame where
  programAccountIndexInTx : UInt16
  nestingLevel : UInt16
  indexOfCallerInstruction : UInt16
  instructionAccounts : VmSlice
  instructionData : VmSlice
  deriving DecidableEq, Repr

instance : Inhabited InstructionFrame where
  default :=
    { programAccountIndexInTx := 0
      nestingLevel := 0
      indexOfCallerInstruction := 65535
      instructionAccounts := ⟨0, 0⟩
      instructionData := ⟨0, 0⟩ }

def InstructionFrame.configureVmSlices (f : InstructionFrame)
    (instructionIndex instructionAccountsLen instructionDataLen : Nat) : InstructionFrame :=
  let commonOffset := satMul 64 GUEST_REGION_SIZE instructionIndex
  { f with
    instructionData := ⟨satAdd 64 GUEST_INSTRUCTION_DATA_BASE_ADDRESS commonOffset, instructionDataLen⟩
    instructionAccounts :=
      ⟨satAdd 64 GUEST_INSTRUCTION_ACCOUNT_BASE_ADDRESS commonOffset, instructionAccountsLen⟩ }

structure TransactionFrame where
  returnDataPubkey : Pubkey
  returnDataScratchpad : VmSlice
  cpiScratchpad : VmSlice
  currentExecutingInstruction : UInt16
  totalNumberOfInstructionsInTrace : UInt16
  numberOfCpisInTrace : UInt16
  numberOfTransactionAccounts : UInt16
  deriving DecidableEq, Repr

structure TransactionContext where
  accounts : TransactionAccounts
  instructionStackCapacity : Nat
  instructionTraceCapacity : Nat
  instructionStack : List Nat
  instructionTrace : List InstructionFrame
  transactionFrame : TransactionFrame
  returnDataBytes : List UInt8
  nextTopLevelInstructionIndex : Nat
  rent : Rent
  deduplicationMaps : List (List UInt16)
  instructionAccounts : List (List InstructionAccount)
  instructionData : List (List UInt8)

/-- Code on the transaction context. What it wrote stays when it fails. -/
abbrev TransactionM := EStateM InstructionError TransactionContext

/-- Code on the accounts, run on those of the transaction. -/
def onAccounts {α : Type} (x : AccountsM α) : TransactionM α :=
  zoom TransactionContext.accounts (fun ctx a => { ctx with accounts := a }) x

/-- The view of one instruction. -/
structure InstructionContext where
  indexInTrace : Nat
  nestingLevel : Nat
  indexOfCallerInstruction : Nat
  programAccountIndexInTx : UInt16
  instructionAccounts : List InstructionAccount
  dedupMap : List UInt16
  instructionData : List UInt8
  deriving DecidableEq, Repr

/-- `u16::saturating_add(1)`. -/
def satSucc16 (n : UInt16) : UInt16 := .ofNat (satAdd 16 n.toNat 1)

namespace InstructionContext

variable (ic : InstructionContext)

def getStackHeight : Nat := satAdd 64 ic.nestingLevel 1

/-- The number of accounts, cast to a `u16`. -/
def getNumberOfInstructionAccounts : UInt16 := .ofNat ic.instructionAccounts.length

def getIndexOfProgramAccountInTransaction : Except InstructionError UInt16 :=
  if ic.programAccountIndexInTx = 65535 then .error .MissingAccount
  else .ok ic.programAccountIndexInTx

variable (index : UInt16)

/-- The entry at an index of the instruction. -/
def instructionAccountAt : Except InstructionError InstructionAccount :=
  match ic.instructionAccounts[index.toNat]? with
  | some account => .ok account
  | none => .error .MissingAccount

def getIndexOfInstructionAccountInTransaction : Except InstructionError UInt16 :=
  (ic.instructionAccountAt index).map (·.indexInTransaction)

def getIndexOfAccountInInstruction (indexInTransaction : UInt16) : Except InstructionError UInt16 :=
  match ic.dedupMap[indexInTransaction.toNat]? with
  | some idx => if idx.toNat ≥ ic.instructionAccounts.length then .error .MissingAccount else .ok idx
  | none => .error .MissingAccount

/-- The first index with the same account, if it is another one. -/
def isInstructionAccountDuplicate : Except InstructionError (Option UInt16) := do
  let indexInTransaction ← ic.getIndexOfInstructionAccountInTransaction index
  let first ← ic.getIndexOfAccountInInstruction indexInTransaction
  return if first = index then none else some first

def isInstructionAccountSigner : Except InstructionError Bool :=
  (ic.instructionAccountAt index).map (·.isSigner)

def isInstructionAccountWritable : Except InstructionError Bool :=
  (ic.instructionAccountAt index).map (·.isWritable)

end InstructionContext

namespace TransactionContext

/-- `TransactionContext::new`. -/
def new (transactionAccounts : List (Pubkey × AccountSharedData)) (rent : Rent)
    (instructionStackCapacity instructionTraceCapacity numberOfTopLevelInstructions : Nat) :
    TransactionContext :=
  { accounts := .new transactionAccounts
    instructionStackCapacity := instructionStackCapacity
    instructionTraceCapacity := instructionTraceCapacity
    instructionStack := []
    instructionTrace := .replicate (satAdd 64 numberOfTopLevelInstructions 1) default
    transactionFrame :=
      { returnDataPubkey := .replicate 32 0
        returnDataScratchpad := ⟨RETURN_DATA_SCRATCHPAD, 0⟩
        cpiScratchpad :=
          ⟨satAdd 64 GUEST_INSTRUCTION_DATA_BASE_ADDRESS
            (satMul 64 GUEST_REGION_SIZE numberOfTopLevelInstructions), 0⟩
        currentExecutingInstruction := 0
        totalNumberOfInstructionsInTrace := .ofNat numberOfTopLevelInstructions
        numberOfCpisInTrace := 0
        numberOfTransactionAccounts := .ofNat transactionAccounts.length }
    returnDataBytes := []
    nextTopLevelInstructionIndex := 0
    rent := rent
    deduplicationMaps := []
    instructionAccounts := []
    instructionData := [] }

variable (ctx : TransactionContext)

def getKeyOfAccountAtIndex (indexInTransaction : UInt16) : Except InstructionError Pubkey :=
  match ctx.accounts.accountKey indexInTransaction with
  | some key => .ok key
  | none => .error .MissingAccount

/-- The first account with the key. The position is cast to a `u16`. -/
def findIndexOfAccount (pubkey : Pubkey) : Option UInt16 :=
  (ctx.accounts.accountKeys.findIdx? (· == pubkey)).map .ofNat

/-- Not counting the frame that is reserved for the next instruction. -/
def getInstructionTraceLength : Nat := ctx.instructionTrace.length - 1

def getInstructionStackHeight : Nat := ctx.instructionStack.length

def getInstructionContextAtIndexInTrace (indexInTrace : Nat) : Except InstructionError InstructionContext :=
  match ctx.instructionTrace[indexInTrace]? with
  | none => .error .CallDepth
  | some instruction => .ok
    { indexInTrace := indexInTrace
      nestingLevel := instruction.nestingLevel.toNat
      indexOfCallerInstruction := instruction.indexOfCallerInstruction.toNat
      programAccountIndexInTx := instruction.programAccountIndexInTx
      -- empty for an instruction that has not been configured yet
      instructionAccounts := ctx.instructionAccounts[indexInTrace]?.getD []
      dedupMap := ctx.deduplicationMaps[indexInTrace]?.getD []
      instructionData := ctx.instructionData[indexInTrace]?.getD [] }

def getInstructionContextAtNestingLevel (nestingLevel : Nat) : Except InstructionError InstructionContext :=
  match ctx.instructionStack[nestingLevel]? with
  | some indexInTrace => ctx.getInstructionContextAtIndexInTrace indexInTrace
  | none => .error .CallDepth

def getCurrentInstructionIndex : Except InstructionError Nat :=
  match ctx.instructionStack.getLast? with
  | some indexInTrace => .ok indexInTrace
  | none => .error .CallDepth

def getCurrentInstructionContext : Except InstructionError InstructionContext := do
  ctx.getInstructionContextAtIndexInTrace (← ctx.getCurrentInstructionIndex)

def getNextInstructionContext : Except InstructionError InstructionContext :=
  if ctx.instructionStack.isEmpty then
    ctx.getInstructionContextAtIndexInTrace ctx.nextTopLevelInstructionIndex
  else if ctx.instructionTrace.isEmpty then .error .CallDepth
  else ctx.getInstructionContextAtIndexInTrace (ctx.instructionTrace.length - 1)

/-- Called instructions, finished or not; top level instructions to come are not
counted. -/
def numberOfCalledInstructionsInTrace : Nat :=
  satAdd 64 ctx.nextTopLevelInstructionIndex ctx.transactionFrame.numberOfCpisInTrace.toNat

def configureInstructionAtIndex (instructionIndex : Nat) (programIndex : UInt16)
    (instructionAccounts : List InstructionAccount) (deduplicationMap : List UInt16)
    (instructionData : List UInt8) (callerIndex : Option UInt16) : TransactionM Unit := do
  let ctx ← get
  if instructionIndex < ctx.instructionTrace.length then do
    -- If we have a parent index, then we are dealing with a CPI.
    if let some callerIndex := callerIndex then
      modify fun ctx => { ctx with
        transactionFrame := { ctx.transactionFrame with
          totalNumberOfInstructionsInTrace := satSucc16 ctx.transactionFrame.totalNumberOfInstructionsInTrace
          cpiScratchpad := ⟨satAdd 64 ctx.transactionFrame.cpiScratchpad.ptr GUEST_REGION_SIZE, 0⟩ }
        instructionTrace := ctx.instructionTrace.modify instructionIndex
          ({ · with indexOfCallerInstruction := callerIndex }) }
    modify fun ctx => { ctx with
      instructionTrace := ctx.instructionTrace.modify instructionIndex fun frame =>
        { frame with programAccountIndexInTx := programIndex }.configureVmSlices
          instructionIndex instructionAccounts.length instructionData.length
      deduplicationMaps := ctx.deduplicationMaps ++ [deduplicationMap]
      instructionAccounts := ctx.instructionAccounts ++ [instructionAccounts]
      instructionData := ctx.instructionData ++ [instructionData] }
  else
    throw .MaxInstructionTraceLengthExceeded

/-- The last step of `push`: the instructions sysvar, if the transaction has it, is
told the index of the top level instruction. -/
def storeCurrentIndex (ext : Externals) (index currentTopLevelInstruction : UInt16) : AccountsM Unit := do
  TransactionAccounts.tryBorrowMut index
  let a ← get
  if (a.view index).owner ≠ ext.sysvarId then do
    set (a.releaseBorrowMut index)
    throw .InvalidAccountOwner
  else do
    let (writes, result) := ext.storeCurrentIndexChecked (a.view index).data currentTopLevelInstruction
    set ((a.modifyView index fun v => v.dataAsMutSlice.writeSlice writes).releaseBorrowMut index)
    MonadExcept.ofExcept result

/-- The index in the trace of the instruction that is pushed, and that of its top
level instruction. A nested push takes the reserved frame and reserves another. -/
def nextIndexInTrace : TransactionM (Nat × Nat) := do
  let ctx ← get
  if ctx.instructionStack.isEmpty then do
    let index := ctx.nextTopLevelInstructionIndex
    modify fun ctx => { ctx with nextTopLevelInstructionIndex := satAdd 64 index 1 }
    return (index, index)
  else do
    modify fun ctx => { ctx with
      transactionFrame := { ctx.transactionFrame with
        numberOfCpisInTrace := satSucc16 ctx.transactionFrame.numberOfCpisInTrace }
      instructionTrace := ctx.instructionTrace ++ [default] }
    return (ctx.getInstructionTraceLength, ctx.nextTopLevelInstructionIndex - 1)

def push (ext : Externals) : TransactionM Unit := do
  let ctx ← get
  let nestingLevel := ctx.getInstructionStackHeight
  if !ctx.instructionStack.isEmpty ∧ ctx.accounts.lamportsDelta ≠ 0 then throw .UnbalancedInstruction
  else if ctx.instructionTrace.isEmpty then throw .CallDepth
  else do
    modify fun ctx => { ctx with
      instructionTrace := ctx.instructionTrace.modify (ctx.instructionTrace.length - 1)
        ({ · with nestingLevel := .ofNat nestingLevel }) }
    if ctx.numberOfCalledInstructionsInTrace ≥ ctx.instructionTraceCapacity then
      throw .MaxInstructionTraceLengthExceeded
    else do
      let (indexInTrace, currentTopLevelInstruction) ← nextIndexInTrace
      if nestingLevel ≥ ctx.instructionStackCapacity then throw .CallDepth
      else do
        modify fun ctx => { ctx with
          transactionFrame := { ctx.transactionFrame with
            currentExecutingInstruction := .ofNat indexInTrace }
          instructionStack := ctx.instructionStack ++ [indexInTrace] }
        match (← get).findIndexOfAccount ext.instructionsId with
        | some index => onAccounts (storeCurrentIndex ext index (.ofNat currentTopLevelInstruction))
        | none => return ()

/-- The check of `pop` that the program account has no outstanding borrow. -/
def checkNotBorrowed (index : UInt16) : AccountsM Unit := do
  match ← attempt (TransactionAccounts.tryBorrowMut index) with
  | .ok () => modify fun a => a.releaseBorrowMut index
  | .error .AccountBorrowFailed => throw .AccountBorrowOutstanding
  | .error err => throw err

def detectUnbalancedInstruction : TransactionM Bool := do
  let instructionContext ← MonadExcept.ofExcept (← get).getCurrentInstructionContext
  let index ← MonadExcept.ofExcept instructionContext.getIndexOfProgramAccountInTransaction
  onAccounts (checkNotBorrowed index)
  return (← get).accounts.lamportsDelta ≠ 0

/-- Takes the current instruction off the stack. -/
def popStack (ctx : TransactionContext) : TransactionContext :=
  let ctx := { ctx with instructionStack := ctx.instructionStack.dropLast }
  match ctx.instructionStack.getLast? with
  | some index => { ctx with
      transactionFrame := { ctx.transactionFrame with currentExecutingInstruction := .ofNat index } }
  | none => ctx

def pop : TransactionM Unit := do
  if (← get).instructionStack.isEmpty then throw .CallDepth
  else do
    let detectedAnUnbalancedInstruction ← attempt detectUnbalancedInstruction
    -- Always pop, even if an unbalanced instruction is detected
    modify popStack
    if ← MonadExcept.ofExcept detectedAnUnbalancedInstruction then throw .UnbalancedInstruction
    else return ()

end TransactionContext

/-- `try_borrow_instruction_account`, of an instruction of the transaction. -/
def InstructionContext.tryBorrowInstructionAccount (ic : InstructionContext) (rent : Rent)
    (indexInInstruction : UInt16) : AccountsM BorrowedInstructionAccount := do
  let instructionAccount ← MonadExcept.ofExcept (ic.instructionAccountAt indexInInstruction)
  TransactionAccounts.tryBorrowMut instructionAccount.indexInTransaction
  return { rent := rent
           instructionAccount := instructionAccount
           indexInTransactionOfInstructionProgram := ic.programAccountIndexInTx }

/-! ## The access violation handler -/

section Handler

open Sbpf

/-- The growth the transaction has left. -/
def remainingAllowedGrowth (resizeDelta : Int) : Nat :=
  (max (iSatSub 64 MAX_ACCOUNT_DATA_GROWTH_PER_TRANSACTION resizeDelta) 0).toNat

/-- Reallocates to fit the requested access. The account is resized again, to the
length the program stored, in CPI or deserialization. -/
def reallocAccount (index : UInt16) (requestedLength addressSpaceReservedForAccount : Nat)
    (a : TransactionAccounts) (region : MemoryRegion) : TransactionAccounts × MemoryRegion :=
  if requestedLength > region.len.toNat then
    let oldLen := (a.view index).data.length
    let newLen := min (min addressSpaceReservedForAccount MAX_ACCOUNT_DATA_LEN)
      (satAdd 64 oldLen (remainingAllowedGrowth a.resizeDelta))
    ((a.addResizeDelta oldLen newLen).modifyView index (·.resize newLen 0),
      { region with len := .ofNat newLen })
  else (a, region)

/-- Makes the account's data its own, and the region writable. -/
def unshareAccount (ext : Externals) (index : UInt16) (a : TransactionAccounts) (region : MemoryRegion) :
    TransactionAccounts × MemoryRegion :=
  let a := a.modifyView index (·.dataAsMutSlice)
  (a, { region with hostAddr := ext.payloadAddr index (a.view index).privateFields.payload, writable := true })

/-- `access_violation_handler`: the accounts and the region it leaves. -/
def accessViolationHandler (ext : Externals)
    (virtualAddressSpaceAdjustments accountDataDirectMapping : Bool) (a : TransactionAccounts)
    (region : MemoryRegion) (addressSpaceReservedForAccount : UInt64) (accessType : AccessType)
    (vmAddr len : UInt64) : TransactionAccounts × MemoryRegion :=
  if accessType = .Load then (a, region)
  else match region.accessViolationHandlerPayload with
    -- This region is not a writable account.
    | none => (a, region)
    | some index =>
      let requestedLength := (U64.satSub (U64.satAdd vmAddr len) region.vmAddr).toNat
      -- Requested access goes further than the account region.
      if requestedLength > addressSpaceReservedForAccount.toNat then (a, region)
      else match (do TransactionAccounts.tryBorrowMut index; TransactionAccounts.touch index).run a with
        -- only the borrow can fail: touching an account in range does not
        | .error _ _ => (a, region)
        | .ok _ a =>
          let (a, region) :=
            reallocAccount index requestedLength addressSpaceReservedForAccount.toNat a region
          let (a, region) :=
            if virtualAddressSpaceAdjustments ∧ accountDataDirectMapping then
              unshareAccount ext index a region
            else (a, region)
          (a.releaseBorrowMut index, region)

end Handler

end Svm
