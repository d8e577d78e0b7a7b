import Svm.Impl.Programs.Common

/-!
# Loader v4

`programs/loader-v4/src/lib.rs`: the instructions of the loader itself. The
state of a program is the first 48 bytes of its account, which the source
reinterprets in place: the slot, the authority (or next version) and the status,
followed by the program. Metering and the decoding of the instruction are left
out, and so is the program cache, but for whether `deploy_program!` accepts the
program.
-/

namespace Svm.LoaderV4

open Machine Run Bytes
open MonadExcept (ofExcept)

inductive LoaderV4Status where
  | Retracted
  | Deployed
  | Finalized
  deriving DecidableEq, Repr

def LoaderV4Status.discriminant : LoaderV4Status → Nat
  | .Retracted => 0
  | .Deployed => 1
  | .Finalized => 2

/-- The status of a discriminant. Any other number is no value of the type. -/
def LoaderV4Status.ofDiscriminant : Nat → Option LoaderV4Status
  | 0 => some .Retracted
  | 1 => some .Deployed
  | 2 => some .Finalized
  | _ => none

structure LoaderV4State where
  slot : UInt64
  authorityAddressOrNextVersion : Pubkey
  status : Option LoaderV4Status
  deriving DecidableEq, Repr

/-- `LoaderV4State::program_data_offset`. -/
def programDataOffset : Nat := 48

/-- `UpgradeableLoaderState::size_of_programdata_metadata`. -/
def sizeOfProgramdataMetadata : Nat := 45

/-! ## The state in the bytes of an account -/

variable (data : List UInt8)

def slotOf : UInt64 := .ofNat (ofLe (data.take 8))
def authorityOf : Pubkey := toPubkey (data.drop 8)
def statusOf : Option LoaderV4Status :=
  LoaderV4Status.ofDiscriminant (ofLe ((data.drop 40).take 8))

def getState : Except InstructionError LoaderV4State :=
  if programDataOffset ≤ data.length then .ok ⟨slotOf data, authorityOf data, statusOf data⟩
  else .error .AccountDataTooSmall

variable (program : BorrowedInstructionAccount)

/-- A write to a field of what `get_state_mut(program.get_data_mut()?)?` returns. -/
def writeState (start : Nat) (field : List UInt8) : AccountsM Unit := do
  if programDataOffset ≤ (program.getData (← get)).length then
    program.modifyAccount (·.overwrite start field)
  else throw .AccountDataTooSmall

def writeSlot (slot : UInt64) : AccountsM Unit :=
  writeState program 0 (toLe 8 slot.toNat)

def writeAuthority (authority : Pubkey) : AccountsM Unit :=
  writeState program 8 authority.toList

def writeStatus (status : LoaderV4Status) : AccountsM Unit :=
  writeState program 40 (toLe 8 status.discriminant)

/-! ## Instructions -/

inductive LoaderV4Instruction where
  | Write (offset : UInt32) (bytes : List UInt8)
  | Copy (destinationOffset sourceOffset length : UInt32)
  | SetProgramLength (newSize : UInt32)
  | Deploy
  | Retract
  | TransferAuthority
  | Finalize
  deriving DecidableEq, Repr

/-- What the loader reads besides the accounts: the ids of the loaders, the two
sysvars (`get_rent` as its `minimum_balance`, `get_clock` as its slot), the result
of `deploy_program!` and `DEPLOYMENT_COOLDOWN_IN_SLOTS`. -/
structure Environment where
  id : Pubkey
  bpfLoaderUpgradeableId : Pubkey
  bpfLoaderDeprecatedId : Pubkey
  bpfLoaderId : Pubkey
  deploymentCooldownInSlots : UInt64
  getRent : Except InstructionError ((dataLen : Nat) → UInt64)
  getClock : Except InstructionError UInt64
  deployProgram : (programId loaderKey : Pubkey) → (accountSize : Nat) → (programdata : List UInt8) →
    (deploymentSlot : UInt64) → Except InstructionError Unit

section Instructions

variable (env : Environment) (ic : InstructionContext) (rent : Rent)

def checkProgramAccount (program : BorrowedInstructionAccount) (authorityAddress : Pubkey)
    (a : TransactionAccounts) : Except InstructionError LoaderV4State := do
  failIf (program.getOwner a ≠ env.id) .InvalidAccountOwner
  let state ← getState (program.getData a)
  failIf (!program.isWritable) .InvalidArgument
  failIf (!(← ic.isInstructionAccountSigner 1)) .MissingRequiredSignature
  failIf (state.authorityAddressOrNextVersion ≠ authorityAddress) .IncorrectAuthority
  failIf (state.status = some .Finalized) .Immutable
  return state

def processInstructionWrite (offset : UInt32) (bytes : List UInt8) : AccountsM Unit :=
  withBorrowed ic rent 0 fun program => do
    let authorityAddress ← ofExcept (ic.getKeyOfInstructionAccount (← get) 1)
    let state ← ofExcept (checkProgramAccount env ic program authorityAddress (← get))
    throwIf (state.status ≠ some .Retracted) .InvalidArgument
    program.writeRange (offset.toNat + programDataOffset) bytes

/-- Where the program starts in the account of a loader. -/
def sourceDataOffset (sourceOwner : Pubkey) : Except InstructionError Nat :=
  if sourceOwner = env.id then .ok programDataOffset
  else if sourceOwner = env.bpfLoaderUpgradeableId then .ok sizeOfProgramdataMetadata
  else if sourceOwner = env.bpfLoaderDeprecatedId ∨ sourceOwner = env.bpfLoaderId then .ok 0
  else .error .InvalidArgument

def processInstructionCopy (destinationOffset sourceOffset length : UInt32) : AccountsM Unit :=
  withBorrowed ic rent 0 fun program => do
    let authorityAddress ← ofExcept (ic.getKeyOfInstructionAccount (← get) 1)
    withBorrowed ic rent 2 fun sourceProgram => do
      let state ← ofExcept (checkProgramAccount env ic program authorityAddress (← get))
      throwIf (state.status ≠ some .Retracted) .InvalidArgument
      let offset ← ofExcept (sourceDataOffset env (sourceProgram.getOwner (← get)))
      let sourceOffset := sourceOffset.toNat + offset
      match slice (sourceProgram.getData (← get)) sourceOffset (sourceOffset + length.toNat) with
      | some data => program.writeRange (destinationOffset.toNat + programDataOffset) data
      | none => throw .AccountDataTooSmall

/-- The checks of `process_instruction_set_program_length`, and whether the account is
to be initialized. -/
def checkSetProgramLength (program : BorrowedInstructionAccount) (authorityAddress : Pubkey)
    (a : TransactionAccounts) : Except InstructionError Bool := do
  if (program.getData a).length < programDataOffset then do
    failIf (program.getOwner a ≠ env.id) .InvalidAccountOwner
    failIf (!program.isWritable) .InvalidArgument
    failIf (!(← ic.isInstructionAccountSigner 1)) .MissingRequiredSignature
    return true
  else do
    let state ← checkProgramAccount env ic program authorityAddress a
    failIf (state.status ≠ some .Retracted) .InvalidArgument
    return false

def requiredLamports (newSize : UInt32) : Except InstructionError UInt64 := do
  if newSize = 0 then return 0
  else
    let minimumBalance ← env.getRent
    return max (minimumBalance (programDataOffset + newSize.toNat)) 1

/-- What the account holds above `required` goes to the recipient, if there is one. -/
def payRecipient (program : BorrowedInstructionAccount) (newSize : UInt32) (required : UInt64) : AccountsM Unit := do
  match ← attempt (ic.tryBorrowInstructionAccount rent 2) with
  | .ok recipient => recipient.dropping do
    let isWritable ← ofExcept (ic.isInstructionAccountWritable 2)
    throwIf (!isWritable) .InvalidArgument
    let lamportsToReceive := U64.satSub (program.getLamports (← get)) required
    program.checkedSubLamports lamportsToReceive
    recipient.checkedAddLamports lamportsToReceive
  | .error _ => throwIf (newSize = 0) .InvalidArgument

def balanceProgram (program : BorrowedInstructionAccount) (newSize : UInt32) (required : UInt64) :
    AccountsM Unit := do
  let lamports := program.getLamports (← get)
  if lamports < required then throw .InsufficientFunds
  else if required < lamports then payRecipient ic rent program newSize required
  else pure ()

def initializeProgram (program : BorrowedInstructionAccount) (authorityAddress : Pubkey) : AccountsM Unit := do
  program.setExecutable true
  program.getDataMut
  writeSlot program 0
  writeStatus program .Retracted
  writeAuthority program authorityAddress

def resizeProgram (program : BorrowedInstructionAccount) (newSize : UInt32) (isInitialization : Bool)
    (authorityAddress : Pubkey) : AccountsM Unit := do
  if newSize = 0 then program.setDataLength 0
  else do
    program.setDataLength (programDataOffset + newSize.toNat)
    if isInitialization then initializeProgram program authorityAddress
    else pure ()

def processInstructionSetProgramLength (newSize : UInt32) : AccountsM Unit :=
  withBorrowed ic rent 0 fun program => do
    let authorityAddress ← ofExcept (ic.getKeyOfInstructionAccount (← get) 1)
    let isInitialization ← ofExcept (checkSetProgramLength env ic program authorityAddress (← get))
    let required ← ofExcept (requiredLamports env newSize)
    balanceProgram ic rent program newSize required
    resizeProgram program newSize isInitialization authorityAddress

def processInstructionDeploy : AccountsM Unit :=
  withBorrowed ic rent 0 fun program => do
    let authorityAddress ← ofExcept (ic.getKeyOfInstructionAccount (← get) 1)
    let state ← ofExcept (checkProgramAccount env ic program authorityAddress (← get))
    let currentSlot ← ofExcept env.getClock
    -- a slot of 0 says that the program has not been deployed yet
    throwIf (state.slot ≠ 0 ∧ U64.satAdd state.slot env.deploymentCooldownInSlots > currentSlot) .InvalidArgument
    throwIf (state.status ≠ some .Retracted) .InvalidArgument
    let a ← get
    ofExcept (env.deployProgram (program.getKey a) env.id (program.getData a).length
      ((program.getData a).drop programDataOffset) currentSlot)
    program.getDataMut
    writeSlot program currentSlot
    writeStatus program .Deployed

def processInstructionRetract : AccountsM Unit :=
  withBorrowed ic rent 0 fun program => do
    let authorityAddress ← ofExcept (ic.getKeyOfInstructionAccount (← get) 1)
    let state ← ofExcept (checkProgramAccount env ic program authorityAddress (← get))
    let currentSlot ← ofExcept env.getClock
    throwIf (U64.satAdd state.slot env.deploymentCooldownInSlots > currentSlot) .InvalidArgument
    throwIf (state.status ≠ some .Deployed) .InvalidArgument
    program.getDataMut
    writeStatus program .Retracted

def processInstructionTransferAuthority : AccountsM Unit :=
  withBorrowed ic rent 0 fun program => do
    let authorityAddress ← ofExcept (ic.getKeyOfInstructionAccount (← get) 1)
    let newAuthorityAddress ← ofExcept (ic.getKeyOfInstructionAccount (← get) 2)
    let state ← ofExcept (checkProgramAccount env ic program authorityAddress (← get))
    let isSigner ← ofExcept (ic.isInstructionAccountSigner 2)
    throwIf (!isSigner) .MissingRequiredSignature
    throwIf (state.authorityAddressOrNextVersion = newAuthorityAddress) .InvalidArgument
    program.getDataMut
    writeAuthority program newAuthorityAddress

/-- The first borrow of `process_instruction_finalize`: the authority of a deployed
program. -/
def checkFinalize : AccountsM Pubkey :=
  withBorrowed ic rent 0 fun program => do
    let authorityAddress ← ofExcept (ic.getKeyOfInstructionAccount (← get) 1)
    let state ← ofExcept (checkProgramAccount env ic program authorityAddress (← get))
    throwIf (state.status ≠ some .Deployed) .InvalidArgument
    return authorityAddress

/-- The second borrow: the address of a next version with the same authority. -/
def checkNextVersion (authorityAddress : Pubkey) : AccountsM Pubkey :=
  withBorrowed ic rent 2 fun nextVersion => do
    let a ← get
    throwIf (nextVersion.getOwner a ≠ env.id) .InvalidAccountOwner
    let stateOfNextVersion ← ofExcept (getState (nextVersion.getData a))
    throwIf (stateOfNextVersion.authorityAddressOrNextVersion ≠ authorityAddress) .IncorrectAuthority
    throwIf (stateOfNextVersion.status = some .Finalized) .Immutable
    return nextVersion.getKey a

def processInstructionFinalize : AccountsM Unit := do
  let authorityAddress ← checkFinalize env ic rent
  let addressOfNextVersion ← checkNextVersion env ic rent authorityAddress
  withBorrowed ic rent 0 fun program => do
    program.getDataMut
    writeAuthority program addressOfNextVersion
    writeStatus program .Finalized

/-- The branch of `process_instruction_inner` for an instruction of the loader itself. -/
def processInstruction : LoaderV4Instruction → AccountsM Unit
  | .Write offset bytes => processInstructionWrite env ic rent offset bytes
  | .Copy destinationOffset sourceOffset length =>
    processInstructionCopy env ic rent destinationOffset sourceOffset length
  | .SetProgramLength newSize => processInstructionSetProgramLength env ic rent newSize
  | .Deploy => processInstructionDeploy env ic rent
  | .Retract => processInstructionRetract env ic rent
  | .TransferAuthority => processInstructionTransferAuthority env ic rent
  | .Finalize => processInstructionFinalize env ic rent

end Instructions

end Svm.LoaderV4
