import Svm.Impl.Programs.System

/-!
# Loader v3

`programs/bpf_loader/src/lib.rs`: the instructions of the upgradeable loader. A program
consists of its own account, which names a ProgramData account, and the ProgramData
account, whose address derives from the program's. Its bytes come from a Buffer account.
The loader calls the system program to create a ProgramData account and to fund it.

Metering, the decoding of instructions and the program cache are left out, but for
whether `deploy_program!` accepts the program. The state type with its `bincode` layout,
the sysvars and the derivation of addresses are not part of the repository; they are
parameters.
-/

namespace Svm.LoaderV3

open Machine Run
open MonadExcept (ofExcept)

/-! ## The state of an account -/

inductive UpgradeableLoaderState where
  | Uninitialized
  | Buffer (authorityAddress : Option Pubkey)
  | Program (programdataAddress : Pubkey)
  | ProgramData (slot : UInt64) (upgradeAuthorityAddress : Option Pubkey)
deriving DecidableEq, Repr

namespace UpgradeableLoaderState

def sizeOfUninitialized : Nat := 4
def sizeOfBufferMetadata : Nat := 37
def sizeOfProgramdataMetadata : Nat := 45
def sizeOfProgram : Nat := 36
def sizeOfBuffer (programLen : Nat) : Nat := satAdd 64 sizeOfBufferMetadata programLen
def sizeOfProgramdata (programLen : Nat) : Nat := satAdd 64 sizeOfProgramdataMetadata programLen

/-- `bincode::serialized_size`. -/
def serializedSize : UpgradeableLoaderState → Nat
  | .Uninitialized => 4
  | .Buffer none => 5
  | .Buffer (some _) => 37
  | .Program _ => 36
  | .ProgramData _ none => 13
  | .ProgramData _ (some _) => 45

end UpgradeableLoaderState

open UpgradeableLoaderState

/-- `bincode` on the states, as it is documented. -/
structure StateLibrary where
  deserialize : List UInt8 → Option UpgradeableLoaderState
  serialize : UpgradeableLoaderState → List UInt8
  /-- A state is read from its own encoding and nothing else; more bytes may follow. -/
  deserialize_eq_some : ∀ {data : List UInt8} {state : UpgradeableLoaderState},
    deserialize data = some state ↔ serialize state <+: data
  length_serialize : ∀ state, (serialize state).length = state.serializedSize
  serialize_uninitialized : serialize .Uninitialized = [0, 0, 0, 0]

/-- What the loader reads besides the accounts: `get_clock` as its slot, the derivation
of addresses, the features it asks for and the result of `deploy_program!`. The rent
sysvar and the largest length are those of the system program. -/
structure Environment where
  states : StateLibrary
  system : System.Environment
  clockId : Pubkey
  getClock : Except InstructionError UInt64
  findProgramAddress : (seeds : List (List UInt8)) → (programId : Pubkey) → Pubkey × UInt8
  createProgramAddress : (seeds : List (List UInt8)) → (programId : Pubkey) → Except UInt64 Pubkey
  enableBpfLoaderSetAuthorityCheckedIx : Bool
  enableExtendProgramChecked : Bool
  deployProgram : (programId loaderKey : Pubkey) → (accountSize : Nat) → (programdata : List UInt8) →
    (deploymentSlot : UInt64) → Except InstructionError Unit

inductive UpgradeableLoaderInstruction where
  | InitializeBuffer
  | Write (offset : UInt32) (bytes : List UInt8)
  | DeployWithMaxDataLen (maxDataLen : Nat)
  | Upgrade
  | SetAuthority
  | SetAuthorityChecked
  | Close
  | ExtendProgram (additionalBytes : UInt32)
  | ExtendProgramChecked (additionalBytes : UInt32)
  | Migrate
deriving DecidableEq, Repr

section Instructions

variable (env : Environment) (ctx : TransactionContext) (ic : InstructionContext) (rent : Rent)

/-- `account.get_state()`. -/
def getState (account : BorrowedInstructionAccount) (a : TransactionAccounts) :
    Except InstructionError UpgradeableLoaderState :=
  match env.states.deserialize (account.getData a) with
  | some state => .ok state
  | none => .error .InvalidAccountData

/-- `account.set_state(state)`: the serialized state is written to the start of the data. -/
def setState (account : BorrowedInstructionAccount) (state : UpgradeableLoaderState) : AccountsM Unit :=
  account.writeRange 0 (env.states.serialize state)

/-- `account.get_data().get(offset..).ok_or(AccountDataTooSmall)`. -/
def getDataFrom (account : BorrowedInstructionAccount) (offset : Nat) (a : TransactionAccounts) :
    Except InstructionError (List UInt8) :=
  if offset ≤ (account.getData a).length then .ok ((account.getData a).drop offset) else .error .AccountDataTooSmall

/-- `get_sysvar_with_account_check::rent`. -/
def rentWithAccountCheck (index : UInt16) (a : TransactionAccounts) :
    Except InstructionError ((dataLen : Nat) → UInt64) :=
  System.rentWithAccountCheck env.system ic index a

/-- `get_sysvar_with_account_check::clock`. -/
def clockWithAccountCheck (index : UInt16) (a : TransactionAccounts) : Except InstructionError UInt64 := do
  ic.checkSysvarAccount a env.clockId index
  env.getClock

/-- `max(1, minimum_balance(dataLen))`. -/
def balanceRequired (minimumBalance : (dataLen : Nat) → UInt64) (dataLen : Nat) : UInt64 :=
  max 1 (minimumBalance dataLen)

/-- The authority is the given key, which signs as the account at `index`. -/
def checkSignedBy (authority : Option Pubkey) (key : Pubkey) (index : UInt16) : Except InstructionError Unit := do
  failIf (authority ≠ some key) .IncorrectAuthority
  let isSigner ← ic.isInstructionAccountSigner index
  failIf (!isSigner) .MissingRequiredSignature

/-! ## Calls of the system program -/

/-- A panic is not caught: it is no result of the call. -/
def toInstructionError {α : Type} : Except Fault α → Except InstructionError α
  | .ok a => .ok a
  | .error (.error err) => .error err
  | .error .panic => .error .GenericError

/-- The instruction that `prepare_next_cpi_instruction` configures. -/
def calleeContext (accounts : List AccountMeta) (signers : List Pubkey) (a : TransactionAccounts) :
    Except InstructionError InstructionContext := do
  let (programAccountIndex, instructionAccounts, transactionCalleeMap) ← toInstructionError <|
    InvokeContext.resolveCpi { ctx with accounts := a } ⟨SYSTEM_PROGRAM_ID, accounts, []⟩ signers
  return {
    indexInTrace := ctx.getInstructionTraceLength
    nestingLevel := ctx.getInstructionStackHeight
    indexOfCallerInstruction := ic.indexInTrace
    programAccountIndexInTx := programAccountIndex
    instructionAccounts := instructionAccounts
    dedupMap := transactionCalleeMap
    instructionData := [] }

/-- `native_invoke_signed` of the system program. The instruction is passed decoded; what
entering and leaving the stack checks can only make the call fail. -/
def nativeInvokeSigned (instruction : System.SystemInstruction) (accounts : List AccountMeta)
    (signerSeeds : List (List (List UInt8))) : AccountsM Unit := do
  let signers ← ofExcept <|
    InvokeContext.nativeSigners env.createProgramAddress { ctx with accounts := ← get } signerSeeds
  let callee ← ofExcept (calleeContext ctx ic accounts signers (← get))
  System.processInstruction env.system callee rent instruction

/-! ## Buffers -/

def initializeBuffer : AccountsM Unit := do
  ofExcept (ic.checkNumberOfInstructionAccounts 2)
  withBorrowed ic rent 0 fun buffer => do
    let state ← ofExcept (getState env buffer (← get))
    throwIf (state ≠ .Uninitialized) .AccountAlreadyInitialized
    let authorityKey ← ofExcept (ic.getKeyOfInstructionAccount (← get) 1)
    setState env buffer (.Buffer (some authorityKey))

/-- The checks of a `Write`. -/
def checkWrite (buffer : BorrowedInstructionAccount) (a : TransactionAccounts) : Except InstructionError Unit := do
  let state ← getState env buffer a
  match state with
  | .Buffer authorityAddress =>
    failIf (authorityAddress = none) .Immutable
    let authorityKey ← ic.getKeyOfInstructionAccount a 1
    checkSignedBy ic authorityAddress authorityKey 1
  | _ => .error .InvalidAccountData

def writeProgramData (programDataOffset : Nat) (bytes : List UInt8) : AccountsM Unit :=
  withBorrowed ic rent 0 fun program => program.writeRange programDataOffset bytes

def write (offset : UInt32) (bytes : List UInt8) : AccountsM Unit := do
  ofExcept (ic.checkNumberOfInstructionAccounts 2)
  withBorrowed ic rent 0 fun buffer => do
    ofExcept (checkWrite env ic buffer (← get))
  writeProgramData ic rent (sizeOfBufferMetadata + offset.toNat) bytes

/-- The Buffer account of a deployment or an upgrade, with the authority that signs as
the account at `index`: the length of the program in it. -/
def checkBuffer (buffer : BorrowedInstructionAccount) (authorityKey : Pubkey) (index : UInt16)
    (a : TransactionAccounts) : Except InstructionError Nat := do
  let state ← getState env buffer a
  match state with
  | .Buffer authorityAddress =>
    checkSignedBy ic authorityAddress authorityKey index
    let bufferDataLen := (buffer.getData a).length - sizeOfBufferMetadata
    failIf ((buffer.getData a).length < sizeOfBufferMetadata ∨ bufferDataLen = 0) .InvalidAccountData
    return bufferDataLen
  | _ => .error .InvalidArgument

/-- The program in the buffer, the account at `index`, is loaded and verified. -/
def deployBuffer (index : UInt16) (newProgramId programId : Pubkey) (programdataLen : Nat) (slot : UInt64) :
    AccountsM Unit :=
  withBorrowed ic rent index fun buffer => do
    let program ← ofExcept (getDataFrom buffer sizeOfBufferMetadata (← get))
    ofExcept <|
      env.deployProgram newProgramId programId (satAdd 64 sizeOfProgram programdataLen) program slot

/-! ## Deployment -/

/-- The Program account of a deployment, which gets the address of the program. -/
def checkNewProgram (program : BorrowedInstructionAccount) (minimumBalance : (dataLen : Nat) → UInt64)
    (a : TransactionAccounts) : Except InstructionError Pubkey := do
  let state ← getState env program a
  failIf (state ≠ .Uninitialized) .AccountAlreadyInitialized
  failIf ((program.getData a).length < sizeOfProgram) .AccountDataTooSmall
  failIf (program.getLamports a < minimumBalance (program.getData a).length) .ExecutableAccountNotRentExempt
  return program.getKey a

/-- What the checks of a deployment find out. -/
structure Deployment where
  payerKey : Pubkey
  programdataKey : Pubkey
  authorityKey : Pubkey
  newProgramId : Pubkey
  bufferKey : Pubkey
  bumpSeed : UInt8
  programdataLen : Nat
  lamports : UInt64
  slot : UInt64

variable (programId : Pubkey)

def checkDeployment (maxDataLen : Nat) : AccountsM Deployment := do
  ofExcept (ic.checkNumberOfInstructionAccounts 4)
  let payerKey ← ofExcept (ic.getKeyOfInstructionAccount (← get) 0)
  let programdataKey ← ofExcept (ic.getKeyOfInstructionAccount (← get) 1)
  let minimumBalance ← ofExcept (rentWithAccountCheck env ic 4 (← get))
  let slot ← ofExcept (clockWithAccountCheck env ic 5 (← get))
  ofExcept (ic.checkNumberOfInstructionAccounts 8)
  let authorityKey ← ofExcept (ic.getKeyOfInstructionAccount (← get) 7)
  let newProgramId ← withBorrowed ic rent 2 fun program => do
    ofExcept (checkNewProgram env program minimumBalance (← get))
  let (bufferKey, bufferDataLen) ← withBorrowed ic rent 3 fun buffer => do
    let bufferDataLen ← ofExcept (checkBuffer env ic buffer authorityKey 7 (← get))
    return (buffer.getKey (← get), bufferDataLen)
  let programdataLen := sizeOfProgramdata maxDataLen
  throwIf (maxDataLen < bufferDataLen) .AccountDataTooSmall
  throwIf (env.system.maxPermittedDataLength.toNat < programdataLen) .InvalidArgument
  let (derivedAddress, bumpSeed) := env.findProgramAddress [newProgramId.toList] programId
  throwIf (derivedAddress ≠ programdataKey) .InvalidArgument
  return {
    payerKey, programdataKey, authorityKey, newProgramId, bufferKey, bumpSeed, programdataLen, slot
    lamports := balanceRequired minimumBalance programdataLen }

/-- The buffer's lamports go to the payer before it pays for the ProgramData account. -/
def drainBuffer : AccountsM Unit :=
  withBorrowed ic rent 3 fun buffer => do
    withBorrowed ic rent 0 fun payer => do
      payer.checkedAddLamports (buffer.getLamports (← get))
      buffer.setLamports 0

def createProgramdata (d : Deployment) : AccountsM Unit :=
  nativeInvokeSigned env ctx ic rent (.CreateAccount d.lamports (.ofNat d.programdataLen) programId)
    [⟨d.payerKey, true, true⟩, ⟨d.programdataKey, true, true⟩, ⟨d.bufferKey, false, true⟩]
    [[d.newProgramId.toList, [d.bumpSeed]]]

/-- The ProgramData account is written, and the buffer cut down to its metadata. The
slice that is copied is as long as the one it is copied to: the buffer has not changed
since it was measured. -/
def recordProgramdata (d : Deployment) : AccountsM Unit :=
  withBorrowed ic rent 1 fun programdata => do
    setState env programdata (.ProgramData d.slot (some d.authorityKey))
    withBorrowed ic rent 3 fun buffer => do
      let program ← ofExcept (getDataFrom buffer sizeOfBufferMetadata (← get))
      programdata.writeRange sizeOfProgramdataMetadata program
      buffer.setDataLength (sizeOfBuffer 0)

def recordProgram (d : Deployment) : AccountsM Unit :=
  withBorrowed ic rent 2 fun program => do
    setState env program (.Program d.programdataKey)
    program.setExecutable true

def deployWithMaxDataLen (maxDataLen : Nat) : AccountsM Unit := do
  let d ← checkDeployment env ic rent programId maxDataLen
  drainBuffer ic rent
  createProgramdata env ctx ic rent programId d
  deployBuffer env ic rent 3 d.newProgramId programId d.programdataLen d.slot
  recordProgramdata env ic rent d
  recordProgram env ic rent d

/-! ## Upgrade -/

/-- The Program account of an upgrade. -/
def checkUpgradeProgram (programId programdataKey : Pubkey) (program : BorrowedInstructionAccount)
    (a : TransactionAccounts) : Except InstructionError Pubkey := do
  failIf (!program.isWritable) .InvalidArgument
  failIf (program.getOwner a ≠ programId) .IncorrectProgramId
  let state ← getState env program a
  match state with
  | .Program programdataAddress =>
    failIf (programdataAddress ≠ programdataKey) .InvalidArgument
    return program.getKey a
  | _ => .error .InvalidAccountData

/-- What the checks of an upgrade find out. -/
structure Upgrade where
  newProgramId : Pubkey
  authorityKey : Pubkey
  bufferLamports : UInt64
  bufferDataLen : Nat
  programdataLen : Nat
  programdataBalanceRequired : UInt64
  slot : UInt64

/-- The ProgramData account of an upgrade at a slot. -/
def checkUpgradeProgramdata (authorityKey : Pubkey) (slot : UInt64) (bufferLamports : UInt64) (bufferDataLen : Nat)
    (minimumBalance : (dataLen : Nat) → UInt64) (programdata : BorrowedInstructionAccount) (a : TransactionAccounts) :
    Except InstructionError Unit := do
  failIf ((programdata.getData a).length < sizeOfProgramdata bufferDataLen) .AccountDataTooSmall
  failIf (U64.satAdd (programdata.getLamports a) bufferLamports <
    balanceRequired minimumBalance (programdata.getData a).length) .InsufficientFunds
  let state ← getState env programdata a
  match state with
  | .ProgramData deploymentSlot upgradeAuthorityAddress =>
    failIf (slot = deploymentSlot) .InvalidArgument
    failIf (upgradeAuthorityAddress = none) .Immutable
    checkSignedBy ic upgradeAuthorityAddress authorityKey 6
  | _ => .error .InvalidAccountData

def checkUpgrade : AccountsM Upgrade := do
  ofExcept (ic.checkNumberOfInstructionAccounts 3)
  let programdataKey ← ofExcept (ic.getKeyOfInstructionAccount (← get) 0)
  let minimumBalance ← ofExcept (rentWithAccountCheck env ic 4 (← get))
  let slot ← ofExcept (clockWithAccountCheck env ic 5 (← get))
  ofExcept (ic.checkNumberOfInstructionAccounts 7)
  let authorityKey ← ofExcept (ic.getKeyOfInstructionAccount (← get) 6)
  let newProgramId ← withBorrowed ic rent 1 fun program => do
    ofExcept (checkUpgradeProgram env programId programdataKey program (← get))
  let (bufferLamports, bufferDataLen) ← withBorrowed ic rent 2 fun buffer => do
    let bufferDataLen ← ofExcept (checkBuffer env ic buffer authorityKey 6 (← get))
    return (buffer.getLamports (← get), bufferDataLen)
  let programdataLen ← withBorrowed ic rent 0 fun programdata => do
    ofExcept <|
      checkUpgradeProgramdata env ic authorityKey slot bufferLamports bufferDataLen minimumBalance programdata (← get)
    return (programdata.getData (← get)).length
  return {
    newProgramId, authorityKey, bufferLamports, bufferDataLen, programdataLen, slot
    programdataBalanceRequired := balanceRequired minimumBalance programdataLen }

/-- The ProgramData account takes the bytes of the buffer, and zeros behind them. -/
def recordUpgrade (u : Upgrade) (programdata : BorrowedInstructionAccount) : AccountsM Unit := do
  setState env programdata (.ProgramData u.slot (some u.authorityKey))
  withBorrowed ic rent 2 fun buffer => do
    let program ← ofExcept (getDataFrom buffer sizeOfBufferMetadata (← get))
    programdata.writeRange sizeOfProgramdataMetadata program
  let rest := sizeOfProgramdataMetadata + u.bufferDataLen
  programdata.writeRange rest (List.replicate ((programdata.getData (← get)).length - rest) 0)

/-- The ProgramData account is funded to rent exemption, the rest is spilled. -/
def fundUpgrade (u : Upgrade) (programdata : BorrowedInstructionAccount) : AccountsM Unit :=
  withBorrowed ic rent 2 fun buffer => do
    withBorrowed ic rent 3 fun spill => do
      spill.checkedAddLamports
        (U64.satSub (U64.satAdd (programdata.getLamports (← get)) u.bufferLamports) u.programdataBalanceRequired)
      buffer.setLamports 0
      programdata.setLamports u.programdataBalanceRequired
      buffer.setDataLength (sizeOfBuffer 0)

def upgrade : AccountsM Unit := do
  let u ← checkUpgrade env ic rent programId
  deployBuffer env ic rent 2 u.newProgramId programId u.programdataLen u.slot
  withBorrowed ic rent 0 fun programdata => do
    recordUpgrade env ic rent u programdata
    fundUpgrade ic rent u programdata

/-! ## Authorities -/

/-- With `checked` the new authority, the account at index 2, signs, too. -/
def checkNewAuthority (checked : Bool) : Except InstructionError Unit := do
  if checked then
    let isSigner ← ic.isInstructionAccountSigner 2
    failIf (!isSigner) .MissingRequiredSignature

/-- The state with its new authority. -/
def newAuthorityState (state : UpgradeableLoaderState) (presentAuthorityKey : Pubkey) (newAuthority : Option Pubkey)
    (checked : Bool) : Except InstructionError UpgradeableLoaderState := do
  match state with
  | .Buffer authorityAddress =>
    failIf (newAuthority = none) .IncorrectAuthority
    failIf (authorityAddress = none) .Immutable
    checkSignedBy ic authorityAddress presentAuthorityKey 1
    checkNewAuthority ic checked
    return .Buffer newAuthority
  | .ProgramData slot upgradeAuthorityAddress =>
    failIf (upgradeAuthorityAddress = none) .Immutable
    checkSignedBy ic upgradeAuthorityAddress presentAuthorityKey 1
    checkNewAuthority ic checked
    return .ProgramData slot newAuthority
  | _ => .error .InvalidArgument

def setAuthority : AccountsM Unit := do
  ofExcept (ic.checkNumberOfInstructionAccounts 2)
  withBorrowed ic rent 0 fun account => do
    let presentAuthorityKey ← ofExcept (ic.getKeyOfInstructionAccount (← get) 1)
    let newAuthority := (ic.getKeyOfInstructionAccount (← get) 2).toOption
    let state ← ofExcept (getState env account (← get))
    let state ← ofExcept (newAuthorityState ic state presentAuthorityKey newAuthority false)
    setState env account state

def setAuthorityChecked : AccountsM Unit := do
  throwIf (!env.enableBpfLoaderSetAuthorityCheckedIx) .InvalidInstructionData
  ofExcept (ic.checkNumberOfInstructionAccounts 3)
  withBorrowed ic rent 0 fun account => do
    let presentAuthorityKey ← ofExcept (ic.getKeyOfInstructionAccount (← get) 1)
    let newAuthorityKey ← ofExcept (ic.getKeyOfInstructionAccount (← get) 2)
    let state ← ofExcept (getState env account (← get))
    let state ← ofExcept (newAuthorityState ic state presentAuthorityKey (some newAuthorityKey) true)
    setState env account state

/-! ## Close -/

/-- The lamports of the account that is closed go to the recipient. -/
def refund (closeAccount recipient : BorrowedInstructionAccount) : AccountsM Unit := do
  recipient.checkedAddLamports (closeAccount.getLamports (← get))
  closeAccount.setLamports 0

def commonCloseAccount (authorityAddress : Option Pubkey) : AccountsM Unit := do
  throwIf (authorityAddress = none) .Immutable
  let key ← ofExcept (ic.getKeyOfInstructionAccount (← get) 2)
  ofExcept (checkSignedBy ic authorityAddress key 2)
  withBorrowed ic rent 0 fun closeAccount => do
    withBorrowed ic rent 1 fun recipient => do
      refund closeAccount recipient
      setState env closeAccount .Uninitialized

/-- The Program account of a ProgramData account that is closed. -/
def checkCloseProgram (programId closeKey : Pubkey) (slot : UInt64) (program : BorrowedInstructionAccount)
    (a : TransactionAccounts) : Except InstructionError Unit := do
  failIf (!program.isWritable) .InvalidArgument
  failIf (program.getOwner a ≠ programId) .IncorrectProgramId
  let clock ← env.getClock
  failIf (clock = slot) .InvalidArgument
  let state ← getState env program a
  match state with
  | .Program programdataAddress => failIf (programdataAddress ≠ closeKey) .InvalidArgument
  | _ => .error .InvalidArgument

/-- An uninitialized account is closed at once; the others are closed by more accounts. -/
def closeUninitialized (closeAccount : BorrowedInstructionAccount) : UpgradeableLoaderState → AccountsM Unit
  | .Uninitialized => withBorrowed ic rent 1 fun recipient => refund closeAccount recipient
  | .Buffer _ => ofExcept (ic.checkNumberOfInstructionAccounts 3)
  | .ProgramData _ _ => ofExcept (ic.checkNumberOfInstructionAccounts 4)
  | .Program _ => throw .InvalidArgument

/-- The account is cut down first. Its key and what its state was are returned. -/
def truncateAccount : AccountsM (Pubkey × UpgradeableLoaderState) :=
  withBorrowed ic rent 0 fun closeAccount => do
    let state ← ofExcept (getState env closeAccount (← get))
    closeAccount.setDataLength sizeOfUninitialized
    closeUninitialized ic rent closeAccount state
    return (closeAccount.getKey (← get), state)

def close : AccountsM Unit := do
  ofExcept (ic.checkNumberOfInstructionAccounts 2)
  let closeIndex ← ofExcept (ic.getIndexOfInstructionAccountInTransaction 0)
  let recipientIndex ← ofExcept (ic.getIndexOfInstructionAccountInTransaction 1)
  throwIf (closeIndex = recipientIndex) .InvalidArgument
  let (closeKey, state) ← truncateAccount env ic rent
  match state with
  | .Buffer authorityAddress => commonCloseAccount env ic rent authorityAddress
  | .ProgramData slot authorityAddress =>
    withBorrowed ic rent 3 fun program => do
      ofExcept (checkCloseProgram env programId closeKey slot program (← get))
    commonCloseAccount env ic rent authorityAddress
  | _ => return

/-! ## Extension -/

/-- What the checks of an extension find out. -/
structure Extension where
  programdataKey : Pubkey
  programKey : Pubkey
  newLen : Nat
  slot : UInt64
  upgradeAuthorityAddress : Option Pubkey
  requiredPayment : UInt64

/-- The Program account of an extension. -/
def checkExtendProgram (programId programdataKey : Pubkey) (program : BorrowedInstructionAccount)
    (a : TransactionAccounts) : Except InstructionError Pubkey := do
  failIf (!program.isWritable) .InvalidArgument
  failIf (program.getOwner a ≠ programId) .InvalidAccountOwner
  let state ← getState env program a
  match state with
  | .Program programdataAddress =>
    failIf (programdataAddress ≠ programdataKey) .InvalidArgument
    return program.getKey a
  | _ => .error .InvalidAccountData

/-- The authority of a ProgramData account that is extended at a slot. -/
def checkExtendAuthority (checkAuthority : Bool) (slot : UInt64) (programdata : BorrowedInstructionAccount)
    (a : TransactionAccounts) : Except InstructionError (Option Pubkey) := do
  let state ← getState env programdata a
  match state with
  | .ProgramData deploymentSlot upgradeAuthorityAddress =>
    failIf (slot = deploymentSlot) .InvalidArgument
    failIf (upgradeAuthorityAddress = none) .Immutable
    if checkAuthority then
      let authorityKey ← ic.getKeyOfInstructionAccount a 2
      checkSignedBy ic upgradeAuthorityAddress authorityKey 2
    return upgradeAuthorityAddress
  | _ => .error .InvalidAccountData

def checkExtension (additionalBytes : UInt32) (checkAuthority : Bool) : AccountsM Extension :=
  withBorrowed ic rent 0 fun programdata => do
    let programdataKey := programdata.getKey (← get)
    throwIf (programdata.getOwner (← get) ≠ programId) .InvalidAccountOwner
    throwIf (!programdata.isWritable) .InvalidArgument
    let programKey ← withBorrowed ic rent 1 fun program => do
      ofExcept (checkExtendProgram env programId programdataKey program (← get))
    let newLen := satAdd 64 (programdata.getData (← get)).length additionalBytes.toNat
    throwIf (env.system.maxPermittedDataLength.toNat < newLen) .InvalidRealloc
    let slot ← ofExcept env.getClock
    let upgradeAuthorityAddress ← ofExcept (checkExtendAuthority env ic checkAuthority slot programdata (← get))
    let minimumBalance ← ofExcept env.system.getRent
    return {
      programdataKey, programKey, newLen, slot, upgradeAuthorityAddress
      requiredPayment := U64.satSub (balanceRequired minimumBalance newLen) (programdata.getLamports (← get)) }

def payExtension (optionalPayerAccountIndex : UInt16) (e : Extension) : AccountsM Unit := do
  if 0 < e.requiredPayment then
    let payerKey ← ofExcept (ic.getKeyOfInstructionAccount (← get) optionalPayerAccountIndex)
    nativeInvokeSigned env ctx ic rent (.Transfer e.requiredPayment)
      [⟨payerKey, true, true⟩, ⟨e.programdataKey, false, true⟩] []

def commonExtendProgram (additionalBytes : UInt32) (checkAuthority : Bool) : AccountsM Unit := do
  throwIf (additionalBytes = 0) .InvalidInstructionData
  let e ← checkExtension env ic rent programId additionalBytes checkAuthority
  payExtension env ctx ic rent (if checkAuthority then 4 else 3) e
  withBorrowed ic rent 0 fun programdata => do
    programdata.setDataLength e.newLen
    let program ← ofExcept (getDataFrom programdata sizeOfProgramdataMetadata (← get))
    ofExcept <|
      env.deployProgram e.programKey programId (satAdd 64 sizeOfProgram e.newLen) program e.slot
  withBorrowed ic rent 0 fun programdata =>
    setState env programdata (.ProgramData e.slot e.upgradeAuthorityAddress)

/-! ## The dispatcher -/

/-- The instruction, for the program id of the loader. -/
def processFor : UpgradeableLoaderInstruction → AccountsM Unit
  | .InitializeBuffer => initializeBuffer env ic rent
  | .Write offset bytes => write env ic rent offset bytes
  | .DeployWithMaxDataLen maxDataLen => deployWithMaxDataLen env ctx ic rent programId maxDataLen
  | .Upgrade => upgrade env ic rent programId
  | .SetAuthority => setAuthority env ic rent
  | .SetAuthorityChecked => setAuthorityChecked env ic rent
  | .Close => close env ic rent programId
  | .ExtendProgram additionalBytes => do
    throwIf env.enableExtendProgramChecked .InvalidInstructionData
    commonExtendProgram env ctx ic rent programId additionalBytes false
  | .ExtendProgramChecked additionalBytes => do
    throwIf (!env.enableExtendProgramChecked) .InvalidInstructionData
    commonExtendProgram env ctx ic rent programId additionalBytes true
  | .Migrate => throw .InvalidInstructionData

def processLoaderUpgradeableInstruction (instruction : UpgradeableLoaderInstruction) : AccountsM Unit := do
  let programId ← ofExcept (TransactionContext.getProgramKey { ctx with accounts := ← get } ic)
  processFor env ctx ic rent programId instruction

end Instructions

end Svm.LoaderV3
