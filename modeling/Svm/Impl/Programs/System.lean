import Svm.Impl.Nonce
import Svm.Impl.Programs.Common

/-!
# The system program

`system_processor.rs` and `system_instruction.rs`: creating, allocating and assigning
accounts, transfers, and the instructions on nonce accounts. An instruction arrives
decoded. The instruction type, the sysvars' values, `Pubkey::create_with_seed` and the
nonce crates are not part of the repository; they are parameters.
-/

namespace Svm.System

open Machine Run
open MonadExcept (ofExcept)

inductive SystemError where
  | AccountAlreadyInUse
  | ResultWithNegativeLamports
  | InvalidAccountDataLength
  | AddressWithSeedMismatch
  | NonceNoRecentBlockhashes
  | NonceBlockhashNotExpired
deriving DecidableEq, Repr

structure Environment where
  nonces : NonceLibrary
  blockhash : Hash
  blockhashLamportsPerSignature : UInt64
  /-- The code of a `SystemError` as an instruction error. -/
  errorCode : SystemError → UInt64
  /-- `Pubkey::create_with_seed`, its errors as the program maps them. -/
  createWithSeed : (base : Pubkey) → (seed : List UInt8) → (owner : Pubkey) → Except InstructionError Pubkey
  maxPermittedDataLength : UInt64
  createAccountAllowPrefund : Bool
  rentId : Pubkey
  recentBlockhashesId : Pubkey
  getRent : Except InstructionError ((dataLen : Nat) → UInt64)
  /-- Whether the list of recent blockhashes is empty. -/
  getRecentBlockhashes : Except InstructionError Bool

def Environment.systemError (env : Environment) (e : SystemError) : InstructionError := .Custom (env.errorCode e)

inductive SystemInstruction where
  | CreateAccount (lamports space : UInt64) (owner : Pubkey)
  | CreateAccountWithSeed (base : Pubkey) (seed : List UInt8) (lamports space : UInt64) (owner : Pubkey)
  | Assign (owner : Pubkey)
  | Transfer (lamports : UInt64)
  | TransferWithSeed (lamports : UInt64) (fromSeed : List UInt8) (fromOwner : Pubkey)
  | AdvanceNonceAccount
  | WithdrawNonceAccount (lamports : UInt64)
  | InitializeNonceAccount (authorized : Pubkey)
  | AuthorizeNonceAccount (nonceAuthority : Pubkey)
  | UpgradeNonceAccount
  | Allocate (space : UInt64)
  | AllocateWithSeed (base : Pubkey) (seed : List UInt8) (space : UInt64) (owner : Pubkey)
  | AssignWithSeed (base : Pubkey) (seed : List UInt8) (owner : Pubkey)
  | CreateAccountAllowPrefund (lamports space : UInt64) (owner : Pubkey)
deriving DecidableEq, Repr

/-! ## Addresses -/

/-- An address that may have been generated from a seed. -/
structure Address where
  address : Pubkey
  base : Option Pubkey
deriving DecidableEq, Repr

def Address.isSigner (address : Address) (signers : List Pubkey) : Bool :=
  match address.base with
  | some base => signers.contains base
  | none => signers.contains address.address

section Instructions

variable (env : Environment) (ic : InstructionContext) (rent : Rent)

def Address.create (address : Pubkey) (withSeed : Option (Pubkey × List UInt8 × Pubkey)) :
    Except InstructionError Address := do
  match withSeed with
  | some (base, seed, owner) =>
    let addressWithSeed ← env.createWithSeed base seed owner
    failIf (address ≠ addressWithSeed) (env.systemError .AddressWithSeedMismatch)
    return { address := address, base := some base }
  | none => return { address := address, base := none }

/-! ## Accounts -/

variable (account : BorrowedInstructionAccount)

def allocate (address : Address) (space : UInt64) (signers : List Pubkey) :
    AccountsM Unit := do
  throwIf (!address.isSigner signers) .MissingRequiredSignature
  let a ← get
  throwIf (account.getData a ≠ [] ∨ account.getOwner a ≠ SYSTEM_PROGRAM_ID) (env.systemError .AccountAlreadyInUse)
  throwIf (env.maxPermittedDataLength < space) (env.systemError .InvalidAccountDataLength)
  account.setDataLength space.toNat

def assign (address : Address) (owner : Pubkey) (signers : List Pubkey) :
    AccountsM Unit := do
  let a ← get
  if account.getOwner a = owner then return
  else
    throwIf (!address.isSigner signers) .MissingRequiredSignature
    account.setOwner owner

def allocateAndAssign (target : BorrowedInstructionAccount) (toAddress : Address) (space : UInt64) (owner : Pubkey)
    (signers : List Pubkey) : AccountsM Unit := do
  allocate env target toAddress space signers
  assign target toAddress owner signers

variable (fromAccountIndex toAccountIndex : UInt16)

def transferVerified (lamports : UInt64) : AccountsM Unit := do
  withBorrowed ic rent fromAccountIndex fun source => do
    let a ← get
    throwIf (source.getData a ≠ []) .InvalidArgument
    throwIf (source.getLamports a < lamports) (env.systemError .ResultWithNegativeLamports)
    source.checkedSubLamports lamports
  withBorrowed ic rent toAccountIndex fun target => target.checkedAddLamports lamports

def transfer (lamports : UInt64) : AccountsM Unit := do
  let isSigner ← ofExcept (ic.isInstructionAccountSigner fromAccountIndex)
  throwIf (!isSigner) .MissingRequiredSignature
  transferVerified env ic rent fromAccountIndex toAccountIndex lamports

def transferWithSeed (fromAccountIndex fromBaseAccountIndex : UInt16) (fromSeed : List UInt8) (fromOwner : Pubkey)
    (toAccountIndex : UInt16) (lamports : UInt64) : AccountsM Unit := do
  let isSigner ← ofExcept (ic.isInstructionAccountSigner fromBaseAccountIndex)
  throwIf (!isSigner) .MissingRequiredSignature
  let base ← ofExcept (ic.getKeyOfInstructionAccount (← get) fromBaseAccountIndex)
  let addressFromSeed ← ofExcept (env.createWithSeed base fromSeed fromOwner)
  let fromKey ← ofExcept (ic.getKeyOfInstructionAccount (← get) fromAccountIndex)
  throwIf (fromKey ≠ addressFromSeed) (env.systemError .AddressWithSeedMismatch)
  transferVerified env ic rent fromAccountIndex toAccountIndex lamports

def createAccount (toAddress : Address) (lamports space : UInt64)
    (owner : Pubkey) (signers : List Pubkey) : AccountsM Unit := do
  withBorrowed ic rent toAccountIndex fun target => do
    let a ← get
    throwIf (0 < target.getLamports a) (env.systemError .AccountAlreadyInUse)
    allocateAndAssign env target toAddress space owner signers
  transfer env ic rent fromAccountIndex toAccountIndex lamports

def createAccountAllowPrefund (toAccountIndex : UInt16) (toAddress : Address)
    (fromAndLamports : Option (UInt16 × UInt64)) (space : UInt64) (owner : Pubkey) (signers : List Pubkey) :
    AccountsM Unit := do
  withBorrowed ic rent toAccountIndex fun target => allocateAndAssign env target toAddress space owner signers
  match fromAndLamports with
  | some (fromAccountIndex, lamports) =>
    if 0 < lamports then transfer env ic rent fromAccountIndex toAccountIndex lamports
    else return
  | none => return

/-! ## Nonce accounts -/

/-- `get_state::<Versions>()`. -/
def getVersions (data : List UInt8) : Except InstructionError NonceVersions :=
  match env.nonces.deserialize data with
  | some versions => .ok versions
  | none => .error .InvalidAccountData

/-- `set_state`: the serialized state is written to the start of the data. -/
def setVersions (versions : NonceVersions) : AccountsM Unit :=
  account.writeRange 0 (env.nonces.serialize versions)

/-- The data of a nonce of the environment's blockhash. -/
def nextData (authority : Pubkey) : NonceData where
  authority := authority
  durableNonce := env.nonces.fromBlockhash env.blockhash
  lamportsPerSignature := env.blockhashLamportsPerSignature

def advanceNonceAccount (signers : List Pubkey) : AccountsM Unit := do
  throwIf (!account.isWritable) .InvalidArgument
  let versions ← ofExcept (getVersions env (account.getData (← get)))
  match versions.state with
  | .Initialized data =>
    throwIf (data.authority ∉ signers) .MissingRequiredSignature
    throwIf (data.durableNonce = env.nonces.fromBlockhash env.blockhash)
      (env.systemError .NonceBlockhashNotExpired)
    setVersions env account (.new (.Initialized (nextData env data.authority)))
  | .Uninitialized => throw .InvalidAccountData

/-- The checks of `withdraw_nonce_account`, and the key that must sign. A nonce account
that is emptied becomes uninitialized. -/
def prepareWithdrawal (source : BorrowedInstructionAccount) (lamports : UInt64)
    (minimumBalance : (dataLen : Nat) → UInt64) : AccountsM Pubkey := do
  let a ← get
  let versions ← ofExcept (getVersions env (source.getData a))
  match versions.state with
  | .Uninitialized =>
    throwIf (source.getLamports a < lamports) .InsufficientFunds
    return source.getKey a
  | .Initialized data =>
    if lamports = source.getLamports a then
      throwIf (data.durableNonce = env.nonces.fromBlockhash env.blockhash)
        (env.systemError .NonceBlockhashNotExpired)
      setVersions env source (.new .Uninitialized)
      return data.authority
    else
      throwIf ((U64.checkedAdd lamports (minimumBalance (source.getData a).length)).all
        fun amount => source.getLamports a < amount) .InsufficientFunds
      return data.authority

def withdrawNonceAccount (fromAccountIndex : UInt16) (lamports : UInt64) (toAccountIndex : UInt16)
    (minimumBalance : (dataLen : Nat) → UInt64) (signers : List Pubkey) : AccountsM Unit := do
  withBorrowed ic rent fromAccountIndex fun source => do
    throwIf (!source.isWritable) .InvalidArgument
    let signer ← prepareWithdrawal env source lamports minimumBalance
    throwIf (signer ∉ signers) .MissingRequiredSignature
    source.checkedSubLamports lamports
  withBorrowed ic rent toAccountIndex fun target => target.checkedAddLamports lamports

def initNonceAccount (nonceAuthority : Pubkey)
    (minimumBalance : (dataLen : Nat) → UInt64) : AccountsM Unit := do
  throwIf (!account.isWritable) .InvalidArgument
  let a ← get
  let versions ← ofExcept (getVersions env (account.getData a))
  match versions.state with
  | .Uninitialized =>
    throwIf (account.getLamports a < minimumBalance (account.getData a).length) .InsufficientFunds
    setVersions env account (.new (.Initialized (nextData env nonceAuthority)))
  | .Initialized _ => throw .InvalidAccountData

def authorizeNonceAccount (nonceAuthority : Pubkey) (signers : List Pubkey) :
    AccountsM Unit := do
  throwIf (!account.isWritable) .InvalidArgument
  let versions ← ofExcept (getVersions env (account.getData (← get)))
  match env.nonces.authorize versions signers nonceAuthority with
  | .ok versions => setVersions env account versions
  | .error .Uninitialized => throw .InvalidAccountData
  | .error .MissingRequiredSignature => throw .MissingRequiredSignature

def upgradeNonceAccount : AccountsM Unit := do
  let a ← get
  throwIf (account.getOwner a ≠ SYSTEM_PROGRAM_ID) .InvalidAccountOwner
  throwIf (!account.isWritable) .InvalidArgument
  let versions ← ofExcept (getVersions env (account.getData a))
  match env.nonces.upgrade versions with
  | none => throw .InvalidArgument
  | some versions => setVersions env account versions

/-! ## The processor -/

/-- `get_sysvar_with_account_check::recent_blockhashes`, and that the list is not empty. -/
def checkRecentBlockhashes (index : UInt16) (a : TransactionAccounts) : Except InstructionError Unit := do
  ic.checkSysvarAccount a env.recentBlockhashesId index
  let isEmpty ← env.getRecentBlockhashes
  failIf isEmpty (env.systemError .NonceNoRecentBlockhashes)

/-- `get_sysvar_with_account_check::rent`. -/
def rentWithAccountCheck (index : UInt16) (a : TransactionAccounts) :
    Except InstructionError ((dataLen : Nat) → UInt64) := do
  ic.checkSysvarAccount a env.rentId index
  env.getRent

/-- Runs `body` on the account at index 0 and its address. -/
def withAddressed (withSeed : Option (Pubkey × List UInt8 × Pubkey))
    (body : BorrowedInstructionAccount → Address → AccountsM Unit) : AccountsM Unit := do
  ofExcept (ic.checkNumberOfInstructionAccounts 1)
  withBorrowed ic rent 0 fun account => do
    let key ← ofExcept (ic.getKeyOfInstructionAccount (← get) 0)
    let address ← ofExcept (Address.create env key withSeed)
    body account address

def processCreateAccount (withSeed : Option (Pubkey × List UInt8 × Pubkey)) (lamports space : UInt64)
    (owner : Pubkey) (signers : List Pubkey) : AccountsM Unit := do
  ofExcept (ic.checkNumberOfInstructionAccounts 2)
  let key ← ofExcept (ic.getKeyOfInstructionAccount (← get) 1)
  let toAddress ← ofExcept (Address.create env key withSeed)
  createAccount env ic rent 0 1 toAddress lamports space owner signers

def processWithdrawNonceAccount (lamports : UInt64) (signers : List Pubkey) : AccountsM Unit := do
  ofExcept (ic.checkNumberOfInstructionAccounts 2)
  ofExcept (ic.checkSysvarAccount (← get) env.recentBlockhashesId 2)
  let _ ← ofExcept env.getRecentBlockhashes
  let minimumBalance ← ofExcept (rentWithAccountCheck env ic 3 (← get))
  withdrawNonceAccount env ic rent 0 lamports 1 minimumBalance signers

def processCreateAccountAllowPrefund (lamports space : UInt64) (owner : Pubkey) (signers : List Pubkey) :
    AccountsM Unit := do
  throwIf (!env.createAccountAllowPrefund) .InvalidInstructionData
  ofExcept (ic.checkNumberOfInstructionAccounts (if 0 < lamports then 2 else 1))
  let key ← ofExcept (ic.getKeyOfInstructionAccount (← get) 0)
  let toAddress ← ofExcept (Address.create env key none)
  createAccountAllowPrefund env ic rent 0 toAddress (if 0 < lamports then some (1, lamports) else none) space owner
    signers

/-- `process_instruction`, for the signers of the instruction. -/
def processSigned (signers : List Pubkey) : SystemInstruction → AccountsM Unit
  | .CreateAccount lamports space owner => processCreateAccount env ic rent none lamports space owner signers
  | .CreateAccountWithSeed base seed lamports space owner =>
    processCreateAccount env ic rent (some (base, seed, owner)) lamports space owner signers
  | .Assign owner => withAddressed env ic rent none fun account address => assign account address owner signers
  | .Transfer lamports => do
    ofExcept (ic.checkNumberOfInstructionAccounts 2)
    transfer env ic rent 0 1 lamports
  | .TransferWithSeed lamports fromSeed fromOwner => do
    ofExcept (ic.checkNumberOfInstructionAccounts 3)
    transferWithSeed env ic rent 0 1 fromSeed fromOwner 2 lamports
  | .AdvanceNonceAccount => do
    ofExcept (ic.checkNumberOfInstructionAccounts 1)
    withBorrowed ic rent 0 fun me => do
      ofExcept (checkRecentBlockhashes env ic 1 (← get))
      advanceNonceAccount env me signers
  | .WithdrawNonceAccount lamports => processWithdrawNonceAccount env ic rent lamports signers
  | .InitializeNonceAccount authorized => do
    ofExcept (ic.checkNumberOfInstructionAccounts 1)
    withBorrowed ic rent 0 fun me => do
      ofExcept (checkRecentBlockhashes env ic 1 (← get))
      let minimumBalance ← ofExcept (rentWithAccountCheck env ic 2 (← get))
      initNonceAccount env me authorized minimumBalance
  | .AuthorizeNonceAccount nonceAuthority => do
    ofExcept (ic.checkNumberOfInstructionAccounts 1)
    withBorrowed ic rent 0 fun me => authorizeNonceAccount env me nonceAuthority signers
  | .UpgradeNonceAccount => do
    ofExcept (ic.checkNumberOfInstructionAccounts 1)
    withBorrowed ic rent 0 fun account => upgradeNonceAccount env account
  | .Allocate space => withAddressed env ic rent none fun account address => allocate env account address space signers
  | .AllocateWithSeed base seed space owner =>
    withAddressed env ic rent (some (base, seed, owner)) fun account address =>
      allocateAndAssign env account address space owner signers
  | .AssignWithSeed base seed owner =>
    withAddressed env ic rent (some (base, seed, owner)) fun account address => assign account address owner signers
  | .CreateAccountAllowPrefund lamports space owner =>
    processCreateAccountAllowPrefund env ic rent lamports space owner signers

def processInstruction (instruction : SystemInstruction) : AccountsM Unit := do
  let signers ← ofExcept (ic.getSigners (← get))
  processSigned env ic rent signers instruction

end Instructions

end Svm.System
