import Svm.Framework.Run
import Svm.Impl.InvokeContext
import Svm.Impl.Nonce

/-!
# Loading the accounts of transactions

`account_loader.rs`, `rollback_accounts.rs` and the parts of `rent_calculator.rs` they
use. An `AccountLoader` holds the accounts a batch of transactions has loaded or
changed, in front of the store; an account at zero lamports in it stands for one that
does not exist. The inspection callback, the error counters and the feature set have no
effect on accounts and are left out. `solana_account`, `solana_rent` and the loaders'
state types are not part of the repository: what is read of them is in
`LoadEnvironment`.
-/

namespace Svm

open Run

/-- An account as it is stored: `AccountSharedData`, without who shares its bytes. -/
structure Account where
  lamports : UInt64
  data : List UInt8
  owner : Pubkey
  executable : Bool
  rentEpoch : UInt64
deriving DecidableEq, Repr

/-- `AccountSharedData::default()`. -/
def Account.default : Account := ⟨0, [], .replicate 32 0, false, 0⟩

inductive TransactionError where
  | AccountNotFound
  | BlockhashNotFound
  | InvalidAccountForFee
  | InsufficientFundsForFee
  | InsufficientFundsForRent (accountIndex : UInt8)
  | MaxLoadedAccountsDataSizeExceeded
  | ProgramAccountNotFound
  | InvalidProgramForExecution
  | CommitCancelled
  | UnbalancedTransaction
  | ProgramCacheHitMaxLimit
  /-- Any other error, of the checks before processing or of execution. -/
  | Other (code : Nat)
deriving DecidableEq, Repr

def RENT_EXEMPT_RENT_EPOCH : UInt64 := .ofNat (2 ^ 64 - 1)
def TRANSACTION_ACCOUNT_BASE_SIZE : Nat := 64
def ADDRESS_LOOKUP_TABLE_BASE_SIZE : Nat := 8248

/-! ## Messages -/

/-- What the methods of `SVMTransaction` and `SVMMessage` return. -/
structure SVMTransaction extends SVMMessage where
  accountKeys : List Pubkey
  feePayer : Pubkey
  recentBlockhash : Hash
  numLookupTables : Nat
  isInvoked : (index : Nat) → Bool
  programInstructions : List (Pubkey × SVMInstruction)

namespace SVMTransaction

def isInstructionAccount (m : SVMTransaction) (keyIndex : Nat) : Bool :=
  decide (keyIndex < 256) && m.instructions.any fun ix => ix.accounts.contains (.ofNat keyIndex)

def getIxSigners (m : SVMTransaction) (index : Nat) : List Pubkey :=
  match m.instructions[index]? with
  | none => []
  | some ix => (ix.accounts.map UInt8.toNat).filter m.isSigner |>.filterMap (m.accountKeys[·]?)

end SVMTransaction

/-- `SVMTransactionExecutionAndFeeBudgetLimits`: the fees in total, and the limit on
loaded data. The compute budget only bounds execution. -/
structure BudgetLimits where
  totalFee : UInt64
  loadedAccountsDataSizeLimit : Nat
deriving DecidableEq, Repr

structure CheckedTransactionDetails where
  nonceAddress : Option Pubkey
  computeBudgetAndLimits : BudgetLimits
deriving DecidableEq, Repr

/-- What loading reads of its environment. -/
structure LoadEnvironment where
  rent : Rent
  minimumBalance : (dataLen : Nat) → UInt64
  nonces : NonceLibrary
  /-- The data as `UpgradeableLoaderState::Program`. -/
  programdataAddress : List UInt8 → Option Pubkey
  constructInstructionsData : SVMTransaction → List UInt8
  incineratorId : Pubkey
  sysvarId : Pubkey
  sysvarInstructionsId : Pubkey
  slotHistoryId : Pubkey
  bpfLoaderUpgradeableId : Pubkey
  nativeLoaderId : Pubkey
  programOwners : List Pubkey

/-! ## The loader -/

structure LoadedTransactionAccount where
  account : Account
  loadedSize : Nat
deriving DecidableEq, Repr

structure AccountLoader where
  loadedAccounts : Pubkey → Option (Account × Slot)
  /-- `callbacks.get_account_shared_data`. -/
  callbacks : Pubkey → Option (Account × Slot)

/-- Code that loads accounts and may fail. What it loaded stays loaded. -/
abbrev LoaderM := EStateM TransactionError AccountLoader

namespace AccountLoader

def insert (l : AccountLoader) (key : Pubkey) (account : Account × Slot) : AccountLoader :=
  { l with loadedAccounts := fun k => if k = key then some account else l.loadedAccounts k }

def new (env : LoadEnvironment) (slotHistory : Option Account) (callbacks : Pubkey → Option (Account × Slot)) :
    AccountLoader :=
  let l : AccountLoader := { loadedAccounts := fun _ => none, callbacks := callbacks }
  match slotHistory with
  | some account => l.insert env.slotHistoryId (account, 0)
  | none => l

/-- The account, and whether the store was asked for it. -/
def doLoad (l : AccountLoader) (key : Pubkey) : Option (Account × Slot) × Bool :=
  match l.loadedAccounts key with
  | some (account, slot) =>
    -- At zero lamports an earlier transaction has deallocated the account.
    (if account.lamports = 0 then none else some (account, slot), false)
  | none => (l.callbacks key, true)

/-- `get_account_shared_data` of the loader as a callback itself. -/
def getAccountSharedData (l : AccountLoader) (key : Pubkey) : Option (Account × Slot) := (l.doLoad key).1

def loadAccount (key : Pubkey) : LoaderM (Option Account) := fun l =>
  match l.doLoad key with
  | (some (account, _), false) => .ok (some account) l
  | (none, false) => .ok none l
  | (some (account, slot), true) => .ok (some account) (l.insert key (account, slot))
  | (none, true) => .ok none (l.insert key (.default, 0))

/-- `load_transaction_account` of the loader, which the fee payer, the nonce account and
the other accounts of a transaction are loaded with. -/
def loadTransactionAccount (key : Pubkey) : LoaderM (Option LoadedTransactionAccount) := do
  let account ← loadAccount key
  return account.map fun account =>
    { account := account, loadedSize := Machine.satAdd 64 TRANSACTION_ACCOUNT_BASE_SIZE account.data.length }

end AccountLoader

/-! ## Rent and fees -/

inductive RentState where
  | Uninitialized
  | RentPaying (lamports : UInt64) (dataSize : Nat)
  | RentExempt
deriving DecidableEq, Repr

def getAccountRentState (rent : Rent) (accountLamports : UInt64) (accountSize : Nat) : RentState :=
  if accountLamports = 0 then .Uninitialized
  else if rent.isExempt accountLamports accountSize then .RentExempt
  else .RentPaying accountLamports accountSize

def transitionAllowed (preRentState postRentState : RentState) : Bool :=
  match postRentState with
  | .Uninitialized | .RentExempt => true
  | .RentPaying postLamports postDataSize =>
    match preRentState with
    | .Uninitialized | .RentExempt => false
    | .RentPaying preLamports preDataSize => decide (postDataSize = preDataSize) && decide (postLamports ≤ preLamports)

variable (env : LoadEnvironment)

def checkRentStateWithAccount (preRentState postRentState : RentState) (address : Pubkey)
    (accountIndex : Nat) : Except TransactionError Unit :=
  failIf (address ≠ env.incineratorId ∧ transitionAllowed preRentState postRentState = false)
    (.InsufficientFundsForRent (.ofNat accountIndex))

def updateRentExemptStatusForAccount (rent : Rent) (account : Account) : Account :=
  if account.rentEpoch ≠ RENT_EXEMPT_RENT_EPOCH ∧ rent.isExempt account.lamports account.data.length then
    { account with rentEpoch := RENT_EXEMPT_RENT_EPOCH }
  else account

/-- The payer account with the fee subtracted. -/
def validateFeePayer (payerAddress : Pubkey) (payerAccount : Account) (payerIndex : Nat)
    (fee : UInt64) : Except TransactionError Account := do
  failIf (payerAccount.lamports = 0) .AccountNotFound
  let systemAccountKind ←
    (env.nonces.getSystemAccountKind payerAccount.owner payerAccount.data).elim (.error .InvalidAccountForFee) .ok
  let minBalance : UInt64 := match systemAccountKind with
    | .System => 0
    | .Nonce => env.minimumBalance env.nonces.size
  failIf (((Machine.U64.checkedSub payerAccount.lamports minBalance).bind (Machine.U64.checkedSub · fee)) = none)
    .InsufficientFundsForFee
  let preRentState := getAccountRentState env.rent payerAccount.lamports payerAccount.data.length
  let lamports ← (Machine.U64.checkedSub payerAccount.lamports fee).elim (.error .InsufficientFundsForFee) .ok
  let postRentState := getAccountRentState env.rent lamports payerAccount.data.length
  checkRentStateWithAccount env preRentState postRentState payerAddress payerIndex
  return { payerAccount with lamports := lamports }

/-! ## Rollback accounts -/

structure NonceInfo where
  address : Pubkey
  account : Account
deriving DecidableEq, Repr

inductive RollbackAccounts where
  | FeePayerOnly (feePayer : Pubkey × Account)
  | SameNonceAndFeePayer (nonce : Pubkey × Account)
  | SeparateNonceAndFeePayer (nonce feePayer : Pubkey × Account)
deriving DecidableEq, Repr

namespace RollbackAccounts

def new (nonce : Option NonceInfo) (feePayerAddress : Pubkey) (feePayerAccount : Account)
    (feePayerLoadedRentEpoch : UInt64) : RollbackAccounts :=
  match nonce with
  | some nonce =>
    if feePayerAddress = nonce.address then
      .SameNonceAndFeePayer (feePayerAddress, { feePayerAccount with data := nonce.account.data })
    else .SeparateNonceAndFeePayer (nonce.address, nonce.account) (feePayerAddress, feePayerAccount)
  | none => .FeePayerOnly (feePayerAddress, { feePayerAccount with rentEpoch := feePayerLoadedRentEpoch })

/-- The accounts in the order of the iterator. -/
def accounts : RollbackAccounts → List (Pubkey × Account)
  | .FeePayerOnly feePayer => [feePayer]
  | .SameNonceAndFeePayer nonce => [nonce]
  | .SeparateNonceAndFeePayer nonce feePayer => [feePayer, nonce]

end RollbackAccounts

/-! ## Loading a transaction -/

structure ValidatedTransactionDetails where
  rollbackAccounts : RollbackAccounts
  loadedAccountsBytesLimit : Nat
  totalFee : UInt64
  loadedFeePayerAccount : LoadedTransactionAccount
deriving DecidableEq, Repr

structure LoadedTransaction where
  accounts : List (Pubkey × Account)
  totalFee : UInt64
  rollbackAccounts : RollbackAccounts
  loadedAccountsDataSize : Nat
deriving DecidableEq, Repr

structure FeesOnlyTransaction where
  loadError : TransactionError
  rollbackAccounts : RollbackAccounts
  totalFee : UInt64
deriving DecidableEq, Repr

inductive TransactionLoadResult where
  | Loaded (loadedTransaction : LoadedTransaction)
  | FeesOnly (feesOnlyTransaction : FeesOnlyTransaction)
  | NotLoaded (err : TransactionError)
deriving DecidableEq, Repr

/-- The accounts collected so far, their size (a `u32`), and the programdata accounts
that were counted without being among them. -/
structure LoadedTransactionAccounts where
  accounts : List (Pubkey × Account)
  loadedAccountsDataSize : Nat
  additionalLoadedAccounts : List Pubkey

def increaseCalculatedDataSize (loadedAccountsDataSize dataSizeDelta limit : Nat) : Except TransactionError Nat := do
  failIf (2 ^ 32 ≤ dataSizeDelta) .MaxLoadedAccountsDataSizeExceeded
  let size := Machine.satAdd 32 loadedAccountsDataSize dataSizeDelta
  failIf (limit < size) .MaxLoadedAccountsDataSizeExceeded
  return size

open AccountLoader

variable (message : SVMTransaction)

/-- The programdata account of a program of loader-v3 is counted once. -/
def collectProgramdata (limit : Nat) (programdataAddress : Pubkey) (c : LoadedTransactionAccounts) :
    LoaderM LoadedTransactionAccounts := do
  if programdataAddress ∈ message.accountKeys ∨ programdataAddress ∈ c.additionalLoadedAccounts then
    return c
  else
    let programdataAccount ← loadAccount programdataAddress
    match programdataAccount with
    | none => return c
    | some account =>
      let size ← MonadExcept.ofExcept <| increaseCalculatedDataSize c.loadedAccountsDataSize
        (Machine.satAdd 64 TRANSACTION_ACCOUNT_BASE_SIZE account.data.length) limit
      return { c with
        loadedAccountsDataSize := size
        additionalLoadedAccounts := programdataAddress :: c.additionalLoadedAccounts }

def collectLoadedAccount (limit : Nat) (c : LoadedTransactionAccounts)
    (key : Pubkey) (loadedAccount : LoadedTransactionAccount) : LoaderM LoadedTransactionAccounts := do
  let size ← MonadExcept.ofExcept <|
    increaseCalculatedDataSize c.loadedAccountsDataSize loadedAccount.loadedSize limit
  let c := { c with loadedAccountsDataSize := size }
  let programdata :=
    if loadedAccount.account.owner = env.bpfLoaderUpgradeableId then
      env.programdataAddress loadedAccount.account.data
    else none
  let c ← match programdata with
    | some programdataAddress => collectProgramdata message limit programdataAddress c
    | none => pure c
  return { c with accounts := c.accounts ++ [(key, loadedAccount.account)] }

def constructInstructionsAccount : Account :=
  { Account.default with data := env.constructInstructionsData message, owner := env.sysvarId }

/-- `load_transaction_account` of the transaction. -/
def loadMessageAccount (accountIndex : Nat) (accountKey : Pubkey) :
    LoaderM LoadedTransactionAccount := do
  if accountKey = env.sysvarInstructionsId then
    return { account := constructInstructionsAccount env message, loadedSize := 0 }
  else
    let loaded ← loadTransactionAccount accountKey
    match loaded with
    | some loaded =>
      if message.isWritable accountIndex then
        return { loaded with account := updateRentExemptStatusForAccount env.rent loaded.account }
      else return loaded
    | none => return { account := { Account.default with rentEpoch := RENT_EXEMPT_RENT_EPOCH }, loadedSize := 0 }

/-- Every program that is invoked exists and is owned by a loader. -/
def checkProgram (programId : Pubkey) : LoaderM PUnit := do
  let programAccount ← loadAccount programId
  match programAccount with
  | none => throw .ProgramAccountNotFound
  | some account =>
    throwIf (account.owner ≠ env.nativeLoaderId ∧ account.owner ∉ env.programOwners) .InvalidProgramForExecution

def loadTransactionAccounts
    (loadedFeePayerAccount : LoadedTransactionAccount) (limit : Nat) : LoaderM LoadedTransactionAccounts := do
  let size ← MonadExcept.ofExcept <| increaseCalculatedDataSize 0
    (Machine.satMul 64 message.numLookupTables ADDRESS_LOOKUP_TABLE_BASE_SIZE) limit
  let c : LoadedTransactionAccounts := { accounts := [], loadedAccountsDataSize := size, additionalLoadedAccounts := [] }
  -- The fee payer was loaded during validation.
  let c ← collectLoadedAccount env message limit c message.feePayer loadedFeePayerAccount
  let c ← (message.accountKeys.zipIdx.drop 1).foldlM (fun c (key, index) => do
    let loadedAccount ← loadMessageAccount env message index key
    collectLoadedAccount env message limit c key loadedAccount) c
  message.programInstructions.forM fun (programId, _) => checkProgram env programId
  return c

def loadTransaction
    (validationResult : Except TransactionError ValidatedTransactionDetails) : LoaderM TransactionLoadResult := do
  match validationResult with
  | .error e => return .NotLoaded e
  | .ok txDetails =>
    let loadResult ← attempt <|
      loadTransactionAccounts env message txDetails.loadedFeePayerAccount txDetails.loadedAccountsBytesLimit
    match loadResult with
    | .ok c =>
      return .Loaded {
        accounts := c.accounts
        totalFee := txDetails.totalFee
        rollbackAccounts := txDetails.rollbackAccounts
        loadedAccountsDataSize := c.loadedAccountsDataSize }
    | .error err =>
      return .FeesOnly {
        loadError := err
        rollbackAccounts := txDetails.rollbackAccounts
        totalFee := txDetails.totalFee }

/-! ## Results -/

structure ExecutedTransaction where
  loadedTransaction : LoadedTransaction
  status : Except TransactionError Unit

inductive ProcessedTransaction where
  | Executed (executedTransaction : ExecutedTransaction)
  | FeesOnly (feesOnlyTransaction : FeesOnlyTransaction)

namespace AccountLoader

def insertAll (l : AccountLoader) (slot : Slot) (accounts : List (Pubkey × Account)) : AccountLoader :=
  accounts.foldl (fun l (key, account) => l.insert key (account, slot)) l

def updateAccountsForFailedTx (l : AccountLoader) (rollbackAccounts : RollbackAccounts) (currentSlot : Slot) :
    AccountLoader :=
  l.insertAll currentSlot rollbackAccounts.accounts

/-- The accounts of a successful transaction that are stored. An account that is invoked
and not passed to a program cannot have been modified. -/
def accountsToStore (message : SVMTransaction) (transactionAccounts : List (Pubkey × Account)) :
    List (Pubkey × Account) :=
  ((transactionAccounts.take message.accountKeys.length).zipIdx.filter fun (_, i) =>
    message.isWritable i && !(message.isInvoked i && !message.isInstructionAccount i)).map Prod.fst

def updateAccountsForSuccessfulTx (l : AccountLoader) (message : SVMTransaction)
    (transactionAccounts : List (Pubkey × Account)) (currentSlot : Slot) : AccountLoader :=
  l.insertAll currentSlot (accountsToStore message transactionAccounts)

end AccountLoader

end Svm
