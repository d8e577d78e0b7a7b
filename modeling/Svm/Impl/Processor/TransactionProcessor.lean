import Svm.Impl.Processor.AccountLoader

/-!
# Processing a batch of transactions

`load_and_execute_sanitized_transactions` of `transaction_processor.rs`, as far as
accounts are concerned: each transaction in turn is validated (its nonce, then its fee
payer), loaded, executed and written back to the account loader. The execution of a
loaded transaction is a parameter. The batch's program cache, timings and metrics are
left out; the collector of balances loads accounts and is kept for that.
-/

namespace Svm

open Run AccountLoader

structure ProcessingEnvironment extends LoadEnvironment where
  blockhash : Hash
  blockhashLamportsPerSignature : UInt64
  /-- The slot of the processor. -/
  slot : Slot
  /-- The status and the accounts after executing a loaded transaction. -/
  execute : SVMTransaction → LoadedTransaction → Except TransactionError Unit × List (Pubkey × Account)
  isKnownSplTokenId : Pubkey → Bool
  /-- The mint of a token account, of `generic_token::Account::unpack`. -/
  unpackMint : (data : List UInt8) → (programId : Pubkey) → Option Pubkey

structure ProcessingConfig where
  allOrNothing : Bool
  dropOnFailure : Bool
  enableTransactionBalanceRecording : Bool
  slotHistoryOverride : Option Account

/-! ## Validation -/

/-- Index of the instruction that advances the nonce. -/
def NONCED_TX_MARKER_IX_INDEX : Nat := 0

variable (env : ProcessingEnvironment)

/-- The nonce account with the next nonce in it. Serializing into an account that was
verified cannot fail (`NonceLibrary.fits`). -/
def validateTransactionNonce (message : SVMTransaction) (nonceAddress : Pubkey)
    (nextDurableNonce : Hash) (nextLamportsPerSignature : UInt64) : LoaderM NonceInfo := do
  let loaded ← loadTransactionAccount nonceAddress
  MonadExcept.ofExcept <| do
    let nonceAccount ← (loaded.map LoadedTransactionAccount.account).elim (.error .AccountNotFound) .ok
    let nonceData ←
      (env.nonces.verifyNonceAccount nonceAccount.owner nonceAccount.data message.recentBlockhash).elim
        (.error .BlockhashNotFound) .ok
    failIf (¬ (nonceData.durableNonce ≠ nextDurableNonce ∧
      nonceData.authority ∈ message.getIxSigners NONCED_TX_MARKER_IX_INDEX)) .BlockhashNotFound
    let nextNonceState : NonceState := .Initialized
      { authority := nonceData.authority
        durableNonce := nextDurableNonce
        lamportsPerSignature := nextLamportsPerSignature }
    return {
      address := nonceAddress
      account := { nonceAccount with
        data := Bytes.overwrite nonceAccount.data 0 (env.nonces.serialize (.new nextNonceState)) } }

def validateTransactionFeePayer (message : SVMTransaction) (nonceInfo : Option NonceInfo)
    (limits : BudgetLimits) : LoaderM ValidatedTransactionDetails := do
  let loaded ← loadTransactionAccount message.feePayer
  MonadExcept.ofExcept <| do
    let loadedFeePayer ← loaded.elim (.error .AccountNotFound) .ok
    let account ← validateFeePayer env.toLoadEnvironment message.feePayer
      (updateRentExemptStatusForAccount env.rent loadedFeePayer.account) 0 limits.totalFee
    return {
      rollbackAccounts := .new nonceInfo message.feePayer account loadedFeePayer.account.rentEpoch
      loadedAccountsBytesLimit := limits.loadedAccountsDataSizeLimit
      totalFee := limits.totalFee
      loadedFeePayerAccount := { loadedFeePayer with account := account } }

/-- The nonce of a nonce transaction. -/
def validateNonceInfo (message : SVMTransaction) :
    Option Pubkey → LoaderM (Option NonceInfo)
  | some nonceAddress => do
    let nonceInfo ← validateTransactionNonce env message nonceAddress (env.nonces.fromBlockhash env.blockhash)
      env.blockhashLamportsPerSignature
    return some nonceInfo
  | none => return none

def validateTransactionNonceAndFeePayer (message : SVMTransaction)
    (checkedDetails : CheckedTransactionDetails) : LoaderM ValidatedTransactionDetails := do
  let nonceInfo ← validateNonceInfo env message checkedDetails.nonceAddress
  validateTransactionFeePayer env message nonceInfo checkedDetails.computeBudgetAndLimits

/-! ## Balances -/

/-- The loads of the collector for one account. -/
def collectBalance (message : SVMTransaction) (index : Nat) (key : Pubkey) :
    LoaderM PUnit := do
  let loaded ← loadAccount key
  match loaded with
  | none => return
  | some account =>
    if message.accountKeys.any env.isKnownSplTokenId && !message.isInvoked index &&
        !env.isKnownSplTokenId key && env.isKnownSplTokenId account.owner then
      match env.unpackMint account.data account.owner with
      | some mint => do
        let _ ← loadAccount mint
        return
      | none => return
    else return

variable (config : ProcessingConfig)

def collectBalances (message : SVMTransaction) :
    LoaderM PUnit :=
  if config.enableTransactionBalanceRecording then
    message.accountKeys.zipIdx.forM fun (key, index) => collectBalance env message index key
  else return

/-! ## The loop -/

/-- The accounts of a processed transaction as the account loader takes them. -/
def executeLoadedTransaction (message : SVMTransaction)
    (loadedTransaction : LoadedTransaction) : ExecutedTransaction :=
  let (status, accounts) := env.execute message loadedTransaction
  { loadedTransaction := { loadedTransaction with accounts := accounts }, status := status }

/-- The result of a transaction that was loaded or not, written back to the loader. -/
def processLoadResult (message : SVMTransaction)
    (loadResult : TransactionLoadResult) (l : AccountLoader) :
    Except TransactionError ProcessedTransaction × AccountLoader :=
  match loadResult with
  | .NotLoaded err => (.error err, l)
  | .FeesOnly feesOnlyTx =>
    if config.dropOnFailure then (.error feesOnlyTx.loadError, l)
    else (.ok (.FeesOnly feesOnlyTx), l.updateAccountsForFailedTx feesOnlyTx.rollbackAccounts env.slot)
  | .Loaded loadedTransaction =>
    let executedTx := executeLoadedTransaction env message loadedTransaction
    match executedTx.status, config.dropOnFailure with
    | .ok _, _ =>
      (.ok (.Executed executedTx),
        l.updateAccountsForSuccessfulTx message executedTx.loadedTransaction.accounts env.slot)
    | .error err, true => (.error err, l)
    | .error _, false =>
      (.ok (.Executed executedTx), l.updateAccountsForFailedTx executedTx.loadedTransaction.rollbackAccounts env.slot)

/-- Validation and loading of one transaction, with the balances before it. -/
def validateAndLoad (message : SVMTransaction)
    (checkResult : Except TransactionError CheckedTransactionDetails) : LoaderM TransactionLoadResult := do
  let validateResult ← attempt <| do
    let txDetails ← MonadExcept.ofExcept checkResult
    validateTransactionNonceAndFeePayer env message txDetails
  let loadResult ← loadTransaction env.toLoadEnvironment message validateResult
  collectBalances env config message
  return loadResult

/-- One iteration of the loop. Loading cannot fail: its errors are part of the load
result. -/
def processTransaction (message : SVMTransaction)
    (checkResult : Except TransactionError CheckedTransactionDetails) (l : AccountLoader) :
    Except TransactionError ProcessedTransaction × AccountLoader :=
  match (validateAndLoad env config message checkResult).run l with
  | .ok loadResult l =>
    let (processingResult, l) := processLoadResult env config message loadResult l
    (processingResult, final (collectBalances env config message) l)
  | .error err l => (.error err, l)

/-- A transaction with the result of the checks before processing. -/
abbrev CheckedTransaction := SVMTransaction × Except TransactionError CheckedTransactionDetails

/-- The results of an all-or-nothing batch that fails at one transaction. -/
def cancelled (before after : Nat) (failure : Except TransactionError ProcessedTransaction) :
    List (Except TransactionError ProcessedTransaction) :=
  List.replicate before (.error .CommitCancelled) ++ failure :: List.replicate after (.error .CommitCancelled)

def processLoop (env : ProcessingEnvironment) (config : ProcessingConfig) :
    List CheckedTransaction → (processingResults : List (Except TransactionError ProcessedTransaction)) →
    AccountLoader → List (Except TransactionError ProcessedTransaction)
  | [], processingResults, _ => processingResults
  | (tx, checkResult) :: rest, processingResults, l =>
    let (processingResult, l) := processTransaction env config tx checkResult l
    if config.allOrNothing && !processingResult.isOk then
      cancelled processingResults.length rest.length processingResult
    else processLoop env config rest (processingResults ++ [processingResult]) l

def loadAndExecuteSanitizedTransactions
    (callbacks : Pubkey → Option (Account × Slot)) (txs : List CheckedTransaction) :
    List (Except TransactionError ProcessedTransaction) :=
  processLoop env config txs [] (.new env.toLoadEnvironment config.slotHistoryOverride callbacks)

end Svm
