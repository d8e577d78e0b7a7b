import Svm.Impl.Processor.CachedBatch
import Svm.Spec.Ledger

/-!
# Batches of transactions

What the account loader stands for: the store with the changes of the batch so far
(`AccountLoader.view`). A batch is meant to be the sequence of its transactions, each
processed against the store into which the accounts of those before it were committed
(`sequence`).
-/

namespace Svm

/-- A store of accounts, as the callback shows it. -/
abbrev Store := Pubkey → Option (Account × Slot)

namespace Store

/-- The store has no account at zero lamports. -/
def Funded (store : Store) : Prop := ∀ key account slot, store key = some (account, slot) → account.lamports ≠ 0

/-- An account at zero lamports is committed as absent. -/
def write (slot : Slot) (store : Store) (entry : Pubkey × Account) : Store := fun key =>
  if key = entry.1 then (if entry.2.lamports = 0 then none else some (entry.2, slot)) else store key

def commit (slot : Slot) (accounts : List (Pubkey × Account)) (store : Store) : Store :=
  accounts.foldl (write slot) store

end Store

/-- What can be loaded. -/
def AccountLoader.view (l : AccountLoader) : Store := fun key => (l.doLoad key).1

/-- The accounts that are written back for the result of a transaction. -/
def accountsToCommit (message : SVMTransaction) : Except TransactionError ProcessedTransaction → List (Pubkey × Account)
  | .error _ => []
  | .ok (.FeesOnly tx) => tx.rollbackAccounts.accounts
  | .ok (.Executed tx) =>
    match tx.status with
    | .ok _ => AccountLoader.accountsToStore message tx.loadedTransaction.accounts
    | .error _ => tx.loadedTransaction.rollbackAccounts.accounts

/-- Each transaction in a batch of its own, its accounts committed before the next. -/
def sequence (env : ProcessingEnvironment) (config : ProcessingConfig) :
    Store → List CheckedTransaction → List (Except TransactionError ProcessedTransaction)
  | _, [] => []
  | store, tx :: rest =>
    let results := loadAndExecuteSanitizedTransactions env config store [tx]
    results ++ sequence env config (store.commit env.slot (results.flatMap (accountsToCommit tx.1))) rest

/-- The loader after the first transactions of a batch. -/
def loaderAfter (env : ProcessingEnvironment) (config : ProcessingConfig) (store : Store)
    (txs : List CheckedTransaction) : AccountLoader :=
  txs.foldl (fun l tx => (processTransaction env config tx.1 tx.2 l).2)
    (.new env.toLoadEnvironment config.slotHistoryOverride store)

def Account.fields (a : Account) : AccountFields := ⟨a.lamports, a.data, a.owner, a.executable⟩

/-- The account that the next transaction loads at an address, its rent epoch aside. -/
def AccountLoader.loads (l : AccountLoader) (key : Pubkey) : Option AccountFields :=
  (l.view key).map fun account => account.1.fields

/-- The transaction was processed and failed: its changes are rolled back. -/
def ProcessedTransaction.Failed : ProcessedTransaction → Prop
  | .FeesOnly _ => True
  | .Executed tx => tx.status ≠ .ok ()

/-- The nonce in the data is advanced to the one of the environment's blockhash. -/
def NonceAdvanced (env : ProcessingEnvironment) (data data' : List UInt8) : Prop :=
  data'.length = data.length ∧ ∃ nonce, env.nonces.deserialize data = some (.Current (.Initialized nonce)) ∧
    env.nonces.deserialize data' = some (.Current (.Initialized
      { authority := nonce.authority
        durableNonce := env.nonces.fromBlockhash env.blockhash
        lamportsPerSignature := env.blockhashLamportsPerSignature }))

/-- An account at zero lamports is not there. -/
def AccountFields.stored (f : AccountFields) : Option AccountFields := if f.lamports = 0 then none else some f

/-- From one loader to the next exactly the fee is charged, and the nonce advanced. -/
structure Charged (env : ProcessingEnvironment) (feePayer : Pubkey) (details : CheckedTransactionDetails)
    (l l' : AccountLoader) : Prop where
  payer : ∃ f f' : AccountFields, l.loads feePayer = some f ∧ l'.loads feePayer = f'.stored ∧
    details.computeBudgetAndLimits.totalFee ≤ f.lamports ∧
    f'.lamports = f.lamports - details.computeBudgetAndLimits.totalFee ∧ f'.owner = f.owner ∧
    f'.executable = f.executable ∧
    if details.nonceAddress = some feePayer then NonceAdvanced env f.data f'.data else f'.data = f.data
  nonce : ∀ key, key ≠ feePayer → details.nonceAddress = some key →
    ∃ f data, l.loads key = some f ∧ l'.loads key = some { f with data := data } ∧ NonceAdvanced env f.data data
  others : ∀ key, key ≠ feePayer → details.nonceAddress ≠ some key → l'.view key = l.view key

/-! ## Batches with a program cache -/

section Cached

variable {C : Type}

/-- The results of the first transactions of a batch, with the cache and the loader after
them, as long as the limit of the cache is not hit. -/
def cachedResults (env : CachedEnvironment C) (config : ProcessingConfig) :
    List CheckedTransaction → C → AccountLoader →
    Option (List (Except TransactionError ProcessedTransaction) × C × AccountLoader)
  | [], cache, l => some ([], cache, l)
  | (tx, checkResult) :: rest, cache, l => do
    let (result, cache, l) ← processCached env config tx checkResult cache l
    let (results, cache, l) ← cachedResults env config rest cache l
    return (result :: results, cache, l)

/-- The transactions from a cache and a loader on: those before position `i` do not fail,
and the one at `i` fails with `err`. -/
def FirstFailure (env : CachedEnvironment C) (config : ProcessingConfig) (txs : List CheckedTransaction) (cache : C)
    (l : AccountLoader) (i : Nat) (err : TransactionError) : Prop :=
  ∃ results cache' l' tx cache'' l'', cachedResults env config (txs.take i) cache l = some (results, cache', l') ∧
    (∀ r ∈ results, r.isOk = true) ∧ txs[i]? = some tx ∧
    processCached env config tx.1 tx.2 cache' l' = some (.error err, cache'', l'')

/-- The limit of the cache is hit: from the start, or at one of the transactions. -/
def HitsMaxLimit (env : CachedEnvironment C) (config : ProcessingConfig) (store : Store) (txs : List CheckedTransaction) :
    Prop :=
  env.hitMaxLimit env.builtinProgramCache = true ∨
    ∃ i < txs.length, cachedResults env config (txs.take (i + 1)) env.builtinProgramCache
      (.new env.toLoadEnvironment config.slotHistoryOverride store) = none

/-- What the results of a batch are asked for. -/
structure BatchResults (env : CachedEnvironment C) (config : ProcessingConfig) (store : Store)
    (txs : List CheckedTransaction) (results : List (Except TransactionError ProcessedTransaction)) : Prop where
  length : results.length = txs.length
  /-- An all-or-nothing batch with an error consists of errors: the limit of the cache was
  hit, or each transaction is cancelled but the first that failed, which has its own error. -/
  allOrNothing : config.allOrNothing = true → (∃ r ∈ results, r.isOk = false) →
    (∀ r ∈ results, r.isOk = false) ∧
      ((HitsMaxLimit env config store txs ∧ results = hitMaxLimitResults txs.length) ∨
        ∃ i err, FirstFailure env config txs env.builtinProgramCache
            (.new env.toLoadEnvironment config.slotHistoryOverride store) i err ∧
          results = cancelled i (txs.length - (i + 1)) (.error err))
  dropOnFailure : config.dropOnFailure = true → ∀ p, .ok p ∈ results → ∃ tx, p = .Executed tx ∧ tx.status = .ok ()

end Cached

end Svm
