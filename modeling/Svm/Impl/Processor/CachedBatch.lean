import Svm.Impl.Processor.TransactionProcessor

/-!
# A batch with its program cache

The loop of `load_and_execute_sanitized_transactions` once more, with the programs that
the batch has loaded: they are replenished before a loaded transaction is executed, and
a batch that has hit the limit of the cache is given up. What is in the cache and how it
is filled is a parameter.
-/

namespace Svm

open Run AccountLoader

/-- The environment of a batch with a program cache of type `C`. -/
structure CachedEnvironment (C : Type) extends ProcessingEnvironment where
  /-- A clone of `builtin_program_cache`. -/
  builtinProgramCache : C
  hitMaxLimit : C → Bool
  /-- `filter_executable_program_accounts` and `replenish_program_cache`. -/
  replenishProgramCache : AccountLoader → SVMTransaction → C → C
  executeCached : C → SVMTransaction → LoadedTransaction → Except TransactionError Unit × List (Pubkey × Account)
  /-- Merges the programs that a successful transaction modified. -/
  merge : ExecutedTransaction → C → C

variable {C : Type}

/-- The environment in which a transaction is executed with the cache. -/
def CachedEnvironment.withCache (env : CachedEnvironment C) (cache : C) : ProcessingEnvironment :=
  { env.toProcessingEnvironment with execute := env.executeCached cache }

/-- The cache after a transaction with this result. -/
def CachedEnvironment.mergeResult (env : CachedEnvironment C) (cache : C) :
    Except TransactionError ProcessedTransaction → C
  | .ok (.Executed executedTx) => if executedTx.status.isOk then env.merge executedTx cache else cache
  | _ => cache

/-- The cache with the programs of the transaction, if it was loaded. -/
def CachedEnvironment.replenish (env : CachedEnvironment C) (message : SVMTransaction) (l : AccountLoader) (cache : C) :
    TransactionLoadResult → Option C
  | .Loaded _ =>
    let cache := env.replenishProgramCache l message cache
    if env.hitMaxLimit cache then none else some cache
  | _ => some cache

/-- One iteration of the loop: none, if the limit of the cache was hit. -/
def processCached (env : CachedEnvironment C) (config : ProcessingConfig) (message : SVMTransaction)
    (checkResult : Except TransactionError CheckedTransactionDetails) (cache : C) (l : AccountLoader) :
    Option (Except TransactionError ProcessedTransaction × C × AccountLoader) :=
  match (validateAndLoad env.toProcessingEnvironment config message checkResult).run l with
  | .error err l => some (.error err, cache, l)
  | .ok loadResult l =>
    (env.replenish message l cache loadResult).map fun cache =>
      let (processingResult, l) := processLoadResult (env.withCache cache) config message loadResult l
      (processingResult, env.mergeResult cache processingResult,
        final (collectBalances env.toProcessingEnvironment config message) l)

/-- All transactions of a batch are given up. -/
def hitMaxLimitResults (n : Nat) : List (Except TransactionError ProcessedTransaction) :=
  List.replicate n (.error .ProgramCacheHitMaxLimit)

/-- The loop over a batch of `n` transactions. -/
def processLoopCached (env : CachedEnvironment C) (config : ProcessingConfig) (n : Nat) :
    List CheckedTransaction → (processingResults : List (Except TransactionError ProcessedTransaction)) → C →
    AccountLoader → List (Except TransactionError ProcessedTransaction)
  | [], processingResults, _, _ => processingResults
  | (tx, checkResult) :: rest, processingResults, cache, l =>
    match processCached env config tx checkResult cache l with
    | none => hitMaxLimitResults n
    | some (processingResult, cache, l) =>
      if config.allOrNothing && !processingResult.isOk then
        cancelled processingResults.length (n - (processingResults.length + 1)) processingResult
      else processLoopCached env config n rest (processingResults ++ [processingResult]) cache l

def processBatch (env : CachedEnvironment C) (config : ProcessingConfig) (callbacks : Pubkey → Option (Account × Slot))
    (txs : List CheckedTransaction) : List (Except TransactionError ProcessedTransaction) :=
  if env.hitMaxLimit env.builtinProgramCache then hitMaxLimitResults txs.length
  else processLoopCached env config txs.length txs [] env.builtinProgramCache
    (.new env.toLoadEnvironment config.slotHistoryOverride callbacks)

end Svm
