import Svm.Proof.Batch

/-!
# The results of a batch

The loop ends in one of three ways (`processLoopCached_exits`): every transaction has its
own result, the limit of the cache was hit, or the batch was given up at the first
transaction that failed. `batch_results` reads the shape of the results off them.
-/

namespace Svm

open Run AccountLoader
open List hiding getElem?_eq_some_iff

section Results

variable {C : Type} {env : CachedEnvironment C} {config : ProcessingConfig} {txs rest : List CheckedTransaction}
  {cache cache' : C} {l l' : AccountLoader} {done : List (Except TransactionError ProcessedTransaction)} {n : Nat}
  {results : List (Except TransactionError ProcessedTransaction)}

/-- How the loop ends. -/
inductive Exits (env : CachedEnvironment C) (config : ProcessingConfig) (txs : List CheckedTransaction) (cache : C)
    (l : AccountLoader) (done : List (Except TransactionError ProcessedTransaction)) (n : Nat) :
    List (Except TransactionError ProcessedTransaction) → Prop where
  | normal {results : List (Except TransactionError ProcessedTransaction)} {cache' : C} {l' : AccountLoader}
      (h : cachedResults env config txs cache l = some (results, cache', l'))
      (hok : config.allOrNothing = true → ∀ r ∈ results, r.isOk = true) : Exits env config txs cache l done n (done ++ results)
  | limit (h : ∃ i < txs.length, cachedResults env config (txs.take (i + 1)) cache l = none) :
      Exits env config txs cache l done n (hitMaxLimitResults n)
  | failure {i : Nat} {err : TransactionError} (hall : config.allOrNothing = true)
      (h : FirstFailure env config txs cache l i err) :
      Exits env config txs cache l done n
        (cancelled (done.length + i) (n - (done.length + i + 1)) (.error err))

variable {result : Except TransactionError ProcessedTransaction}

/-- A transaction before the rest, which does not end the loop. -/
theorem Exits.cons (hstep : processCached env config tx.1 tx.2 cache l = some (result, cache', l'))
    (hresult : config.allOrNothing = true → result.isOk = true)
    (h : Exits env config rest cache' l' (done ++ [result]) n results) :
    Exits env config (tx :: rest) cache l done n results := by
  have hcons (txs : List CheckedTransaction) : cachedResults env config (tx :: txs) cache l =
      (cachedResults env config txs cache' l').map fun x => (result :: x.1, x.2) := by
    simp only [cachedResults, hstep, Option.bind_eq_bind, Option.bind_some]
    cases cachedResults env config txs cache' l' <;> rfl
  cases h with
  | @normal results cache'' l'' h hok =>
    rw [append_assoc]
    refine .normal ((hcons rest).trans (by rw [h]; rfl)) fun hall r hr => ?_
    rcases mem_cons.mp hr with rfl | hr
    · exact hresult hall
    · exact hok hall r hr
  | limit h =>
    obtain ⟨i, hi, hnone⟩ := h
    refine .limit ⟨i + 1, by simpa using hi, ?_⟩
    rw [take_succ_cons, hcons, hnone]
    rfl
  | @failure i err hall h =>
    obtain ⟨results, cache1, l1, tx', cache2, l2, hresults, hok, htx, hfails⟩ := h
    rw [length_append, length_singleton, add_assoc, add_comm 1 i]
    refine .failure hall ⟨result :: results, cache1, l1, tx', cache2, l2, ?_, fun r hr => ?_, htx, hfails⟩
    · rw [take_succ_cons, hcons, hresults]
      rfl
    · rcases mem_cons.mp hr with rfl | hr
      · exact hresult hall
      · exact hok r hr

theorem processLoopCached_exits (env) (config) (n : Nat)
    (txs) (done) (cache : C)
    (l) : Exits env config txs cache l done n (processLoopCached env config n txs done cache l) := by
  induction txs generalizing done cache l with
  | nil =>
    have hexit : Exits env config [] cache l done n (done ++ []) := .normal rfl fun _ r h => (nomatch h)
    rwa [append_nil] at hexit
  | cons tx rest ih =>
    obtain ⟨tx, checkResult⟩ := tx
    rw [processLoopCached]
    cases hstep : processCached env config tx checkResult cache l with
    | none =>
      refine .limit ⟨0, by simp, ?_⟩
      simp only [take_succ_cons, cachedResults, hstep]
      rfl
    | some next =>
      obtain ⟨result, cache', l'⟩ := next
      dsimp only
      split_ifs with habort
      · rw [Bool.and_eq_true] at habort
        cases result with
        | ok p => cases habort.2
        | error err =>
          exact .failure (i := 0) habort.1
            ⟨[], cache, l, (tx, checkResult), cache', l', rfl, fun r h => (nomatch h), rfl, hstep⟩
      · refine .cons hstep (fun hall => ?_) (ih (done ++ [result]) cache' l')
        rw [hall, Bool.true_and, Bool.not_eq_true', Bool.not_eq_false] at habort
        exact habort

/-! ## The shape of the results -/

theorem length_cachedResults (h : cachedResults env config txs cache l = some (results, cache', l')) :
    results.length = txs.length := by
  induction txs generalizing cache l results with
  | nil =>
    cases h
    rfl
  | cons tx rest ih =>
    simp only [cachedResults, Option.bind_eq_bind, Option.bind_eq_some_iff, Prod.exists] at h
    obtain ⟨result, cache1, l1, -, results', cache2, l2, hrest, heq⟩ := h
    cases heq
    rw [length_cons, length_cons, ih hrest]

theorem FirstFailure.lt (h : FirstFailure env config txs cache l i err) : i < txs.length := by
  obtain ⟨-, -, -, tx, -, -, -, -, htx, -⟩ := h
  exact (getElem?_eq_some_iff.mp htx).1

theorem length_cancelled (before after : Nat) (failure) :
    (cancelled before after failure).length = before + after + 1 := by
  simp [cancelled]
  omega

/-- The result is the failure of a transaction, or of a success. -/
def Dropped (config : ProcessingConfig) (r : Except TransactionError ProcessedTransaction) : Prop :=
  config.dropOnFailure = true → ∀ p, r = .ok p → ∃ tx, p = .Executed tx ∧ tx.status = .ok ()

theorem dropped_processLoadResult (env) (config) (message)
    (loadResult) (l) :
    Dropped config (processLoadResult env config message loadResult l).1 := by
  intro hdrop p hp
  obtain ⟨tx, -, -, hkeep⟩ | ⟨tx, -, rfl, hstatus⟩ := processLoadResult_ok hp
  · rw [hdrop] at hkeep
    cases hkeep
  · exact ⟨_, rfl, hstatus hdrop⟩

theorem dropped_processCached
    (h : processCached env config message checked cache l = some (result, cache', l')) : Dropped config result := by
  rw [processCached] at h
  split at h
  · cases h
    exact fun _ p hp => (nomatch hp)
  · obtain ⟨cache1, -, heq⟩ := Option.map_eq_some_iff.mp h
    cases heq
    exact dropped_processLoadResult _ config message _ _

theorem dropped_cachedResults (h : cachedResults env config txs cache l = some (results, cache', l')) :
    ∀ r ∈ results, Dropped config r := by
  induction txs generalizing cache l results with
  | nil =>
    cases h
    exact fun r hr => (nomatch hr)
  | cons tx rest ih =>
    simp only [cachedResults, Option.bind_eq_bind, Option.bind_eq_some_iff, Prod.exists] at h
    obtain ⟨result, cache1, l1, hstep, results', cache2, l2, hrest, heq⟩ := h
    cases heq
    intro r hr
    rcases mem_cons.mp hr with rfl | hr
    · exact dropped_processCached hstep
    · exact ih hrest r hr

end Results

theorem batchResults_of_limit (h : HitsMaxLimit env config store txs) :
    BatchResults env config store txs (hitMaxLimitResults txs.length) where
  length := length_replicate
  allOrNothing _ _ := by
    refine ⟨fun r hr => ?_, .inl ⟨h, rfl⟩⟩
    rw [eq_of_mem_replicate hr]
    rfl
  dropOnFailure _ p hp := by cases eq_of_mem_replicate hp

/-- A batch has one result for each transaction. An all-or-nothing batch with an error
consists of errors: the limit of the cache was hit, or each transaction is cancelled but
the first that failed, which has its own error. If failures are dropped, what is processed
was executed successfully. -/
theorem batch_results {C : Type} (env : CachedEnvironment C) (config : ProcessingConfig) (store : Store)
    (txs : List CheckedTransaction) : BatchResults env config store txs (processBatch env config store txs) := by
  rw [processBatch]
  split_ifs with hlimit
  · exact batchResults_of_limit (.inl hlimit)
  · have hexits := processLoopCached_exits env config txs.length txs [] env.builtinProgramCache
      (.new env.toLoadEnvironment config.slotHistoryOverride store)
    generalize processLoopCached .. = results at hexits ⊢
    cases hexits with
    | limit h => exact batchResults_of_limit (.inr h)
    | @normal results cache' l' h hok =>
      refine ⟨length_cachedResults h, fun hall => ?_, fun hdrop p hp => dropped_cachedResults h _ hp hdrop p rfl⟩
      rintro ⟨r, hr, herr⟩
      rw [hok hall r hr] at herr
      cases herr
    | @failure i err hall h =>
      have hlt := h.lt
      rw [length_nil, zero_add]
      refine ⟨?_, fun _ _ => ⟨fun r hr => isOk_of_mem_cancelled hr rfl, .inr ⟨i, err, h, rfl⟩⟩, fun _ p hp => ?_⟩
      · rw [length_cancelled]
        omega
      · cases isOk_of_mem_cancelled hp rfl

namespace CheckedCancelled

/-- A batch without programs. -/
def env : CachedEnvironment Unit :=
  { OnePayer.env with
    builtinProgramCache := ()
    hitMaxLimit := fun _ => false
    replenishProgramCache := fun _ _ _ => ()
    executeCached := fun _ => OnePayer.env.execute
    merge := fun _ _ => () }

def config : ProcessingConfig := { OnePayer.config with allOrNothing := true }

/-- The transaction was cancelled before. -/
def txs : List CheckedTransaction := [(OnePayer.message, .error .CommitCancelled)]

end CheckedCancelled

/-- The first transaction fails, its error is `CommitCancelled`, and no entry has another
error. -/
theorem batch_only_cancelled :
    processBatch CheckedCancelled.env CheckedCancelled.config OnePayer.store CheckedCancelled.txs =
      [.error .CommitCancelled] ∧
    ¬ HitsMaxLimit CheckedCancelled.env CheckedCancelled.config OnePayer.store CheckedCancelled.txs := by
  refine ⟨rfl, ?_⟩
  rintro (h | ⟨i, hi, h⟩)
  · cases h
  · have hi' : i < 1 := hi
    obtain rfl : i = 0 := by omega
    cases h

end Svm
