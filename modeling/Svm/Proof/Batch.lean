import Svm.Framework.Observe
import Svm.Impl.Processor.Execution
import Svm.Proof.Nonce
import Svm.Spec.Batch

/-!
# A batch is the sequence of its transactions

Validating and loading a transaction only observes what can be loaded
(`loadClosed_loads`); what is written back for its result is committed to it
(`processTransaction_spec`). So a batch gives the results of its transactions one after
the other (`batch_eq_sequence`).
-/

namespace Svm

open Run AccountLoader

/-! ## The view of the loader -/

namespace AccountLoader

variable {l : AccountLoader}

/-- The store behind the loader has no account at zero lamports. -/
def Valid (l : AccountLoader) : Prop := Store.Funded l.callbacks

theorem view_insert (l : AccountLoader) (key) (account) (slot : Slot) :
    (l.insert key (account, slot)).view = Store.write slot l.view (key, account) := by
  funext k
  by_cases hk : k = key
  · simp [view, doLoad, insert, Store.write, if_pos hk]
  · simp [view, doLoad, insert, Store.write, if_neg hk]

theorem view_insertAll (l : AccountLoader) (slot : Slot) (accounts) :
    (l.insertAll slot accounts).view = Store.commit slot accounts l.view := by
  induction accounts generalizing l with
  | nil => rfl
  | cons entry accounts ih => exact (ih _).trans (by rw [view_insert]; rfl)

theorem valid_insertAll (hl : l.Valid) (slot : Slot) (accounts) :
    (l.insertAll slot accounts).Valid := by
  induction accounts generalizing l with
  | nil => exact hl
  | cons entry accounts ih => exact ih hl

/-! ## Loading an account -/

/-- From `l` accounts were loaded: for an address that was not asked for before, the
answer of the store is kept. -/
structure Fetched (l l' : AccountLoader) : Prop where
  callbacks : l'.callbacks = l.callbacks
  entry : ∀ key, l'.loadedAccounts key = l.loadedAccounts key ∨
    l.loadedAccounts key = none ∧ l'.loadedAccounts key = some ((l.callbacks key).getD (.default, 0))

namespace Fetched

theorem refl (l) : Fetched l l := ⟨rfl, fun _ => .inl rfl⟩

theorem trans (h : Fetched l l') (h' : Fetched l' l'') : Fetched l l'' := by
  refine ⟨h'.callbacks.trans h.callbacks, fun key => ?_⟩
  rcases h'.entry key with hsame | ⟨hnone, hsome⟩
  · rw [hsame]
    exact h.entry key
  · rcases h.entry key with hsame | ⟨-, hsome'⟩
    · rw [hsome, h.callbacks, ← hsame]
      exact .inr ⟨hnone, rfl⟩
    · rw [hsome'] at hnone
      cases hnone

theorem cached (h : Fetched l l') {entry : Account × Slot} (hentry : l.loadedAccounts key = some entry) :
    l'.loadedAccounts key = some entry := by
  rcases h.entry key with hsame | ⟨hnone, -⟩
  · rw [hsame, hentry]
  · rw [hentry] at hnone
    cases hnone

/-- An account that can be loaded could be loaded before. -/
theorem view_of_some (h : Fetched l l') {entry : Account × Slot} (hentry : l'.view key = some entry) :
    l.view key = some entry := by
  rcases h.entry key with hsame | ⟨hnone, hsome⟩
  · rw [← hentry, view, view, doLoad, doLoad, hsame, h.callbacks]
  · simp only [view, doLoad, hsome] at hentry
    simp only [view, doLoad, hnone]
    cases hstore : l.callbacks key with
    | none =>
      rw [hstore] at hentry
      simp [Account.default] at hentry
    | some found =>
      rw [hstore] at hentry
      split_ifs at hentry
      exact hentry

theorem view (h : Fetched l l') (hl : l.Valid) : l'.view = l.view := by
  funext key
  rcases h.entry key with hsame | ⟨hnone, hsome⟩
  · rw [AccountLoader.view, AccountLoader.view, doLoad, doLoad, hsame, h.callbacks]
  · simp only [AccountLoader.view, doLoad, hsome, hnone]
    cases hstore : l.callbacks key with
    | none => rfl
    | some found => exact if_neg (hl key found.1 found.2 hstore)

theorem valid (h : Fetched l l') (hl : l.Valid) : l'.Valid := by
  rw [Valid, h.callbacks]
  exact hl

end Fetched

/-- Loading an account gives what is in the view, and keeps the answer of the store. -/
theorem loadAccount_spec (l) (key) :
    result (loadAccount key) l = .ok ((l.view key).map Prod.fst) ∧ Fetched l (final (loadAccount key) l) ∧
      ((final (loadAccount key) l).loadedAccounts key).isSome := by
  simp only [result, final, loadAccount, EStateM.run, view, doLoad]
  cases hcached : l.loadedAccounts key with
  | some entry =>
    by_cases hzero : entry.1.lamports = 0
    · simp only [hzero, if_true, Option.map_none]
      exact ⟨trivial, .refl l, by rw [hcached]; rfl⟩
    · simp only [hzero, if_false, Option.map_some]
      exact ⟨trivial, .refl l, by rw [hcached]; rfl⟩
  | none =>
    have hinsert (entry : Account × Slot) (hentry : (l.callbacks key).getD (.default, 0) = entry) :
        Fetched l (l.insert key entry) ∧ ((l.insert key entry).loadedAccounts key).isSome := by
      refine ⟨⟨rfl, fun k => ?_⟩, by simp [insert]⟩
      by_cases hk : k = key
      · subst hk
        exact .inr ⟨hcached, by simp [insert, hentry]⟩
      · exact .inl (if_neg hk)
    cases hstore : l.callbacks key with
    | none | some entry => exact ⟨rfl, hinsert _ (by rw [hstore]; rfl)⟩

end AccountLoader

/-! ## Programs that load -/

/-- A property of programs that loading an account has and composition keeps. -/
structure LoadClosed (P : (α : Type) → LoaderM α → Prop) : Prop extends Compositional P where
  loadAccount : ∀ key, P _ (loadAccount key)

namespace LoadClosed

variable (hP : LoadClosed P)
include hP

theorem loadTransactionAccount (key) : P _ (loadTransactionAccount key) :=
  hP.bind (hP.loadAccount key) fun _ => hP.pure _

section Load

variable (env : LoadEnvironment) (message : SVMTransaction)

theorem collectProgramdata (limit : Nat) (address) (c) :
    P _ (collectProgramdata message limit address c) := by
  refine hP.ite (hP.pure _) (hP.bind (hP.loadAccount address) fun account => ?_)
  cases account with
  | none => exact hP.pure _
  | some account => exact hP.bind (hP.ofExcept _) fun _ => hP.pure _

theorem collectLoadedAccount (limit : Nat) (c) (key)
    (loaded) : P _ (collectLoadedAccount env message limit c key loaded) := by
  refine hP.bind (hP.ofExcept _) fun size => ?_
  generalize (if loaded.account.owner = env.bpfLoaderUpgradeableId then
    env.programdataAddress loaded.account.data else none) = programdata
  cases programdata with
  | none => exact hP.bind (hP.pure _) fun _ => hP.pure _
  | some address => exact hP.bind (hP.collectProgramdata message limit address _) fun _ => hP.pure _

theorem loadMessageAccount (index : Nat) (key) : P _ (loadMessageAccount env message index key) := by
  refine hP.ite (hP.pure _) (hP.bind (hP.loadTransactionAccount key) fun loaded => ?_)
  cases loaded with
  | none => exact hP.pure _
  | some loaded => exact hP.ite (hP.pure _) (hP.pure _)

theorem checkProgram (programId) : P _ (checkProgram env programId) := by
  refine hP.bind (hP.loadAccount programId) fun account => ?_
  cases account with
  | none => exact hP.ofExcept (.error _)
  | some account => exact hP.ofExcept _

theorem loadTransactionAccounts (feePayer) (limit : Nat) :
    P _ (loadTransactionAccounts env message feePayer limit) := by
  refine hP.bind (hP.ofExcept _) fun size => ?_
  refine hP.bind (hP.collectLoadedAccount env message limit _ _ _) fun c => ?_
  refine hP.bind (hP.foldlM (fun c entry => ?_) _ _) fun c => ?_
  · exact hP.bind (hP.loadMessageAccount env message entry.2 entry.1) fun loaded =>
      hP.collectLoadedAccount env message limit c entry.1 loaded
  · refine hP.bind (hP.forM (fun entry => ?_) _) fun _ => hP.pure _
    exact hP.checkProgram env entry.1

theorem loadTransaction (validated) :
    P _ (loadTransaction env message validated) := by
  cases validated with
  | error e => exact hP.pure _
  | ok details =>
    refine hP.bind (hP.attempt (hP.loadTransactionAccounts env message _ _)) fun loaded => ?_
    cases loaded with
    | ok c | error e => exact hP.pure _

end Load

section Process

variable (env : ProcessingEnvironment) (config : ProcessingConfig) (message : SVMTransaction)

theorem validateNonceInfo (nonceAddress) : P _ (validateNonceInfo env message nonceAddress) := by
  cases nonceAddress with
  | none => exact hP.pure _
  | some address =>
    refine hP.bind ?_ fun _ => hP.pure _
    exact hP.bind (hP.loadTransactionAccount address) fun _ => hP.ofExcept _

theorem validateTransactionFeePayer (nonce) (limits) :
    P _ (validateTransactionFeePayer env message nonce limits) :=
  hP.bind (hP.loadTransactionAccount message.feePayer) fun _ => hP.ofExcept _

theorem collectBalances : P _ (collectBalances env config message) := by
  refine hP.ite (hP.forM (fun entry => ?_) _) (hP.pure _)
  refine hP.bind (hP.loadAccount entry.1) fun account => ?_
  cases account with
  | none => exact hP.pure _
  | some account =>
    refine hP.ite ?_ (hP.pure _)
    split
    · exact hP.bind (hP.loadAccount _) fun _ => hP.pure _
    · exact hP.pure _

theorem validateAndLoad (checked) :
    P _ (validateAndLoad env config message checked) := by
  refine hP.bind (hP.attempt ?_) fun validated => ?_
  · exact hP.bind (hP.ofExcept checked) fun details =>
      hP.bind (hP.validateNonceInfo env message details.nonceAddress) fun nonce =>
        hP.validateTransactionFeePayer env message nonce details.computeBudgetAndLimits
  · exact hP.bind (hP.loadTransaction env.toLoadEnvironment message validated) fun _ =>
      hP.bind (hP.collectBalances env config message) fun _ => hP.pure _

end Process

end LoadClosed

theorem fetched_loadAccount (key) : Along Fetched (loadAccount key) := fun l => (loadAccount_spec l key).2.1

theorem loadClosed_fetched : LoadClosed fun _ => Along Fetched :=
  ⟨Along.compositional Fetched.refl Fetched.trans, fetched_loadAccount⟩

/-- The program observes what can be loaded. -/
abbrev Loads {α : Type} (x : LoaderM α) : Prop := Observes AccountLoader.Valid AccountLoader.view x

theorem loads_loadAccount (key) : Loads (loadAccount key) where
  inv hl := (fetched_loadAccount key _).valid hl
  view_final hl := (fetched_loadAccount key _).view hl
  result_eq _ _ hview := by rw [(loadAccount_spec _ key).1, (loadAccount_spec _ key).1, hview]

theorem loadClosed_loads : LoadClosed @Loads := ⟨Observes.compositional, loads_loadAccount⟩

/-! ## One transaction -/

section Transaction

/-- The result is written back as `accountsToCommit` says. -/
theorem processLoadResult_eq (env) (config) (message)
    (loadResult) (l) :
    (processLoadResult env config message loadResult l).2 =
      l.insertAll env.slot (accountsToCommit message (processLoadResult env config message loadResult l).1) := by
  cases loadResult with
  | NotLoaded err => rfl
  | FeesOnly tx =>
    simp only [processLoadResult]
    split <;> rfl
  | Loaded tx =>
    simp only [processLoadResult]
    cases hstatus : (executeLoadedTransaction env message tx).status with
    | ok => simp only [accountsToCommit, hstatus, updateAccountsForSuccessfulTx]
    | error e =>
      cases config.dropOnFailure with
      | true => rfl
      | false => simp [accountsToCommit, hstatus, updateAccountsForFailedTx]

/-- What was processed: a transaction that could not be loaded, or one that was executed. -/
theorem processLoadResult_ok (h : (processLoadResult env config message loadResult l).1 = .ok p) :
    (∃ tx, loadResult = .FeesOnly tx ∧ p = .FeesOnly tx ∧ config.dropOnFailure = false) ∨
    ∃ tx, loadResult = .Loaded tx ∧ p = .Executed (executeLoadedTransaction env message tx) ∧
      (config.dropOnFailure = true → (executeLoadedTransaction env message tx).status = .ok ()) := by
  cases loadResult with
  | NotLoaded err => cases h
  | FeesOnly tx =>
    simp only [processLoadResult] at h
    split_ifs at h with hdrop
    cases h
    exact .inl ⟨tx, rfl, rfl, by simpa using hdrop⟩
  | Loaded tx =>
    simp only [processLoadResult] at h
    split at h
    · rename_i hstatus
      cases h
      exact .inr ⟨tx, rfl, rfl, fun _ => hstatus⟩
    · cases h
    · rename_i hdrop
      cases h
      exact .inr ⟨tx, rfl, rfl, fun h => by simp [hdrop] at h⟩

/-- The result does not depend on the loader. -/
theorem processLoadResult_fst (loadResult) (l l') :
    (processLoadResult env config message loadResult l).1 =
      (processLoadResult env config message loadResult l').1 := by
  cases loadResult with
  | NotLoaded err => rfl
  | FeesOnly tx | Loaded tx =>
    simp only [processLoadResult]
    split <;> rfl

theorem processTransaction_spec (env) (config) (message)
    (checked) (hl : l.Valid) :
    (processTransaction env config message checked l).2.Valid ∧
    (processTransaction env config message checked l).2.view =
      Store.commit env.slot (accountsToCommit message (processTransaction env config message checked l).1) l.view := by
  have hload := loadClosed_loads.validateAndLoad env config message checked
  have hvalid := hload.inv hl
  have hview := hload.view_final hl
  rw [processTransaction]
  simp only [final] at hvalid hview
  cases hrun : (validateAndLoad env config message checked).run l with
  | error err l1 =>
    simp only [hrun] at hvalid hview ⊢
    exact ⟨hvalid, hview⟩
  | ok loadResult l1 =>
    simp only [hrun] at hvalid hview ⊢
    have hcollect := loadClosed_loads.collectBalances env config message
    have hwritten := processLoadResult_eq env config message loadResult l1
    have hvalid' : (processLoadResult env config message loadResult l1).2.Valid := by
      rw [hwritten]
      exact valid_insertAll hvalid _ _
    refine ⟨hcollect.inv hvalid', ?_⟩
    rw [hcollect.view_final hvalid', hwritten, view_insertAll, hview]

theorem processTransaction_fst_eq (hl : l.Valid) (hl' : l'.Valid) (hview : l.view = l'.view) :
    (processTransaction env config message checked l).1 = (processTransaction env config message checked l').1 := by
  have hresult := (loadClosed_loads.validateAndLoad env config message checked).result_eq hl hl' hview
  simp only [processTransaction]
  simp only [result] at hresult
  cases hrun : (validateAndLoad env config message checked).run l with
  | ok loadResult l1 =>
    cases hrun' : (validateAndLoad env config message checked).run l' with
    | ok loadResult' l1' =>
      simp only [hrun, hrun', Except.ok.injEq] at hresult
      subst hresult
      exact processLoadResult_fst loadResult l1 l1'
    | error e l1' => simp [hrun, hrun'] at hresult
  | error e l1 =>
    cases hrun' : (validateAndLoad env config message checked).run l' with
    | ok loadResult' l1' => simp [hrun, hrun'] at hresult
    | error e' l1' => simpa [hrun, hrun'] using hresult

end Transaction

/-! ## The batch -/

section Batch

variable {env : ProcessingEnvironment} {config : ProcessingConfig} {store : Store}

theorem view_new (store : Store) : (AccountLoader.new env.toLoadEnvironment none store).view = store := rfl

theorem Store.Funded.commit (hstore : store.Funded) (slot : Slot) (accounts) :
    (store.commit slot accounts).Funded := by
  induction accounts generalizing store with
  | nil => exact hstore
  | cons entry accounts ih =>
    refine ih (fun key account slot' h => ?_)
    simp only [write] at h
    split_ifs at h with hkey hzero
    · cases h
      exact hzero
    · exact hstore key account slot' h

theorem isOk_of_mem_cancelled {after : Nat} (h : r ∈ cancelled before after failed)
    (hfailed : failed.isOk = false) : r.isOk = false := by
  rw [cancelled, List.mem_append, List.mem_cons] at h
  rcases h with h | rfl | h
  · rw [List.eq_of_mem_replicate h]
    rfl
  · exact hfailed
  · rw [List.eq_of_mem_replicate h]
    rfl

/-- A loader over any store gives the results of a fresh one over what it shows. -/
theorem processLoop_eq (env) (hall : config.allOrNothing = false) (hover : config.slotHistoryOverride = none)
    (txs) (results)
    (hl : l.Valid) (hview : l.view = store) (hstore : store.Funded) :
    processLoop env config txs results l = results ++ sequence env config store txs := by
  induction txs generalizing l store results with
  | nil => simp [processLoop, sequence]
  | cons tx rest ih =>
    have hsame : (processTransaction env config tx.1 tx.2 l).1 =
        (processTransaction env config tx.1 tx.2 (.new env.toLoadEnvironment none store)).1 :=
      processTransaction_fst_eq hl hstore (hview.trans (view_new store).symm)
    obtain ⟨hl', hview'⟩ := processTransaction_spec env config tx.1 tx.2 hl
    rw [hview] at hview'
    simp only [processLoop, sequence, loadAndExecuteSanitizedTransactions, hall, hover, Bool.false_and,
      Bool.false_eq_true, if_false, List.nil_append, List.flatMap_singleton]
    rw [ih _ hl' hview' (hstore.commit _ _), hsame, List.append_assoc]

/-- A batch gives the results, with their loaded accounts and rollback accounts, of its
transactions processed one after the other. -/
theorem batch_eq_sequence (hall : config.allOrNothing = false) (hover : config.slotHistoryOverride = none)
    (hstore : store.Funded) (txs : List CheckedTransaction) :
    loadAndExecuteSanitizedTransactions env config store txs = sequence env config store txs := by
  have h := processLoop_eq env hall hover txs [] (l := .new env.toLoadEnvironment none store) hstore
    (view_new store) hstore
  rwa [← hover] at h

end Batch

/-! ## A payer whose transactions fail -/

namespace OnePayer

def payer : Pubkey := .replicate 32 1

/-- The store holds the payer, with 100 lamports. -/
def store : Store := fun key => if key = payer then some (⟨100, [], SYSTEM_PROGRAM_ID, false, 0⟩, 0) else none

def env : ProcessingEnvironment where
  rent := ⟨fun _ _ => true⟩
  minimumBalance _ := 0
  nonces := Bincode.bincodeNonces fun hash => hash
  programdataAddress _ := none
  constructInstructionsData _ := []
  incineratorId := .replicate 32 10
  sysvarId := .replicate 32 11
  sysvarInstructionsId := .replicate 32 12
  slotHistoryId := .replicate 32 13
  bpfLoaderUpgradeableId := .replicate 32 14
  nativeLoaderId := .replicate 32 15
  programOwners := []
  blockhash := .replicate 32 16
  blockhashLamportsPerSignature := 5
  slot := 1
  execute _ tx := (.error (.Other 0), tx.accounts)
  isKnownSplTokenId _ := false
  unpackMint _ _ := none

def config : ProcessingConfig where
  allOrNothing := false
  dropOnFailure := false
  enableTransactionBalanceRecording := false
  slotHistoryOverride := none

def details : CheckedTransactionDetails where
  nonceAddress := none
  computeBudgetAndLimits := { totalFee := 5, loadedAccountsDataSizeLimit := 1000 }

def message : SVMTransaction where
  instructions := []
  isSigner _ := true
  isWritable _ := true
  accountKeys := [payer]
  feePayer := payer
  recentBlockhash := .replicate 32 17
  numLookupTables := 0
  isInvoked _ := false
  programInstructions := []

theorem funded_store : store.Funded := by
  intro key account slot h
  rw [store] at h
  split_ifs at h
  cases h
  decide

theorem batch_eq_sequence_onePayer :
    loadAndExecuteSanitizedTransactions env config store [(message, .ok details), (message, .ok details)] =
      sequence env config store [(message, .ok details), (message, .ok details)] :=
  batch_eq_sequence rfl rfl funded_store _

end OnePayer

namespace Vault

def vault : Pubkey := .replicate 32 2
def program : Pubkey := .replicate 32 3
def programdata : Pubkey := .replicate 32 4

/-- The data of a program is the byte that its programdata account repeats. -/
def env : ProcessingEnvironment :=
  { OnePayer.env with
    programdataAddress := fun data => data.head?.map (.replicate 32 ·)
    constructInstructionsData := fun _ => [0, 0]
    programOwners := [.replicate 32 14] }

/-- The store holds the payer, and a program with its programdata account and a vault. -/
def store : Store := fun key =>
  if key = vault then some (⟨10, [], program, false, 0⟩, 0)
  else if key = program then some (⟨1, [4], .replicate 32 14, true, 0⟩, 0)
  else if key = programdata then some (⟨1, [0, 0, 0], .replicate 32 14, false, 0⟩, 0)
  else OnePayer.store key

def instruction : SVMInstruction := { programIdIndex := 2, accounts := [0, 1], data := [] }

/-- The payer calls the program twice, and has loaded a lookup table. -/
def message : SVMTransaction :=
  { OnePayer.message with
    accountKeys := [OnePayer.payer, vault, program, env.sysvarInstructionsId]
    instructions := [instruction, instruction]
    isSigner := (· == 0)
    isWritable := (· < 2)
    isInvoked := (· == 2)
    programInstructions := [(program, instruction), (program, instruction)]
    numLookupTables := 1 }

def details : CheckedTransactionDetails :=
  { OnePayer.details with computeBudgetAndLimits := { totalFee := 5, loadedAccountsDataSizeLimit := 9000 } }

/-- The program pays seven lamports of its vault to the payer. -/
def processMessage : ProcessMessage := fun _ accounts => (.ok (), fun i =>
  let account := (accounts[i]?.map Prod.snd).getD .default
  match i with
  | 0 => { account with lamports := account.lamports + 7 }
  | 1 => { account with lamports := account.lamports - 7 }
  | 3 => { account with data := [1, 0] }
  | _ => account)

end Vault

end Svm
