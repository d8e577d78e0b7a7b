import Svm.Proof.BatchFees

/-!
# Loaded transactions

The accounts that a transaction is executed with (`validateAndLoad_loaded`): the fee
payer, from which the fee was taken, and each other account of the message as the loader
shows it; the programs of the message are owned by a loader.
-/

namespace Svm

open Run AccountLoader AccountFields

theorem exists_of_forall₂ {α β : Type} {R : α → β → Prop} {l : List α} {l' : List β} (h : List.Forall₂ R l l') {b : β}
    (hb : b ∈ l') : ∃ a ∈ l, R a b := by
  induction h with
  | nil => cases hb
  | cons hab _ ih =>
    rcases List.mem_cons.mp hb with rfl | hb
    · exact ⟨_, List.mem_cons_self, hab⟩
    · obtain ⟨a, ha, hR⟩ := ih hb
      exact ⟨a, List.mem_cons_of_mem _ ha, hR⟩

/-! ## What is seen of the store -/

/-- The account at an address, where one at zero lamports is none. -/
def AccountLoader.seen (l : AccountLoader) (key : Pubkey) : Option AccountFields :=
  (l.loads key).bind stored

theorem bind_stored (f : AccountFields) : f.stored.bind stored = f.stored := by
  by_cases hzero : f.lamports = 0
  · simp [stored, hzero]
  · simp [stored, hzero]

namespace AccountLoader

variable {l : AccountLoader}

theorem loads_of_cached (h : l.loadedAccounts key = some entry) : l.loads key = entry.1.fields.stored := by
  simp only [loads, view, doLoad, h, stored]
  by_cases hzero : entry.1.lamports = 0
  · rw [if_pos hzero, if_pos (by exact hzero)]
    rfl
  · rw [if_neg hzero, if_neg (by exact hzero)]
    rfl

theorem loads_of_fresh (h : l.loadedAccounts key = none) :
    l.loads key = (l.callbacks key).map fun entry => entry.1.fields := by
  simp [loads, view, doLoad, h]

theorem seen_of_cached (h : l.loadedAccounts key = some entry) : l.seen key = entry.1.fields.stored := by
  rw [seen, loads_of_cached h, bind_stored]

theorem loads_eq_seen (h : (l.loadedAccounts key).isSome) : l.loads key = l.seen key := by
  obtain ⟨entry, hentry⟩ := Option.isSome_iff_exists.mp h
  rw [loads_of_cached hentry, seen_of_cached hentry]

theorem Fetched.seen (h : Fetched l l') (key) : l'.seen key = l.seen key := by
  rcases h.entry key with hsame | ⟨hnone, hsome⟩
  · rw [AccountLoader.seen, AccountLoader.seen, loads, loads, AccountLoader.view, AccountLoader.view, doLoad, doLoad,
      hsame, h.callbacks]
  · rw [seen_of_cached hsome, AccountLoader.seen, loads_of_fresh hnone]
    cases l.callbacks key with
    | none => rfl
    | some entry => rfl

end AccountLoader

section Loading

variable {env : LoadEnvironment} {message : SVMTransaction} {l l' l'' : AccountLoader}
  {key : Pubkey} {c c' : LoadedTransactionAccounts} {limit : Nat} {entry : Pubkey × Account}

/-! ## The accounts of the message -/

/-- The account at an address of the message, other than the fee payer, as it was loaded
between `l` and `l'`. -/
structure LoadedAt (env : LoadEnvironment) (message : SVMTransaction) (l l' : AccountLoader) (key : Pubkey)
    (entry : Pubkey × Account) : Prop where
  key_eq : entry.1 = key
  sysvar : key = env.sysvarInstructionsId → entry.2 = constructInstructionsAccount env message
  stored : key ≠ env.sysvarInstructionsId →
    (∃ l1, Fetched l l1 ∧ entry.2.fields = (l1.loads key).getD Account.default.fields) ∧
      (l'.loadedAccounts key).isSome

theorem AccountLoader.Fetched.isSome (h : Fetched l l') (hkey : (l.loadedAccounts key).isSome) : (l'.loadedAccounts key).isSome := by
  obtain ⟨entry, hentry⟩ := Option.isSome_iff_exists.mp hkey
  rw [h.cached hentry]
  rfl

theorem LoadedAt.before (hfetched : Fetched l l') (h : LoadedAt env message l' l'' key entry) :
    LoadedAt env message l l'' key entry := by
  refine ⟨h.key_eq, h.sysvar, fun hkey => ?_⟩
  obtain ⟨⟨l1, hl1, hfields⟩, hcached⟩ := h.stored hkey
  exact ⟨⟨l1, hfetched.trans hl1, hfields⟩, hcached⟩

theorem LoadedAt.after (hfetched : Fetched l' l'') (h : LoadedAt env message l l' key entry) :
    LoadedAt env message l l'' key entry :=
  ⟨h.key_eq, h.sysvar, fun hkey => (h.stored hkey).imp_right hfetched.isSome⟩

theorem loadMessageAccount_loadedAt (h : (loadMessageAccount env message index key).run l = .ok loaded l') :
    LoadedAt env message l l' key (key, loaded.account) := by
  rw [loadMessageAccount] at h
  split at h
  · rename_i hkey
    cases h
    exact ⟨rfl, fun _ => rfl, fun hne => absurd hkey hne⟩
  · rename_i hkey
    obtain ⟨found, l1, hload, h⟩ := bind_inv h
    obtain ⟨hfetched, hcached, haccount⟩ := run_loadTransactionAccount hload
    have hloads : l.loads key = found.map fun found => found.account.fields := by
      have hmap := congrArg (Option.map Account.fields) haccount
      rw [Option.map_map, Option.map_map] at hmap
      exact hmap.symm
    refine ⟨rfl, fun hsysvar => absurd hsysvar hkey, fun _ => ⟨⟨l, .refl l, ?_⟩, ?_⟩⟩
    · rw [hloads]
      cases found with
      | none =>
        cases h
        rfl
      | some found =>
        dsimp only at h
        split at h
        · cases h
          exact fields_updateRentExemptStatusForAccount env.rent found.account
        · cases h
          rfl
    · cases found with
      | none =>
        cases h
        exact hcached
      | some found =>
        dsimp only at h
        split at h <;> cases h <;> exact hcached

theorem collectProgramdata_accounts
    (h : (collectProgramdata message limit address c).run l = .ok c' l') : c'.accounts = c.accounts := by
  rw [collectProgramdata] at h
  split at h
  · cases h
    rfl
  · obtain ⟨account, l1, -, h⟩ := bind_inv h
    cases account with
    | none =>
      cases h
      rfl
    | some account =>
      obtain ⟨size, -, h⟩ := ofExcept_inv h
      cases h
      rfl

theorem collectLoadedAccount_accounts
    (h : (collectLoadedAccount env message limit c key loaded).run l = .ok c' l') :
    c'.accounts = c.accounts ++ [(key, loaded.account)] := by
  obtain ⟨size, -, h⟩ := ofExcept_inv h
  dsimp only at h
  split at h
  · obtain ⟨c1, l1, hprogramdata, h⟩ := bind_inv h
    cases h
    have haccounts := collectProgramdata_accounts hprogramdata
    exact congrArg (· ++ [(key, loaded.account)]) haccounts
  · cases h
    rfl

theorem fetched_loop (c) {entries : List (Pubkey × Nat)} :
    Along Fetched (entries.foldlM (fun c (key, index) => do
      let loadedAccount ← loadMessageAccount env message index key
      collectLoadedAccount env message limit c key loadedAccount) c) :=
  loadClosed_fetched.foldlM (γ := Pubkey × Nat) (fun c entry =>
    loadClosed_fetched.bind (loadClosed_fetched.loadMessageAccount env message entry.2 entry.1)
      fun loaded => loadClosed_fetched.collectLoadedAccount env message limit c entry.1 loaded)
    entries c

/-- The loop over the accounts of the message. -/
theorem foldlM_collect_accounts {entries : List (Pubkey × Nat)} (h : (entries.foldlM (fun c (key, index) => do
      let loadedAccount ← loadMessageAccount env message index key
      collectLoadedAccount env message limit c key loadedAccount) c).run l = .ok c' l') :
    ∃ rest, c'.accounts = c.accounts ++ rest ∧
      List.Forall₂ (LoadedAt env message l l') (entries.map Prod.fst) rest := by
  induction entries generalizing c l with
  | nil =>
    cases h
    exact ⟨[], (List.append_nil _).symm, .nil⟩
  | cons entry entries ih =>
    obtain ⟨key, index⟩ := entry
    obtain ⟨c1, l1, hstep, h⟩ := bind_inv h
    obtain ⟨loaded, l2, hload, hcollect⟩ := bind_inv hstep
    obtain ⟨rest, haccounts, hrest⟩ := ih h
    have hfetched2 := (loadClosed_fetched.loadMessageAccount env message _ _).run hload
    have hfetched1 := (loadClosed_fetched.collectLoadedAccount env message limit _ _ _).run hcollect
    have hfetched := (fetched_loop c1).run h
    refine ⟨(key, loaded.account) :: rest, ?_, .cons ?_ ?_⟩
    · rw [haccounts, collectLoadedAccount_accounts hcollect, List.append_assoc]
      rfl
    · exact (loadMessageAccount_loadedAt hload).after (hfetched1.trans hfetched)
    · exact hrest.imp fun _ _ h => h.before (hfetched2.trans hfetched1)

/-! ## The programs of the message -/

/-- The address holds a program, as it was loaded after `l`. -/
def ProgramAt (env : LoadEnvironment) (l : AccountLoader) (programId : Pubkey) : Prop :=
  ∃ l1 f, Fetched l l1 ∧ l1.loads programId = some f ∧ (f.owner = env.nativeLoaderId ∨ f.owner ∈ env.programOwners)

theorem ProgramAt.before (hfetched : Fetched l l')
    (h : ProgramAt env l' programId) : ProgramAt env l programId := by
  obtain ⟨l1, f, hl1, h⟩ := h
  exact ⟨l1, f, hfetched.trans hl1, h⟩

theorem checkProgram_programAt (h : (checkProgram env programId).run l = .ok u l') : ProgramAt env l programId := by
  obtain ⟨loaded, l1, hload, h⟩ := bind_inv h
  have hresult := (loadAccount_spec l programId).1
  rw [result, hload, Except.ok.injEq] at hresult
  cases loaded with
  | none => cases h
  | some account =>
    have howner := (run_throwIf_ok.mp h).1
    refine ⟨l, account.fields, .refl l, ?_, ?_⟩
    · have hmap := congrArg (Option.map Account.fields) hresult
      rw [Option.map_map] at hmap
      exact hmap.symm
    · rwa [not_and_or, not_not, not_not] at howner

theorem forM_checkProgram_programAt {instructions : List (Pubkey × SVMInstruction)}
    (h : (instructions.forM fun (programId, _) => checkProgram env programId).run l = .ok u l') :
    ∀ entry ∈ instructions, ProgramAt env l entry.1 := by
  induction instructions generalizing l with
  | nil => exact fun entry hentry => nomatch hentry
  | cons first instructions ih =>
    obtain ⟨_, l1, hcheck, h⟩ := bind_inv h
    intro entry hentry
    rcases List.mem_cons.mp hentry with rfl | hentry
    · exact checkProgram_programAt hcheck
    · exact (ih h entry hentry).before ((loadClosed_fetched.checkProgram env _).run hcheck)

/-! ## The transaction -/

theorem loadTransactionAccounts_ok (h : (loadTransactionAccounts env message payer limit).run l = .ok c l') :
    (∃ rest, c.accounts = (message.feePayer, payer.account) :: rest ∧
      List.Forall₂ (LoadedAt env message l l') (message.accountKeys.drop 1) rest) ∧
    ∀ entry ∈ message.programInstructions, ProgramAt env l entry.1 := by
  obtain ⟨size, -, h⟩ := ofExcept_inv h
  obtain ⟨c1, l1, hfirst, h⟩ := bind_inv h
  obtain ⟨c2, l2, hloop, h⟩ := bind_inv h
  obtain ⟨_, l3, hprograms, h⟩ := bind_inv h
  cases h
  have hfetched1 := (loadClosed_fetched.collectLoadedAccount env message limit _ _ _).run hfirst
  have hfetched2 := (fetched_loop c1).run hloop
  have hfetched3 : Fetched l2 l' := (loadClosed_fetched.forM (γ := Pubkey × SVMInstruction)
    (fun entry => loadClosed_fetched.checkProgram env entry.1) _).run hprograms
  obtain ⟨rest, haccounts, hrest⟩ := foldlM_collect_accounts hloop
  rw [List.map_drop, List.zipIdx_map_fst] at hrest
  refine ⟨⟨rest, ?_, ?_⟩, fun entry hentry => ?_⟩
  · rw [haccounts, collectLoadedAccount_accounts hfirst]
    rfl
  · exact hrest.imp fun _ _ h => (h.before hfetched1).after hfetched3
  · exact (forM_checkProgram_programAt hprograms entry hentry).before (hfetched1.trans hfetched2)

variable {env : ProcessingEnvironment}

/-- What a loaded transaction was loaded from. -/
structure Loaded (env : ProcessingEnvironment) (message : SVMTransaction)
    (checked : Except TransactionError CheckedTransactionDetails) (l l' : AccountLoader)
    (tx : LoadedTransaction) : Prop where
  accounts : ∃ payer slot details payer' rest,
    l.view message.feePayer = some (payer, slot) ∧
    validateFeePayer env.toLoadEnvironment message.feePayer (updateRentExemptStatusForAccount env.rent payer) 0
      details.computeBudgetAndLimits.totalFee = .ok payer' ∧
    tx.accounts = (message.feePayer, payer') :: rest ∧ checked = .ok details ∧
    List.Forall₂ (LoadedAt env.toLoadEnvironment message l l') (message.accountKeys.drop 1) rest
  programs : ∀ entry ∈ message.programInstructions, ProgramAt env.toLoadEnvironment l entry.1

theorem validateAndLoad_loaded (h : (validateAndLoad env config message checked).run l = .ok (.Loaded tx) l') :
    Loaded env message checked l l' tx := by
  obtain ⟨validated', l1, hvalidate, h⟩ := bind_inv h
  obtain ⟨loadResult, l2, hload, h⟩ := bind_inv h
  obtain ⟨_, l3, hbalances, h⟩ := bind_inv h
  cases h
  obtain ⟨details, rfl, -⟩ := loadTransaction_rollback hload rfl
  rw [run_attempt] at hvalidate
  obtain ⟨hresult, rfl⟩ := EStateM.Result.ok.inj hvalidate
  have hok := result_ok.mp hresult
  obtain ⟨checkedDetails, hchecked, hok⟩ := ofExcept_inv hok
  obtain ⟨nonce, l4, hnonce, hok⟩ := bind_inv hok
  have hfetched1 := (loadClosed_fetched.validateNonceInfo env message _).run hnonce
  have hfetched2 := (loadClosed_fetched.validateTransactionFeePayer env message _ _).run hok
  have hfetched4 := (loadClosed_fetched.collectBalances env config message).run hbalances
  obtain ⟨payer, slot, rentEpoch, hentry, hpay, -⟩ := validateTransactionFeePayer_ok hok
  obtain ⟨loaded, l5, hload, h⟩ := bind_inv hload
  rw [run_attempt] at hload
  obtain ⟨hresult, rfl⟩ := EStateM.Result.ok.inj hload
  cases loaded with
  | error e => cases h
  | ok c =>
    cases h
    obtain ⟨⟨rest, haccounts, hrest⟩, hprograms⟩ := loadTransactionAccounts_ok (result_ok.mp hresult)
    refine ⟨⟨payer, slot, checkedDetails, _, rest, hfetched1.view_of_some hentry, hpay, haccounts, hchecked, ?_⟩,
      fun entry hentry => ?_⟩
    · exact hrest.imp fun _ _ h => (h.before (hfetched1.trans hfetched2)).after hfetched4
    · exact (hprograms entry hentry).before (hfetched1.trans hfetched2)

/-! ## Storing -/

theorem accountsToCommit_of_succeeded
    (h : (processLoadResult env config message loadResult l).1 = .ok p) (hsucceeded : ¬ p.Failed) :
    ∃ tx accounts, loadResult = .Loaded tx ∧ env.execute message tx = (.ok (), accounts) ∧
      accountsToCommit message (.ok p) = accountsToStore message accounts := by
  obtain ⟨tx, rfl, rfl, -⟩ | ⟨tx, rfl, rfl, -⟩ := processLoadResult_ok h
  · exact absurd trivial hsucceeded
  · have hstatus : (executeLoadedTransaction env message tx).status = .ok () := not_not.mp hsucceeded
    refine ⟨tx, (env.execute message tx).2, rfl, Prod.ext hstatus rfl, ?_⟩
    simp only [accountsToCommit, hstatus]
    rfl

/-- A transaction that succeeds was loaded and executed, and its accounts are stored. -/
theorem processTransaction_succeeded
    (hp : (processTransaction env config message checked l).1 = .ok p) (hsucceeded : ¬ p.Failed) :
    ∃ tx l1 accounts, (validateAndLoad env config message checked).run l = .ok (.Loaded tx) l1 ∧
      env.execute message tx = (.ok (), accounts) ∧
      accountsToCommit message (.ok p) = accountsToStore message accounts := by
  obtain ⟨loadResult, l1, hrun, hp⟩ := processTransaction_ok hp
  obtain ⟨tx, accounts, rfl, h⟩ := accountsToCommit_of_succeeded hp hsucceeded
  exact ⟨tx, l1, accounts, hrun, h⟩

theorem mem_accountsToStore_iff :
    entry ∈ accountsToStore message accounts ↔ ∃ i, accounts[i]? = some entry ∧ i < message.accountKeys.length ∧
      message.isWritable i = true ∧ (message.isInvoked i && !message.isInstructionAccount i) = false := by
  have hmem (i : Nat) : (entry, i) ∈ (accounts.take message.accountKeys.length).zipIdx ↔
      accounts[i]? = some entry ∧ i < message.accountKeys.length := by
    rw [List.mem_zipIdx_iff_getElem?]
    by_cases hi : i < message.accountKeys.length
    · simp [hi]
    · simp [hi]
  rw [accountsToStore, List.mem_map]
  constructor
  · rintro ⟨⟨entry, i⟩, hentry, rfl⟩
    obtain ⟨hi, hkeep⟩ := List.mem_filter.mp hentry
    rw [Bool.and_eq_true, Bool.not_eq_true'] at hkeep
    obtain ⟨hget, hlt⟩ := (hmem i).mp hi
    exact ⟨i, hget, hlt, hkeep.1, hkeep.2⟩
  · rintro ⟨i, hget, hlt, hwritable, hkeep⟩
    refine ⟨(entry, i), List.mem_filter.mpr ⟨(hmem i).mpr ⟨hget, hlt⟩, ?_⟩, rfl⟩
    rw [Bool.and_eq_true, Bool.not_eq_true']
    exact ⟨hwritable, hkeep⟩

end Loading

end Svm
