import Svm.Proof.Batch

/-!
# Failed transactions

What validation captures of the fee payer and the nonce account (`validated`) is what a
failed transaction leaves of them: the fee is charged and the nonce advanced, and
nothing else changes (`failed_transaction_charges`).
-/

namespace Svm

open Run AccountLoader AccountFields

variable {address : Pubkey}

/-! ## Validation -/

section Validation

variable {env : ProcessingEnvironment}

theorem option_elim_ok {ε α : Type} {x : Option α} {e : ε} {a : α} :
    x.elim (.error e) Except.ok = .ok a ↔ x = some a := by
  cases x <;> simp

theorem fields_updateRentExemptStatusForAccount (rent : Rent) (account) :
    (updateRentExemptStatusForAccount rent account).fields = account.fields := by
  rw [updateRentExemptStatusForAccount]
  split <;> rfl

/-- The payer could pay the fee, and has. -/
theorem validateFeePayer_ok (h : validateFeePayer env.toLoadEnvironment address account index fee = .ok account') :
    fee ≤ account.lamports ∧ account' = { account with lamports := account.lamports - fee } ∧
      (env.nonces.getSystemAccountKind account.owner account.data).isSome ∧ (address = env.incineratorId ∨
        transitionAllowed (getAccountRentState env.rent account.lamports account.data.length)
          (getAccountRentState env.rent account'.lamports account'.data.length) = true) := by
  obtain ⟨_, -, h⟩ := except_inv h
  obtain ⟨kind, hkind, h⟩ := except_inv h
  obtain ⟨_, -, h⟩ := except_inv h
  obtain ⟨lamports, hsub, h⟩ := except_inv h
  obtain ⟨_, hrent, h⟩ := except_inv h
  rw [option_elim_ok] at hkind
  rw [option_elim_ok, Machine.U64.checkedSub] at hsub
  split_ifs at hsub with hle
  cases hsub
  cases h
  refine ⟨hle, rfl, by rw [hkind]; rfl, ?_⟩
  have hallowed := failIf_ok.mp hrent
  rwa [not_and_or, not_not, Bool.not_eq_false] at hallowed

/-- What is captured of a nonce account. -/
structure CapturedNonce (env : ProcessingEnvironment) (message : SVMTransaction) (l : AccountLoader) (address : Pubkey)
    (nonce : NonceInfo) : Prop where
  address_eq : nonce.address = address
  captured : ∃ account slot data, l.view address = some (account, slot) ∧
    env.nonces.verifyNonceAccount account.owner account.data message.recentBlockhash = some data ∧
    data.durableNonce ≠ env.nonces.fromBlockhash env.blockhash ∧
    nonce.account = { account with
      data := Bytes.overwrite account.data 0 (env.nonces.serialize (.new (.Initialized
        { authority := data.authority
          durableNonce := env.nonces.fromBlockhash env.blockhash
          lamportsPerSignature := env.blockhashLamportsPerSignature }))) }

theorem run_loadTransactionAccount (h : (loadTransactionAccount key).run l = .ok loaded l') :
    Fetched l l' ∧ (l'.loadedAccounts key).isSome ∧
      loaded.map LoadedTransactionAccount.account = (l.view key).map Prod.fst := by
  obtain ⟨account, l1, hload, h⟩ := bind_inv h
  obtain ⟨hresult, hfetched, hcached⟩ := loadAccount_spec l key
  simp only [result, final, hload, Except.ok.injEq] at hresult hfetched hcached
  cases h
  refine ⟨hfetched, hcached, ?_⟩
  rw [← hresult, Option.map_map]
  exact Option.map_id'

theorem validateNonceInfo_ok (h : (validateNonceInfo env message nonceAddress).run l = .ok nonce l') :
    nonceAddress = none ∧ nonce = none ∨
      ∃ address info, nonceAddress = some address ∧ nonce = some info ∧ CapturedNonce env message l address info := by
  cases nonceAddress with
  | none =>
    cases h
    exact .inl ⟨rfl, rfl⟩
  | some address =>
    obtain ⟨info, l1, hrun, h⟩ := bind_inv h
    cases h
    obtain ⟨loaded, l2, hload, hrun⟩ := bind_inv hrun
    obtain ⟨-, -, haccount⟩ := run_loadTransactionAccount hload
    obtain ⟨hnonce, rfl⟩ := run_ofExcept_eq_ok.mp hrun
    obtain ⟨account, hsome, hnonce⟩ := except_inv hnonce
    obtain ⟨data, hverify, hnonce⟩ := except_inv hnonce
    obtain ⟨_, hcheck, hnonce⟩ := except_inv hnonce
    rw [option_elim_ok] at hsome hverify
    rw [haccount, Option.map_eq_some_iff] at hsome
    obtain ⟨⟨_, slot⟩, hentry, rfl⟩ := hsome
    cases hnonce
    refine .inr ⟨address, _, rfl, rfl, rfl, _, slot, data, hentry, hverify, ?_, rfl⟩
    exact (not_not.mp (failIf_ok.mp hcheck)).1

/-- What validation captures. -/
structure Captured (env : ProcessingEnvironment) (message : SVMTransaction) (l : AccountLoader)
    (details : CheckedTransactionDetails) (rollback : RollbackAccounts) : Prop where
  captured : ∃ nonce payer slot payer' rentEpoch,
    rollback = .new nonce message.feePayer payer' rentEpoch ∧ l.view message.feePayer = some (payer, slot) ∧
    validateFeePayer env.toLoadEnvironment message.feePayer (updateRentExemptStatusForAccount env.rent payer) 0
      details.computeBudgetAndLimits.totalFee = .ok payer' ∧
    (details.nonceAddress = none ∧ nonce = none ∨
      ∃ address info, details.nonceAddress = some address ∧ nonce = some info ∧
        CapturedNonce env message l address info)

/-- The fee payer as it is loaded for the transaction, and for its failure. -/
theorem validateTransactionFeePayer_ok
    (h : (validateTransactionFeePayer env message nonce limits).run l = .ok validated l') :
    ∃ payer slot rentEpoch, l.view message.feePayer = some (payer, slot) ∧
      validateFeePayer env.toLoadEnvironment message.feePayer (updateRentExemptStatusForAccount env.rent payer) 0
        limits.totalFee = .ok validated.loadedFeePayerAccount.account ∧ validated.rollbackAccounts =
        .new nonce message.feePayer validated.loadedFeePayerAccount.account rentEpoch := by
  obtain ⟨loaded, l1, hload, hrun⟩ := bind_inv h
  obtain ⟨-, -, haccount⟩ := run_loadTransactionAccount hload
  obtain ⟨hok, rfl⟩ := run_ofExcept_eq_ok.mp hrun
  obtain ⟨loadedPayer, hsome, h⟩ := except_inv hok
  obtain ⟨account, hpay, h⟩ := except_inv h
  cases h
  rw [option_elim_ok] at hsome
  rw [hsome, Option.map_some, eq_comm, Option.map_eq_some_iff] at haccount
  obtain ⟨⟨payer, slot⟩, hentry, hpayer⟩ := haccount
  rw [← hpayer] at hpay
  exact ⟨payer, slot, _, hentry, hpay, rfl⟩

/-- The fee was taken from the payer. -/
theorem fields_of_validateFeePayer
    (h : validateFeePayer env.toLoadEnvironment address (updateRentExemptStatusForAccount env.rent payer) 0 fee =
      .ok payer') :
    fee ≤ payer.lamports ∧ payer'.fields = { payer.fields with lamports := payer.lamports - fee } := by
  obtain ⟨hle, rfl, -⟩ := validateFeePayer_ok h
  have hfields := fields_updateRentExemptStatusForAccount env.rent payer
  have hlamports : (updateRentExemptStatusForAccount env.rent payer).lamports = payer.lamports :=
    congrArg lamports hfields
  rw [hlamports] at hle ⊢
  refine ⟨hle, ?_⟩
  show ({ (updateRentExemptStatusForAccount env.rent payer).fields with lamports := _ } : AccountFields) = _
  rw [hfields]

theorem validated {validated : ValidatedTransactionDetails}
    (h : (validateTransactionNonceAndFeePayer env message details).run l = .ok validated l') :
    Captured env message l details validated.rollbackAccounts := by
  obtain ⟨nonce, l1, hnonce, h⟩ := bind_inv h
  have hfetched := (loadClosed_fetched.validateNonceInfo env message _).run hnonce
  obtain ⟨payer, slot, rentEpoch, hentry, hpay, hrollback⟩ := validateTransactionFeePayer_ok h
  exact ⟨nonce, payer, slot, _, rentEpoch, hrollback, hfetched.view_of_some hentry, hpay,
    validateNonceInfo_ok hnonce⟩

end Validation

/-! ## Rollback -/

section Rollback

variable {env : ProcessingEnvironment} {message : SVMTransaction} {l l' : AccountLoader} {key : Pubkey}

theorem funded_view (hl : l.Valid) : l.view.Funded := by
  intro key account slot h
  simp only [view, doLoad] at h
  split at h
  · split_ifs at h with hzero
    cases h
    exact hzero
  · exact hl key account slot h

theorem loads_of_view (h : l.view key = some (account, slot)) : l.loads key = some account.fields := by
  rw [loads, h]
  rfl

theorem loads_write (store : Store) (slot : Slot) (entry) (key) :
    (store.write slot entry key).map (fun account => account.1.fields) =
      if key = entry.1 then entry.2.fields.stored else (store key).map fun account => account.1.fields := by
  rw [Store.write]
  by_cases hkey : key = entry.1
  · rw [if_pos hkey, if_pos hkey, stored]
    by_cases hzero : entry.2.lamports = 0
    · rw [if_pos hzero, if_pos (by exact hzero)]
      rfl
    · rw [if_neg hzero, if_neg (by exact hzero)]
      rfl
  · rw [if_neg hkey, if_neg hkey]

theorem CapturedNonce.advanced (h : CapturedNonce env message l address nonce) :
    ∃ account slot, l.view address = some (account, slot) ∧
      nonce.account = { account with data := nonce.account.data } ∧
      NonceAdvanced env account.data nonce.account.data := by
  obtain ⟨account, slot, data, hentry, hverify, -, haccount⟩ := h.captured
  obtain ⟨-, hdata, -⟩ := env.nonces.verify hverify
  refine ⟨account, slot, hentry, by rw [haccount], ?_⟩
  have hfits := env.nonces.fits account.data (.new (.Initialized
    { authority := data.authority
      durableNonce := env.nonces.fromBlockhash env.blockhash
      lamportsPerSignature := env.blockhashLamportsPerSignature })) data hdata
  rw [haccount]
  exact ⟨Bytes.length_overwrite (by simpa using hfits), data, hdata, env.nonces.deserialize_overwrite _ _ hfits⟩

/-- The accounts to write back: that of the payer alone, with its data or, if it is the
nonce account, with the nonce advanced in it, or both. -/
theorem Captured.accounts (h : Captured env message l details rollback) :
    ∃ payer slot payer', l.view message.feePayer = some (payer, slot) ∧
      validateFeePayer env.toLoadEnvironment message.feePayer (updateRentExemptStatusForAccount env.rent payer) 0
        details.computeBudgetAndLimits.totalFee = .ok payer' ∧
      ((∃ account, rollback.accounts = [(message.feePayer, account)] ∧
          account.fields = { payer'.fields with data := account.data } ∧
          (details.nonceAddress = none ∧ account.data = payer.data ∨
            details.nonceAddress = some message.feePayer ∧ NonceAdvanced env payer.data account.data)) ∨
        ∃ info, rollback.accounts = [(message.feePayer, payer'), (info.address, info.account)] ∧
          message.feePayer ≠ info.address ∧ details.nonceAddress = some info.address ∧
          CapturedNonce env message l info.address info) := by
  obtain ⟨nonce, payer, slot, payer', rentEpoch, rfl, hpayer, hpay, hnonce⟩ := h.captured
  refine ⟨payer, slot, payer', hpayer, hpay, ?_⟩
  rcases hnonce with ⟨hnone, rfl⟩ | ⟨_, info, hsome, rfl, hcaptured⟩
  · exact .inl ⟨_, rfl, rfl, .inl ⟨hnone, congrArg data (fields_of_validateFeePayer hpay).2⟩⟩
  obtain rfl := hcaptured.address_eq
  by_cases hsame : message.feePayer = info.address
  · obtain ⟨account, _, hentry, -, hadvanced⟩ := hcaptured.advanced
    rw [← hsame, hpayer] at hentry
    cases hentry
    exact .inl ⟨_, congrArg RollbackAccounts.accounts (if_pos hsame), rfl, .inr ⟨hsame ▸ hsome, hadvanced⟩⟩
  · exact .inr ⟨info, congrArg RollbackAccounts.accounts (if_neg hsame), hsame, hsome, hcaptured⟩

/-- The captured accounts, written back, charge the fee and advance the nonce. -/
theorem Captured.charged (h : Captured env message l details rollback) (hl : l.Valid)
    (hview : l'.view = Store.commit slot rollback.accounts l.view) : Charged env message.feePayer details l l' := by
  obtain ⟨payer, _, payer', hpayer, hpay, hrollback⟩ := h.accounts
  obtain ⟨hle, hfields⟩ := fields_of_validateFeePayer hpay
  have hlamports : payer'.lamports = payer.lamports - details.computeBudgetAndLimits.totalFee :=
    congrArg lamports hfields
  have howner : payer'.owner = payer.owner := congrArg owner hfields
  have hexecutable : payer'.executable = payer.executable := congrArg executable hfields
  have hsame : payer'.data = payer.data := congrArg data hfields
  rcases hrollback with ⟨account, haccounts, haccount, hdata⟩ | ⟨info, haccounts, hne, hsome, hcaptured⟩
  · have hwrite (key : Pubkey) : l'.loads key =
        if key = message.feePayer then account.fields.stored else l.loads key := by
      rw [loads, hview, haccounts]
      exact loads_write _ _ _ _
    rw [haccount] at hwrite
    refine ⟨⟨payer.fields, _, loads_of_view hpayer, by rw [hwrite, if_pos rfl], hle, hlamports, howner, hexecutable, ?_⟩,
      fun key hne hkey => ?_, fun key hne _ => by rw [hview, haccounts]; exact if_neg hne⟩
    · rcases hdata with ⟨hnone, hdata⟩ | ⟨hsome, hadvanced⟩
      · rw [hnone, if_neg nofun]
        exact hdata
      · rwa [hsome, if_pos rfl]
    · rcases hdata with ⟨hnone, -⟩ | ⟨hsome, -⟩
      · cases hnone.symm.trans hkey
      · exact absurd (Option.some.inj (hkey.symm.trans hsome)) hne
  · obtain ⟨account, nonceSlot, hentry, hinfo, hadvanced⟩ := hcaptured.advanced
    have hwrite (key : Pubkey) : l'.loads key = if key = info.address then info.account.fields.stored
        else if key = message.feePayer then payer'.fields.stored else l.loads key := by
      rw [loads, hview, haccounts]
      refine (loads_write _ _ _ _).trans ?_
      rw [loads_write]
      rfl
    have hstored : info.account.fields.stored = some { account.fields with data := info.account.data } := by
      rw [hinfo]
      exact if_neg (funded_view hl _ account nonceSlot hentry)
    refine ⟨⟨payer.fields, payer'.fields, loads_of_view hpayer, ?_, hle, hlamports, howner, hexecutable, ?_⟩,
      fun key _ hkey => ?_, fun key hkey hkey' => ?_⟩
    · rw [hwrite, if_neg hne, if_pos rfl]
    · rw [hsome, if_neg fun h => hne (Option.some.inj h).symm]
      exact hsame
    · cases hsome.symm.trans hkey
      exact ⟨account.fields, _, loads_of_view hentry, by rw [hwrite, if_pos rfl, hstored], hadvanced⟩
    · rw [hview, haccounts]
      exact (if_neg fun (h : key = info.address) => hkey' (h ▸ hsome)).trans (if_neg hkey)

end Rollback

/-! ## A failed transaction -/

section Failed

variable {env : ProcessingEnvironment} {config : ProcessingConfig} {message : SVMTransaction} {l l' : AccountLoader}
  {checked : Except TransactionError CheckedTransactionDetails} {loadResult : TransactionLoadResult}

/-- The accounts that a load result captured for a failure. -/
def TransactionLoadResult.rollback : TransactionLoadResult → Option RollbackAccounts
  | .Loaded tx => some tx.rollbackAccounts
  | .FeesOnly tx => some tx.rollbackAccounts
  | .NotLoaded _ => none

theorem loadTransaction_rollback {validated : Except TransactionError ValidatedTransactionDetails}
    (h : (loadTransaction env.toLoadEnvironment message validated).run l = .ok loadResult l')
    (hrollback : loadResult.rollback = some rollback) :
    ∃ details, validated = .ok details ∧ rollback = details.rollbackAccounts := by
  cases validated with
  | error e =>
    cases h
    cases hrollback
  | ok details =>
    obtain ⟨loaded, l1, -, h⟩ := bind_inv h
    cases loaded with
    | ok c | error e =>
      cases h
      cases hrollback
      exact ⟨details, rfl, rfl⟩

theorem validateAndLoad_captured (h : (validateAndLoad env config message checked).run l = .ok loadResult l')
    (hrollback : loadResult.rollback = some rollback) :
    ∃ details, checked = .ok details ∧ Captured env message l details rollback := by
  obtain ⟨validated', l1, hvalidate, h⟩ := bind_inv h
  obtain ⟨loadResult', l2, hload, h⟩ := bind_inv h
  obtain ⟨_, l3, -, h⟩ := bind_inv h
  cases h
  obtain ⟨details, rfl, rfl⟩ := loadTransaction_rollback hload hrollback
  rw [run_attempt] at hvalidate
  have hok := result_ok.mp (EStateM.Result.ok.inj hvalidate).1
  obtain ⟨checkedDetails, hchecked, hok⟩ := ofExcept_inv hok
  exact ⟨checkedDetails, hchecked, validated hok⟩

/-- A transaction that is processed and fails commits what its load result captured. -/
theorem accountsToCommit_of_failed
    (h : (processLoadResult env config message loadResult l).1 = .ok p) (hfailed : p.Failed) :
    config.dropOnFailure = false ∧
      ∃ rollback, loadResult.rollback = some rollback ∧ accountsToCommit message (.ok p) = rollback.accounts := by
  obtain ⟨tx, rfl, rfl, hdrop⟩ | ⟨tx, rfl, rfl, hdrop⟩ := processLoadResult_ok h
  · exact ⟨hdrop, tx.rollbackAccounts, rfl, rfl⟩
  · refine ⟨by simpa using mt hdrop hfailed, tx.rollbackAccounts, rfl, ?_⟩
    cases hstatus : (executeLoadedTransaction env message tx).status with
    | ok u => exact absurd hstatus hfailed
    | error e =>
      simp only [accountsToCommit, hstatus]
      rfl

theorem processTransaction_ok (hp : (processTransaction env config message checked l).1 = .ok p) :
    ∃ loadResult l1, (validateAndLoad env config message checked).run l = .ok loadResult l1 ∧
      (processLoadResult env config message loadResult l1).1 = .ok p := by
  rw [processTransaction] at hp
  cases hrun : (validateAndLoad env config message checked).run l with
  | error e l1 => simp [hrun] at hp
  | ok loadResult l1 =>
    simp only [hrun] at hp
    exact ⟨loadResult, l1, rfl, hp⟩

/-- A failed transaction on any loader. -/
theorem processTransaction_failed (hl : l.Valid)
    (hp : (processTransaction env config message checked l).1 = .ok p) (hfailed : p.Failed) :
    config.dropOnFailure = false ∧ ∃ details, checked = .ok details ∧
      Charged env message.feePayer details l (processTransaction env config message checked l).2 := by
  obtain ⟨-, hview⟩ := processTransaction_spec env config message checked hl
  rw [hp] at hview
  obtain ⟨loadResult, l1, hrun, hp⟩ := processTransaction_ok hp
  obtain ⟨hdrop, rollback, hrollback, hcommit⟩ := accountsToCommit_of_failed hp hfailed
  obtain ⟨details, hchecked, hcaptured⟩ := validateAndLoad_captured hrun hrollback
  rw [hcommit] at hview
  exact ⟨hdrop, details, hchecked, hcaptured.charged hl hview⟩

theorem valid_loaderAfter (hstore : store.Funded) (txs) :
    (loaderAfter env config store txs).Valid := by
  have hnew : (new env.toLoadEnvironment config.slotHistoryOverride store).Valid := by
    rw [new.eq_def]
    split <;> exact hstore
  rw [loaderAfter]
  generalize new env.toLoadEnvironment config.slotHistoryOverride store = l at hnew
  induction txs generalizing l with
  | nil => exact hnew
  | cons tx txs ih => exact ih _ (processTransaction_spec env config tx.1 tx.2 hnew).1

/-- At every position of a batch: a transaction that is processed and fails charges
exactly its fee and advances its nonce, and one that is not processed leaves what can be
loaded entirely unchanged. With `drop_on_failure` no failing transaction is processed. -/
theorem failed_transaction_charges {store : Store} (hstore : store.Funded) (before : List CheckedTransaction)
    (tx : CheckedTransaction) :
    let l := loaderAfter env config store before
    let l' := (processTransaction env config tx.1 tx.2 l).2
    let processed := (processTransaction env config tx.1 tx.2 l).1
    (∀ p, processed = .ok p → p.Failed → config.dropOnFailure = false ∧
      ∃ details, tx.2 = .ok details ∧ Charged env tx.1.feePayer details l l') ∧
    (∀ err, processed = .error err → l'.view = l.view) := by
  intro l l' processed
  have hl : l.Valid := valid_loaderAfter hstore before
  refine ⟨fun p hp hfailed => processTransaction_failed hl hp hfailed, fun err herr => ?_⟩
  have hview := (processTransaction_spec env config tx.1 tx.2 hl).2
  rw [show (processTransaction env config tx.1 tx.2 l).1 = .error err from herr] at hview
  exact hview

end Failed

namespace OnePayer

/-- The second of two failing transactions is charged for as the first is. -/
theorem second_transaction_charges :
    let l := loaderAfter env config store [(message, .ok details)]
    ∃ p, (processTransaction env config message (.ok details) l).1 = .ok p ∧ p.Failed ∧
      ∃ details', Except.ok details = Except.ok (ε := TransactionError) details' ∧
        Charged env payer details' l (processTransaction env config message (.ok details) l).2 := by
  refine ⟨_, rfl, nofun, ?_⟩
  refine ((failed_transaction_charges funded_store [(message, .ok details)] (message, .ok details)).1 _ rfl ?_).2
  exact nofun

end OnePayer

end Svm
