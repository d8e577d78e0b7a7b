import Svm.Impl.Processor.Execution
import Svm.Proof.Loading

/-!
# No account becomes rent-paying

A rent state may go over into another (`transitionAllowed`), and may then do so in any
number of steps. Taking the fee, rolling back and storing the accounts of a successful
transaction are such steps at every address but the incinerator's
(`processTransaction_rentSteps`), so that an account is rent-paying after a batch only
if it was before (`rent_paying_not_created`).
-/

namespace Svm

open Run AccountLoader AccountFields Prod OnePayer List
open TransactionAccountStateInfo hiding new

section Rent

variable {env : ProcessingEnvironment} {config : ProcessingConfig} {message : SVMTransaction} {l l' l'' : AccountLoader}
  {key : Pubkey} {rent : Rent}
  {accounts : List (Pubkey × Account)} {entry : Pubkey × Account} {tx : LoadedTransaction}

/-! ## Rent states -/

theorem transitionAllowed_refl (state) : transitionAllowed state state = true := by
  cases state <;> simp [transitionAllowed]

/-- Only a rent-paying account may stay one, with the same size and no more lamports. -/
theorem transitionAllowed_rentPaying :
    transitionAllowed s (.RentPaying x n) = true ↔ ∃ y, s = .RentPaying y n ∧ x ≤ y := by
  cases s <;> simp [transitionAllowed, eq_comm (a := n)]

theorem transitionAllowed_trans (h : transitionAllowed s s' = true)
    (h' : transitionAllowed s' s'' = true) : transitionAllowed s s'' = true := by
  cases s'' with
  | Uninitialized => rfl
  | RentExempt => rfl
  | RentPaying =>
    obtain ⟨_, rfl, hle⟩ := transitionAllowed_rentPaying.mp h'
    obtain ⟨_, rfl, hle'⟩ := transitionAllowed_rentPaying.mp h
    exact transitionAllowed_rentPaying.mpr ⟨_, rfl, UInt64.le_trans hle hle'⟩

def AccountFields.rentState (rent : Rent) (f : AccountFields) : RentState :=
  getAccountRentState rent f.lamports f.data.length

/-- The rent state at an address. -/
def AccountLoader.rentState (rent : Rent) (l : AccountLoader) (key : Pubkey) : RentState :=
  (l.seen key).elim .Uninitialized (AccountFields.rentState rent)

theorem rentState_eq_rentPaying {f : AccountFields} : f.rentState rent = .RentPaying x n ↔
      0 < f.lamports ∧ rent.isExempt f.lamports f.data.length = false ∧ f.lamports = x ∧ f.data.length = n := by
  rw [AccountFields.rentState, getAccountRentState, UInt64.pos_iff_ne_zero]
  split_ifs <;> simp_all

theorem rentState_stored (f : AccountFields) :
    f.stored.elim .Uninitialized (rentState rent) = f.rentState rent := by
  rw [stored]
  split_ifs with hzero
  · exact (if_pos hzero).symm
  · rfl

theorem rentState_of_loads (h : l.loads key = some f) : l.rentState rent key = f.rentState rent := by
  rw [AccountLoader.rentState, seen, h]
  exact rentState_stored f

theorem rentState_of_view (h : l.view key = some (account, slot)) :
    l.rentState rent key = account.fields.rentState rent := rentState_of_loads (loads_of_view h)

theorem rentState_getD (l : AccountLoader) (key) :
    ((l.loads key).getD Account.default.fields).rentState rent = l.rentState rent key := by
  cases h : l.loads key with
  | none =>
    rw [AccountLoader.rentState, seen, h]
    rfl
  | some f => exact (rentState_of_loads h).symm

theorem Fetched.rentState (h : Fetched l l') (key) : l'.rentState rent key = l.rentState rent key := by
  rw [AccountLoader.rentState, AccountLoader.rentState, h.seen]

/-! ## Writing accounts -/

/-- At every address but the incinerator's, the rent state of `l` may go over into that
of `l'`. -/
def RentSteps (env : LoadEnvironment) (l l' : AccountLoader) : Prop :=
  ∀ key, key ≠ env.incineratorId → transitionAllowed (l.rentState env.rent key) (l'.rentState env.rent key) = true

theorem RentSteps.trans {env : LoadEnvironment} (h : RentSteps env l l') (h' : RentSteps env l' l'') :
    RentSteps env l l'' := fun key hkey => transitionAllowed_trans (h key hkey) (h' key hkey)

theorem rentSteps_of_fetched {env : LoadEnvironment} (h : Fetched l l') : RentSteps env l l' := by
  intro key _
  rw [Fetched.rentState h]
  exact transitionAllowed_refl _

/-- The account may be written at its address. -/
def Writable (env : LoadEnvironment) (l : AccountLoader) (entry : Pubkey × Account) : Prop :=
  entry.1 ≠ env.incineratorId →
    transitionAllowed (l.rentState env.rent entry.1) (entry.2.fields.rentState env.rent) = true

theorem rentState_insert (l : AccountLoader) (entry : Pubkey × Account) (slot : Slot) (key) :
    (l.insert entry.1 (entry.2, slot)).rentState rent key =
      if key = entry.1 then entry.2.fields.rentState rent else l.rentState rent key := by
  by_cases hkey : key = entry.1
  · have hcached : (l.insert entry.1 (entry.2, slot)).loadedAccounts key = some (entry.2, slot) := if_pos hkey
    rw [if_pos hkey, AccountLoader.rentState, seen_of_cached hcached]
    exact rentState_stored _
  · have hcached : (l.insert entry.1 (entry.2, slot)).loadedAccounts key = l.loadedAccounts key := if_neg hkey
    rw [if_neg hkey]
    simp only [AccountLoader.rentState, seen, loads, view, doLoad, hcached]
    rfl

theorem rentSteps_insertAll {env : LoadEnvironment} (h : RentSteps env l l')
    (haccounts : ∀ entry ∈ accounts, Writable env l entry) : RentSteps env l (l'.insertAll slot accounts) := by
  induction accounts generalizing l' with
  | nil => exact h
  | cons entry accounts ih =>
    refine ih ?_ fun entry' hentry' => haccounts entry' (mem_cons_of_mem _ hentry')
    intro key hkey
    rw [rentState_insert]
    split_ifs with heq
    · subst heq
      exact haccounts entry mem_cons_self hkey
    · exact h key hkey

/-! ## Rollback -/

/-- The fee payer after the fee may be written. -/
theorem writable_payer {payer : Account} (hview : l.view message.feePayer = some (payer, slot))
    (hpay : validateFeePayer env.toLoadEnvironment message.feePayer (updateRentExemptStatusForAccount env.rent payer) 0
      fee = .ok payer') : Writable env.toLoadEnvironment l (message.feePayer, payer') := by
  intro hkey
  have hfields := fields_updateRentExemptStatusForAccount env.rent payer
  obtain ⟨-, -, -, hallowed⟩ := validateFeePayer_ok hpay
  rw [rentState_of_view hview, ← hfields]
  exact hallowed.resolve_left hkey

theorem writable_nonce (h : CapturedNonce env message l address nonce) :
    Writable env.toLoadEnvironment l (nonce.address, nonce.account) := by
  intro _
  obtain ⟨account, slot, hview, haccount, hadvanced⟩ := h.advanced
  have hstate : nonce.account.fields.rentState env.rent = account.fields.rentState env.rent := by
    rw [haccount]
    show getAccountRentState env.rent account.lamports nonce.account.data.length = _
    rw [hadvanced.1]
    rfl
  rw [h.address_eq, rentState_of_view hview, hstate]
  exact transitionAllowed_refl _

theorem writable_rollback {details : CheckedTransactionDetails} (h : Captured env message l details rollback) :
    ∀ entry ∈ rollback.accounts, Writable env.toLoadEnvironment l entry := by
  obtain ⟨payer, slot, payer', hview, hpay, hrollback⟩ := h.accounts
  have hpayer := writable_payer hview hpay
  intro entry hentry
  rcases hrollback with ⟨account, haccounts, haccount, hdata⟩ | ⟨info, haccounts, -, -, hcaptured⟩
  · rw [haccounts] at hentry
    rw [mem_singleton.mp hentry]
    have hlength : account.data.length = payer'.data.length := by
      rw [show payer'.data = payer.data from congrArg data (fields_of_validateFeePayer hpay).2]
      rcases hdata with ⟨-, hdata⟩ | ⟨-, hadvanced⟩
      · rw [hdata]
      · exact hadvanced.1
    have hstate : account.fields.rentState env.rent = payer'.fields.rentState env.rent := by
      rw [haccount]
      exact congrArg (getAccountRentState env.rent payer'.lamports) hlength
    rw [Writable, hstate]
    exact hpayer
  · rw [haccounts] at hentry
    rcases mem_cons.mp hentry with rfl | hentry
    · exact hpayer
    · rw [mem_singleton.mp hentry]
      exact writable_nonce hcaptured

/-! ## Execution -/

theorem except_forM_ok {ε α : Type} {f : α → Except ε Unit} {xs : List α} (h : xs.forM f = .ok ()) :
    ∀ x ∈ xs, f x = .ok () := by
  induction xs with
  | nil => exact fun x hx => nomatch hx
  | cons y ys ih =>
    obtain ⟨_, hy, hys⟩ := except_inv h
    intro x hx
    rcases mem_cons.mp hx with rfl | hx
    · exact hy
    · exact ih hys x hx

theorem stateInfo_getElem? (hi : i < message.accountKeys.length) (hwidth : i < 2 ^ 16)
    (hwritable : message.isWritable i = true) (hentry : accounts[i]? = some entry) :
    (TransactionAccountStateInfo.new rent message accounts)[i]? = some ⟨some (entry.2.fields.rentState rent)⟩ := by
  have hindex : (UInt16.ofNat i).toNat = i := by
    exact Nat.mod_eq_of_lt hwidth
  simp only [TransactionAccountStateInfo.new, getElem?_map, getElem?_range hi, Option.map_some, hwritable,
    hindex, hentry]
  rfl

/-- A writable account whose rent states were verified. -/
theorem verifyChanges_ok {env : LoadEnvironment}
    (h : verifyChanges env (TransactionAccountStateInfo.new env.rent message pre)
      (TransactionAccountStateInfo.new env.rent message post) post = .ok ())
    (hi : i < message.accountKeys.length) (hwidth : i < 2 ^ 16) (hwritable : message.isWritable i = true)
    (hentry : pre[i]? = some entry) (hentry' : post[i]? = some entry') (hkey : entry'.1 ≠ env.incineratorId) :
    transitionAllowed (entry.2.fields.rentState env.rent) (entry'.2.fields.rentState env.rent) = true := by
  have hindex : (UInt16.ofNat i).toNat = i := by
    exact Nat.mod_eq_of_lt hwidth
  have hmem : ((⟨some (entry.2.fields.rentState env.rent)⟩, ⟨some (entry'.2.fields.rentState env.rent)⟩), i) ∈
      ((TransactionAccountStateInfo.new env.rent message pre).zip
        (TransactionAccountStateInfo.new env.rent message post)).zipIdx := by
    rw [mem_zipIdx_iff_getElem?, getElem?_zip_eq_some]
    exact ⟨stateInfo_getElem? hi hwidth hwritable hentry, stateInfo_getElem? hi hwidth hwritable hentry'⟩
  have hcheck := except_forM_ok h _ hmem
  simp only [checkRentState, hindex, hentry'] at hcheck
  have hallowed := failIf_ok.mp hcheck
  rw [not_and_or, not_not, Bool.not_eq_false] at hallowed
  exact hallowed.resolve_left hkey

/-- A successful execution keeps the keys, and its rent states were verified. -/
theorem executeTransaction_ok {env : LoadEnvironment}
    (h : executeTransaction env processMessage message tx = (.ok (), accounts)) :
    accounts.map fst = tx.accounts.map fst ∧
      verifyChanges env (TransactionAccountStateInfo.new env.rent message tx.accounts)
        (TransactionAccountStateInfo.new env.rent message accounts) accounts = .ok () := by
  simp only [executeTransaction] at h
  split at h
  · cases h
  · obtain ⟨hstatus, rfl⟩ := Prod.ext_iff.mp h
    obtain ⟨_, -, hverify⟩ := except_inv hstatus
    refine ⟨?_, hverify⟩
    apply ext_getElem?
    intro i
    simp only [getElem?_map, getElem?_mapIdx, Option.map_map]
    rfl

theorem LoadedAt.writable (h : LoadedAt env.toLoadEnvironment message l l' key entry) :
    Writable env.toLoadEnvironment l entry := by
  intro _
  rw [h.key_eq]
  by_cases hsysvar : key = env.sysvarInstructionsId
  · rw [h.sysvar hsysvar]
    rfl
  · obtain ⟨⟨l1, hfetched, hfields⟩, -⟩ := h.stored hsysvar
    rw [hfields, rentState_getD, Fetched.rentState hfetched]
    exact transitionAllowed_refl _

/-- What a transaction is loaded with may be written. -/
theorem Loaded.writable (h : Loaded env message checked l l' tx) :
    ∀ entry ∈ tx.accounts, Writable env.toLoadEnvironment l entry := by
  obtain ⟨payer, slot, fee, payer', rest, hview, hpay, haccounts, -, hrest⟩ := h.accounts
  intro entry hentry
  rw [haccounts] at hentry
  rcases mem_cons.mp hentry with rfl | hentry
  · exact writable_payer hview hpay
  · obtain ⟨key, -, hloaded⟩ := exists_of_forall₂ hrest hentry
    exact hloaded.writable

/-- What a successful transaction stores may be written. -/
theorem writable_accountsToStore (hkeys : message.accountKeys.length ≤ 2 ^ 16) (h : Loaded env message checked l l' tx)
    (hexecute : executeTransaction env.toLoadEnvironment processMessage message tx = (.ok (), accounts)) :
    ∀ entry ∈ accountsToStore message accounts, Writable env.toLoadEnvironment l entry := by
  intro entry' hentry' hkey
  obtain ⟨hsame, hverify⟩ := executeTransaction_ok hexecute
  obtain ⟨i, hi', hi, hwritable, -⟩ := mem_accountsToStore_iff.mp hentry'
  obtain ⟨entry, hentry, hfst⟩ : ∃ entry, tx.accounts[i]? = some entry ∧ entry.1 = entry'.1 := by
    have hmap := congrArg (fun keys => keys[i]?) hsame
    simp only [getElem?_map, hi'] at hmap
    exact Option.map_eq_some_iff.mp hmap.symm
  have hloaded := h.writable entry (mem_of_getElem? hentry)
  rw [Writable, hfst] at hloaded
  exact transitionAllowed_trans (hloaded hkey)
    (verifyChanges_ok hverify hi (by omega) hwritable hentry hi' hkey)

/-! ## Transactions and batches -/

theorem processTransaction_rentSteps (processMessage) (config)
    (checked) (hkeys : message.accountKeys.length ≤ 2 ^ 16)
    (l) :
    RentSteps env.toLoadEnvironment l (processTransaction (env.executing processMessage) config message checked l).2 := by
  have hfetched := loadClosed_fetched.validateAndLoad (env.executing processMessage) config message checked l
  rw [processTransaction]
  rw [final] at hfetched
  cases hrun : (validateAndLoad (env.executing processMessage) config message checked).run l with
  | error e l1 =>
    rw [hrun] at hfetched
    exact rentSteps_of_fetched hfetched
  | ok loadResult l1 =>
    rw [hrun] at hfetched
    have hwritten := processLoadResult_eq (env.executing processMessage) config message loadResult l1
    refine RentSteps.trans ?_ (rentSteps_of_fetched
      (loadClosed_fetched.collectBalances (env.executing processMessage) config message _))
    rw [hwritten]
    refine rentSteps_insertAll (rentSteps_of_fetched hfetched) ?_
    cases hp : (processLoadResult (env.executing processMessage) config message loadResult l1).1 with
    | error e => exact fun entry hentry => by cases hentry
    | ok p =>
      by_cases hfailed : p.Failed
      · obtain ⟨-, rollback, hrollback, hcommit⟩ := accountsToCommit_of_failed hp hfailed
        obtain ⟨details, -, hcaptured⟩ := validateAndLoad_captured hrun hrollback
        have hwritable := writable_rollback hcaptured
        rw [hcommit]
        exact hwritable
      · obtain ⟨tx, accounts, rfl, hexecute, hcommit⟩ := accountsToCommit_of_succeeded hp hfailed
        have hwritable := writable_accountsToStore hkeys (validateAndLoad_loaded hrun) hexecute
        rw [hcommit]
        exact hwritable

theorem loaderAfter_rentSteps (processMessage) (config) (store : Store)
    {txs : List CheckedTransaction} (hkeys : ∀ tx ∈ txs, tx.1.accountKeys.length ≤ 2 ^ 16) :
    RentSteps env.toLoadEnvironment (loaderAfter (env.executing processMessage) config store [])
      (loaderAfter (env.executing processMessage) config store txs) := by
  simp only [loaderAfter]
  generalize new (env.executing processMessage).toLoadEnvironment config.slotHistoryOverride store = l
  induction txs generalizing l with
  | nil => exact rentSteps_of_fetched (.refl l)
  | cons tx txs ih =>
    refine (processTransaction_rentSteps processMessage config tx.2 (hkeys tx mem_cons_self) l).trans ?_
    exact ih (fun tx' htx' => hkeys tx' (mem_cons_of_mem _ htx')) _

end Rent

/-- An account that is rent-paying after a batch was rent-paying before it, with the same
size and no fewer lamports, unless it is the incinerator. Indices of accounts are `u16`. -/
theorem rent_paying_not_created (env : ProcessingEnvironment) (processMessage : ProcessMessage)
    (config : ProcessingConfig) (store : Store) (txs : List CheckedTransaction)
    (hkeys : ∀ tx ∈ txs, tx.1.accountKeys.length ≤ 2 ^ 16) (key : Pubkey) (hkey : key ≠ env.incineratorId)
    (account : Account) (slot : Slot)
    (hafter : (loaderAfter (env.executing processMessage) config store txs).view key = some (account, slot))
    (hlamports : 0 < account.lamports)
    (hpaying : env.rent.isExempt account.lamports account.data.length = false) :
    ∃ before slot', (loaderAfter (env.executing processMessage) config store []).view key = some (before, slot') ∧
      0 < before.lamports ∧ env.rent.isExempt before.lamports before.data.length = false ∧
      before.data.length = account.data.length ∧ account.lamports ≤ before.lamports := by
  have hsteps := @loaderAfter_rentSteps env processMessage config store txs hkeys key hkey
  have hstate : account.fields.rentState env.rent = .RentPaying account.lamports account.data.length :=
    rentState_eq_rentPaying.mpr ⟨hlamports, hpaying, rfl, rfl⟩
  rw [rentState_of_view hafter, hstate, transitionAllowed_rentPaying] at hsteps
  obtain ⟨lamports, hsteps, hle⟩ := hsteps
  cases hbefore : (loaderAfter (env.executing processMessage) config store []).view key with
  | none =>
    rw [AccountLoader.rentState, seen, loads, hbefore] at hsteps
    cases hsteps
  | some entry =>
    obtain ⟨before, slot'⟩ := entry
    rw [rentState_of_view hbefore] at hsteps
    obtain ⟨hpos, hexempt, rfl, hlength⟩ := rentState_eq_rentPaying.mp hsteps
    exact ⟨before, slot', rfl, hpos, hexempt, hlength, hle⟩

namespace RentPayer

/-- Nothing is rent exempt. -/
def env : ProcessingEnvironment := { OnePayer.env with rent := ⟨fun _ _ => false⟩ }

/-- The instructions change nothing. -/
def processMessage : ProcessMessage := fun _ accounts =>
  (.ok (), fun i => (accounts[i]?.map snd).getD Account.default)

end RentPayer

theorem rent_paying_not_created_payer :
    (loaderAfter (RentPayer.env.executing RentPayer.processMessage) OnePayer.config OnePayer.store
        [(OnePayer.message, .ok OnePayer.details)]).view OnePayer.payer =
      some (⟨95, [], SYSTEM_PROGRAM_ID, false, 0⟩, 1) ∧
    ∃ before slot', (loaderAfter (RentPayer.env.executing RentPayer.processMessage) OnePayer.config OnePayer.store
      []).view OnePayer.payer = some (before, slot') ∧ 95 ≤ before.lamports := by
  have hafter : (loaderAfter (RentPayer.env.executing RentPayer.processMessage) config store
      [(message, .ok details)]).view payer =
        some (⟨95, [], SYSTEM_PROGRAM_ID, false, 0⟩, 1) := rfl
  obtain ⟨before, slot', hview, -, -, -, hle⟩ := rent_paying_not_created RentPayer.env RentPayer.processMessage
    config store [(message, .ok details)]
    (fun tx htx => by rw [mem_singleton.mp htx]; decide) payer (by decide) _ _ hafter (by decide) rfl
  exact ⟨hafter, before, slot', hview, hle⟩

end Svm
