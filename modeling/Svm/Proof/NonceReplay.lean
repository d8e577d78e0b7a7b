import Svm.Proof.Loading
import Svm.Proof.Programs.SystemPolicy
import Svm.Spec.NonceReplay

/-!
# A durable nonce is spent once per batch

A property of accounts is `Stable` when neither the execution of a transaction nor the
rollback of a failed one can end it; the transactions of a batch then keep it
(`Stable.processTransaction`). After a nonce was used its account is `Spent` for as long
as the blockhash stays, and no transaction validates with a spent nonce
(`nonce_spent_once`).
-/

namespace Svm

open Run AccountLoader Ledger AccountFields
open List hiding getElem?_eq_some_iff

section Replay

variable {env : ProcessingEnvironment} {config : ProcessingConfig} {message : SVMTransaction}
  {l l' : AccountLoader} {f f' : AccountFields} {key : Pubkey} {p : ProcessedTransaction}

/-! ## Stable properties -/

/-- A property of the account at one address that a batch keeps. -/
structure Stable (env : ProcessingEnvironment) (P : AccountFields → Prop) : Prop where
  step : ∀ {f f'}, ExecutionStep env f f' → P f → P f'
  congr : ∀ {f f' : AccountFields}, P f → f'.data = f.data → f'.owner = f.owner → P f'
  foreign : ∀ {f : AccountFields}, f.owner ≠ SYSTEM_PROGRAM_ID → P f
  empty : ∀ {f : AccountFields}, f.data = [] → P f
  advanced : ∀ {f : AccountFields} {data : List UInt8}, NonceAdvanced env data f.data → P f

/-- A nonce that no transaction validates with. -/
def Spent (env : ProcessingEnvironment) (f : AccountFields) : Prop :=
  f.owner = SYSTEM_PROGRAM_ID → ∀ versions, env.nonces.deserialize f.data = some versions →
    versions.state = .Uninitialized ∨
      ∃ data, versions = .Current (.Initialized data) ∧
        data.durableNonce = env.nonces.fromBlockhash env.blockhash

/-- The account holds no nonce of the legacy version. -/
def NotLegacy (env : ProcessingEnvironment) (f : AccountFields) : Prop :=
  f.owner = SYSTEM_PROGRAM_ID → ∀ versions, env.nonces.deserialize f.data = some versions →
    versions.state = .Uninitialized ∨ ∃ data, versions = .Current (.Initialized data)

/-- A property of the states of a nonce account that the system program keeps. -/
structure NonceInvariant (env : ProcessingEnvironment) (Q : NonceVersions → Prop) : Prop where
  uninitialized : ∀ {versions}, versions.state = .Uninitialized → Q versions
  next : ∀ {data : NonceData}, data.durableNonce = env.nonces.fromBlockhash env.blockhash →
    Q (.Current (.Initialized data))
  authorize : ∀ {data : NonceData} (authority : Pubkey), Q (.Current (.Initialized data)) →
    Q (.Current (.Initialized { data with authority := authority }))
  legacy : ∀ {data : NonceData}, ¬ Q (.Legacy (.Initialized data))

namespace NonceInvariant

variable (hQ : NonceInvariant env Q)

include hQ

theorem nonceStep (hnonces : sys.nonces = env.nonces) (hblockhash : sys.blockhash = env.blockhash)
    (h : System.NonceStep sys versions versions') (hv : Q versions) : Q versions' := by
  have hnext (authority : Pubkey) : Q (.Current (.Initialized (System.nextData sys authority))) :=
    hQ.next (by rw [System.nextData, hnonces, hblockhash])
  cases h with
  | advance => exact hnext _
  | withdraw => exact hQ.uninitialized rfl
  | init _ authority => exact hnext authority
  | authorize h =>
    obtain ⟨nonce, ⟨rfl, rfl⟩ | ⟨rfl, rfl⟩⟩ := sys.nonces.authorized h
    · exact absurd hv hQ.legacy
    · exact hQ.authorize _ hv
  | upgrade h =>
    obtain ⟨nonce, nonce', rfl, rfl⟩ := sys.nonces.upgraded h
    exact absurd hv hQ.legacy

/-- The property of the accounts whose state, if they have one, satisfies `Q`. -/
theorem stable : Stable env fun f => f.owner = SYSTEM_PROGRAM_ID → ∀ versions,
    env.nonces.deserialize f.data = some versions → Q versions := by
  have hzeroed {data : List UInt8} (hzero : ∀ byte ∈ data, byte = 0) {versions : NonceVersions}
      (h : env.nonces.deserialize data = some versions) : Q versions := by
    rw [eq_replicate_iff.mpr ⟨rfl, hzero⟩] at h
    exact hQ.uninitialized (env.nonces.zeroed _ _ h)
  refine ⟨fun hstep hf => ?_, fun hf hdata howner => ?_, fun hne ho => absurd ho hne, fun hdata _ versions h => ?_,
    fun hadv _ versions h => ?_⟩
  · cases hstep with
    | program hprogram hmay =>
      rename_i f f' _
      intro ho versions h
      by_cases howner : f.owner = SYSTEM_PROGRAM_ID
      · obtain ⟨hdata, -, -, -⟩ := hmay.notOwned (by rw [howner]; exact Ne.symm hprogram)
        exact hf howner versions (hdata ▸ h)
      · exact hzeroed (hmay.assigned (by rw [ho]; exact Ne.symm howner)) h
    | system sys hnonces hblockhash hprogram hrun index =>
      have hchanges := System.processInstruction_changes hprogram hrun index
      -- Every elementary change keeps the property.
      refine Relation.ReflTransGen.head_induction_on (motive := fun f _ => (f.owner = SYSTEM_PROGRAM_ID → ∀ versions,
        env.nonces.deserialize f.data = some versions → Q versions) → _) hchanges (fun hf => hf) ?_ hf
      intro f1 f2 hchange _ ih hf1
      refine ih ?_
      cases hchange with
      | lamports lamports _ => exact hf1
      | allocate _ _ _ space => exact fun _ versions h => hzeroed (fun byte hb => eq_of_mem_replicate hb) h
      | assign _ _ hdata owner => exact fun _ versions h => hzeroed hdata h
      | nonce howner hdata hstep hfits =>
        intro _ versions h
        rw [← hnonces, sys.nonces.deserialize_overwrite _ _ hfits] at h
        obtain rfl := Option.some.inj h
        exact hQ.nonceStep hnonces hblockhash hstep (hf1 howner _ (hnonces ▸ hdata))
  · rw [hdata, howner]
    exact hf
  · rw [hdata] at h
    exact hzeroed (fun byte hb => by cases hb) h
  · obtain ⟨-, nonce, -, hnew⟩ := hadv
    rw [hnew] at h
    obtain rfl := Option.some.inj h
    exact hQ.next rfl

end NonceInvariant

theorem stable_spent : Stable env (Spent env) :=
  NonceInvariant.stable
    { uninitialized := fun h => .inl h
      next := fun h => .inr ⟨_, rfl, h⟩
      authorize := by
        rintro data authority (h | ⟨_, h, hnonce⟩)
        · cases h
        · cases h
          exact .inr ⟨_, rfl, hnonce⟩
      legacy := by
        rintro data (h | ⟨_, h, _⟩)
        · cases h
        · cases h }

theorem stable_notLegacy : Stable env (NotLegacy env) :=
  NonceInvariant.stable
    { uninitialized := fun h => .inl h
      next := fun _ => .inr ⟨_, rfl⟩
      authorize := fun _ _ => .inr ⟨_, rfl⟩
      legacy := by
        rintro data (h | ⟨_, h⟩)
        · cases h
        · cases h }

theorem Stable.steps (hP : Stable env P)
    (h : Relation.ReflTransGen (ExecutionStep env) f f') (hf : P f) : P f' := by
  induction h with
  | refl => exact hf
  | tail _ hstep ih => exact hP.step hstep ih

/-! ## Loaded accounts -/

section Loaded

/-- Where the data and the owner of an account of a transaction are from: the store, the
sysvar of the instructions, or no account at all. -/
def LoadedFrom (env : LoadEnvironment) (store : Store) (entry : Pubkey × Account) : Prop :=
  (∃ account slot, store entry.1 = some (account, slot) ∧ entry.2.data = account.data ∧
    entry.2.owner = account.owner) ∨ entry.2.owner = env.sysvarId ∨ entry.2.data = []

theorem LoadedAt.loadedFrom (h : LoadedAt env.toLoadEnvironment message l l' key entry) :
    LoadedFrom env.toLoadEnvironment l.view entry := by
  by_cases hsysvar : key = env.sysvarInstructionsId
  · rw [LoadedFrom, h.sysvar hsysvar]
    exact .inr (.inl rfl)
  · obtain ⟨⟨l1, hfetched, hfields⟩, -⟩ := h.stored hsysvar
    cases hloads : l1.loads key with
    | none =>
      rw [hloads] at hfields
      exact .inr (.inr (congrArg data hfields))
    | some f =>
      rw [hloads] at hfields
      obtain ⟨⟨account, slot⟩, hview, rfl⟩ := Option.map_eq_some_iff.mp hloads
      rw [LoadedFrom, h.key_eq]
      exact .inl ⟨account, slot, hfetched.view_of_some hview, congrArg data hfields, congrArg owner hfields⟩

theorem validateAndLoad_loadedFrom (h : (validateAndLoad env config message checked).run l = .ok (.Loaded tx) l') :
    ∀ entry ∈ tx.accounts, LoadedFrom env.toLoadEnvironment l.view entry := by
  intro entry hentry
  obtain ⟨payer, slot, fee, payer', rest, hview, hpay, htx, -, hrest⟩ := (validateAndLoad_loaded h).accounts
  rw [htx] at hentry
  rcases mem_cons.mp hentry with rfl | hentry
  · obtain ⟨-, hfields⟩ := fields_of_validateFeePayer hpay
    exact .inl ⟨payer, slot, hview, congrArg data hfields, congrArg owner hfields⟩
  · obtain ⟨key, -, hloaded⟩ := exists_of_forall₂ hrest hentry
    exact hloaded.loadedFrom

end Loaded

/-! ## Stable properties of what can be loaded -/

/-- The account at the address, if there is one, satisfies `P`. -/
def AccountLoader.Holds (l : AccountLoader) (key : Pubkey) (P : AccountFields → Prop) : Prop :=
  ∀ f, l.loads key = some f → P f

section Processed

variable {P : AccountFields → Prop}

theorem holds_commit {store : Store} (haccounts : ∀ entry ∈ accounts, entry.1 = key → P entry.2.fields)
    (hstore : ∀ f, (store key).map (fun account => account.1.fields) = some f → P f) :
    ∀ f, (store.commit slot accounts key).map (fun account => account.1.fields) = some f → P f := by
  induction accounts generalizing store with
  | nil => exact hstore
  | cons entry accounts ih =>
    refine ih (fun entry' h => haccounts entry' (mem_cons_of_mem _ h)) fun f hf => ?_
    rw [loads_write] at hf
    split_ifs at hf with hkey
    · rw [AccountFields.stored] at hf
      split_ifs at hf with hzero
      cases hf
      exact haccounts entry mem_cons_self hkey.symm
    · exact hstore f hf

theorem mem_accountsToStore (h : entry ∈ accountsToStore message accounts) : entry ∈ accounts := by
  obtain ⟨i, hi, -⟩ := mem_accountsToStore_iff.mp h
  exact mem_of_getElem? hi

/-- What a transaction does at one address, when its execution is lawful. -/
theorem Stable.processTransaction (hP : Stable env P) (hlawful : env.Lawful)
    (hsysvar : env.sysvarId ≠ SYSTEM_PROGRAM_ID) (config) (message)
    (checked) (hl : l.Valid) (h : l.Holds key P) :
    (processTransaction env config message checked l).2.Holds key P := by
  have hview := (processTransaction_spec env config message checked hl).2
  cases hp : (Svm.processTransaction env config message checked l).1 with
  | error e =>
    rw [hp] at hview
    intro f hf
    rw [loads, hview] at hf
    exact h f hf
  | ok p =>
    by_cases hfailed : p.Failed
    · obtain ⟨-, details, -, hcharged⟩ := processTransaction_failed hl hp hfailed
      intro f' hf'
      by_cases hpayer : key = message.feePayer
      · subst hpayer
        obtain ⟨f, f1, hloads, hloads', -, -, howner, -, hdata⟩ := hcharged.payer
        rw [hloads', AccountFields.stored] at hf'
        split_ifs at hf'
        cases hf'
        split_ifs at hdata
        · exact hP.advanced hdata
        · exact hP.congr (h f hloads) hdata howner
      · by_cases hnonce : details.nonceAddress = some key
        · obtain ⟨f, data, hloads, hloads', hadvanced⟩ := hcharged.nonce key hpayer hnonce
          cases hloads'.symm.trans hf'
          exact hP.advanced hadvanced
        · rw [loads, hcharged.others key hpayer hnonce] at hf'
          exact h f' hf'
    · obtain ⟨tx, l1, accounts, hrun, hexecute, hcommit⟩ := processTransaction_succeeded hp hfailed
      rw [hp, hcommit] at hview
      intro f' hf'
      rw [loads, hview] at hf'
      refine holds_commit (fun entry' hentry' hkey => ?_) h f' hf'
      -- The account that is stored comes from the one that was loaded.
      obtain ⟨entry, hentry, hsame, hsteps⟩ :=
        exists_of_forall₂ (hlawful message tx accounts hexecute) (mem_accountsToStore hentry')
      refine hP.steps hsteps ?_
      rcases validateAndLoad_loadedFrom hrun entry hentry with ⟨account, slot, hfound, hdata, howner⟩ | h' | h'
      · rw [← hsame, hkey] at hfound
        exact hP.congr (h account.fields (loads_of_view hfound)) hdata howner
      · exact hP.foreign (by show entry.2.owner ≠ _; rw [h']; exact hsysvar)
      · exact hP.empty h'

end Processed

/-! ## The batch -/

section Batch

variable {store : Store} {txs : List CheckedTransaction} {checked : Except TransactionError CheckedTransactionDetails}

theorem loaderAfter_succ (h : txs[i]? = some tx) : loaderAfter env config store (txs.take (i + 1)) =
      (processTransaction env config tx.1 tx.2 (loaderAfter env config store (txs.take i))).2 := by
  rw [take_add_one, h, loaderAfter, foldl_append]
  rfl

/-- What one transaction keeps, those up to any later position keep. -/
theorem Stable.loaderAfter (hP : Stable env P) (hlawful : env.Lawful)
    (hsysvar : env.sysvarId ≠ SYSTEM_PROGRAM_ID) (hstore : store.Funded) (hij : i ≤ j)
    (h : (loaderAfter env config store (txs.take i)).Holds key P) :
    (loaderAfter env config store (txs.take j)).Holds key P := by
  induction hij with
  | refl => exact h
  | @step j _ ih =>
    cases htx : txs[j]? with
    | none =>
      rw [take_add_one, htx, Option.toList_none, append_nil]
      exact ih
    | some tx =>
      rw [loaderAfter_succ htx]
      exact hP.processTransaction hlawful hsysvar config tx.1 tx.2 (valid_loaderAfter hstore _) ih

/-- The results without cancellation. -/
def plainResults (env : ProcessingEnvironment) (config : ProcessingConfig) :
    List CheckedTransaction → AccountLoader → List (Except TransactionError ProcessedTransaction)
  | [], _ => []
  | tx :: rest, l =>
    (processTransaction env config tx.1 tx.2 l).1 ::
      plainResults env config rest (processTransaction env config tx.1 tx.2 l).2

theorem plainResults_getElem? (txs) (l) (k : Nat) :
    (plainResults env config txs l)[k]? = txs[k]?.map fun tx => (processTransaction env config tx.1 tx.2
      ((txs.take k).foldl (fun l tx => (processTransaction env config tx.1 tx.2 l).2) l)).1 := by
  induction txs generalizing l k with
  | nil => rfl
  | cons tx rest ih =>
    cases k with
    | zero => rfl
    | succ k =>
      rw [plainResults, getElem?_cons_succ, ih]
      rfl

/-- Every result is the one of its turn, unless the batch was cancelled. -/
theorem processLoop_cases (txs) (results)
    (l) : processLoop env config txs results l = results ++ plainResults env config txs l ∨
      (processLoop env config txs results l).length = results.length + txs.length ∧
        ∀ r ∈ processLoop env config txs results l, r.isOk = false := by
  induction txs generalizing results l with
  | nil => exact .inl (append_nil _).symm
  | cons tx rest ih =>
    rw [processLoop]
    dsimp only
    split
    case isTrue hcancel =>
      rw [Bool.and_eq_true, Bool.not_eq_true'] at hcancel
      refine .inr ⟨?_, fun r hr => isOk_of_mem_cancelled hr hcancel.2⟩
      simp [cancelled]
    case isFalse =>
      rcases ih (results ++ [(processTransaction env config tx.1 tx.2 l).1])
        (processTransaction env config tx.1 tx.2 l).2 with h | ⟨hlength, h⟩
      · exact .inl (h.trans (by rw [append_assoc]; rfl))
      · refine .inr ⟨hlength.trans ?_, h⟩
        simp only [length_append, length_cons, length_nil]
        omega

theorem results_cases (env) (config) (store : Store)
    (hk : k < txs.length) :
    (loadAndExecuteSanitizedTransactions env config store txs)[k]? = resultAt env config store txs k ∨
      ∃ e, (loadAndExecuteSanitizedTransactions env config store txs)[k]? = some (.error e) := by
  rw [loadAndExecuteSanitizedTransactions]
  rcases @processLoop_cases env config txs [] (.new env.toLoadEnvironment config.slotHistoryOverride store)
    with h | ⟨hlength, h⟩
  · left
    rw [h, nil_append, plainResults_getElem?]
    rfl
  · right
    obtain ⟨r, hr⟩ : ∃ r, (processLoop env config txs []
        (.new env.toLoadEnvironment config.slotHistoryOverride store))[k]? = some r :=
      ⟨_, getElem?_eq_getElem (by rwa [hlength, length_nil, zero_add])⟩
    have herror := h r (mem_of_getElem? hr)
    cases r with
    | error e => exact ⟨e, hr⟩
    | ok p => cases herror

/-! ## Nonces -/

/-- A transaction that is processed was validated with its nonce. -/
theorem processTransaction_nonce
    (hp : (processTransaction env config message (.ok details) l).1 = .ok p) (hnonce : details.nonceAddress = some key) :
    ∃ info, CapturedNonce env message l key info := by
  obtain ⟨loadResult, l1, hrun, hp⟩ := processTransaction_ok hp
  have hrollback : ∃ rollback, loadResult.rollback = some rollback := by
    cases loadResult with
    | NotLoaded e => cases hp
    | FeesOnly tx | Loaded tx => exact ⟨_, rfl⟩
  obtain ⟨rollback, hrollback⟩ := hrollback
  obtain ⟨_, hdetails, hcaptured⟩ := validateAndLoad_captured hrun hrollback
  cases hdetails
  obtain ⟨nonce, payer, slot, payer', rentEpoch, -, -, -, hnone | ⟨address, info, haddress, -, hinfo⟩⟩ :=
    hcaptured.captured
  · rw [hnone.1] at hnonce
    cases hnonce
  · rw [haddress] at hnonce
    cases hnonce
    exact ⟨info, hinfo⟩

/-- The nonce that a transaction is validated with is of the current version. -/
theorem CapturedNonce.notLegacy (h : CapturedNonce env message l key nonce) : l.Holds key (NotLegacy env) := by
  obtain ⟨account, slot, data, hentry, hverify, -, -⟩ := h.captured
  obtain ⟨-, hdata, -⟩ := env.nonces.verify hverify
  intro f hf _ versions hversions
  cases (loads_of_view hentry).symm.trans hf
  cases hdata.symm.trans hversions
  exact .inr ⟨data, rfl⟩

theorem CapturedNonce.not_spent (h : CapturedNonce env message l key nonce) : ¬ l.Holds key (Spent env) := by
  obtain ⟨account, slot, data, hentry, hverify, hne, -⟩ := h.captured
  obtain ⟨howner, hdata, -⟩ := env.nonces.verify hverify
  intro hspent
  rcases hspent _ (loads_of_view hentry) howner _ hdata with hstate | ⟨_, heq, hdurable⟩
  · cases hstate
  · cases heq
    exact hne hdurable

theorem NotLegacy.spent (h : NotLegacy env f) (hused : NonceUsed env f) : Spent env f := by
  intro howner versions hversions
  rcases h howner versions hversions with hstate | ⟨data, rfl⟩
  · exact .inl hstate
  · exact .inr ⟨data, rfl, hused howner _ data hversions rfl⟩

/-- A transaction that was processed leaves its nonce spent: if it failed because the
nonce was advanced, otherwise as its nonce instruction left the account. -/
theorem processTransaction_spent (hlawful : env.Lawful) (hsysvar : env.sysvarId ≠ SYSTEM_PROGRAM_ID) (hl : l.Valid)
    (hnonce : details.nonceAddress = some key)
    (hp : (processTransaction env config message (.ok details) l).1 = .ok p)
    (hused : ¬ p.Failed → (processTransaction env config message (.ok details) l).2.Holds key (NonceUsed env)) :
    (processTransaction env config message (.ok details) l).2.Holds key (Spent env) := by
  obtain ⟨info, hinfo⟩ := processTransaction_nonce hp hnonce
  intro f' hf'
  by_cases hfailed : p.Failed
  · obtain ⟨-, _, hdetails, hcharged⟩ := processTransaction_failed hl hp hfailed
    cases hdetails
    by_cases hpayer : key = message.feePayer
    · subst hpayer
      obtain ⟨f, f1, -, hloads', -, -, -, -, hdata⟩ := hcharged.payer
      rw [hloads', AccountFields.stored] at hf'
      split_ifs at hf'
      cases hf'
      rw [if_pos hnonce] at hdata
      exact stable_spent.advanced hdata
    · obtain ⟨f, data, -, hloads', hadvanced⟩ := hcharged.nonce key hpayer hnonce
      cases hloads'.symm.trans hf'
      exact stable_spent.advanced hadvanced
  · have hcurrent := stable_notLegacy.processTransaction hlawful hsysvar config message (.ok details) hl hinfo.notLegacy
    exact (hcurrent f' hf').spent (hused hfailed f' hf')

/-- Of two transactions of a batch with one nonce address, the second fails its
validation when the first was processed: its result is an error, and nothing is charged
for it. The first, when it succeeded, left the account with the nonce of the blockhash
or without an initialized nonce. -/
theorem nonce_spent_once (hlawful : env.Lawful) (hsysvar : env.sysvarId ≠ SYSTEM_PROGRAM_ID) (hstore : store.Funded)
    {i j : Nat} (hij : i < j) {message₁ message₂ : SVMTransaction} {details₁ details₂ : CheckedTransactionDetails}
    (hi : txs[i]? = some (message₁, .ok details₁)) (hj : txs[j]? = some (message₂, .ok details₂))
    (hnonce₁ : details₁.nonceAddress = some key) (hnonce₂ : details₂.nonceAddress = some key)
    {p : ProcessedTransaction} (hp : resultAt env config store txs i = some (.ok p))
    (hused : ¬ p.Failed → ∀ f, (loaderAfter env config store (txs.take (i + 1))).loads key = some f → NonceUsed env f) :
    (∃ err, (loadAndExecuteSanitizedTransactions env config store txs)[j]? = some (.error err)) ∧
      (∃ err, resultAt env config store txs j = some (.error err)) ∧
      ∀ k, (loaderAfter env config store (txs.take (j + 1))).loads k =
        (loaderAfter env config store (txs.take j)).loads k := by
  rw [resultAt, hi, Option.map_some, Option.some_inj] at hp
  rw [loaderAfter_succ hi] at hused
  have hspent := processTransaction_spent hlawful hsysvar (valid_loaderAfter hstore _) hnonce₁ hp hused
  rw [← loaderAfter_succ hi] at hspent
  have hspent' := stable_spent.loaderAfter hlawful hsysvar hstore hij hspent
  have hl : (loaderAfter env config store (txs.take j)).Valid := valid_loaderAfter hstore _
  have herror : ∃ err, (processTransaction env config message₂ (.ok details₂)
      (loaderAfter env config store (txs.take j))).1 = .error err := by
    cases hq : (processTransaction env config message₂ (.ok details₂)
      (loaderAfter env config store (txs.take j))).1 with
    | error err => exact ⟨err, rfl⟩
    | ok q =>
      obtain ⟨info, hinfo⟩ := processTransaction_nonce hq hnonce₂
      exact absurd hspent' hinfo.not_spent
  obtain ⟨err, herror⟩ := herror
  have hresult : resultAt env config store txs j = some (.error err) := by rw [resultAt, hj, ← herror]; rfl
  refine ⟨?_, ⟨err, hresult⟩, fun k => ?_⟩
  · obtain ⟨hlt, -⟩ := getElem?_eq_some_iff.mp hj
    rcases results_cases env config store hlt with h | h
    · exact ⟨err, h.trans hresult⟩
    · exact h
  · have hview := (processTransaction_spec env config message₂ (.ok details₂) hl).2
    rw [herror] at hview
    rw [loaderAfter_succ hj, loads, hview]
    rfl

end Batch

end Replay

/-! ## A nonce that is used twice

Both transactions advance the nonce of `ClosedNonce`, and its authority pays. -/

namespace NonceTwice

open System.ClosedNonce OnePayer

def advanceIc : InstructionContext :=
  ⟨0, 0, 65535, 4, [⟨0, false, true⟩, ⟨2, false, false⟩, ⟨1, true, true⟩], [0, 1, 2], []⟩

def advance : AccountsM Unit :=
  System.processInstruction System.ClosedNonce.env advanceIc System.ClosedNonce.rent .AdvanceNonceAccount

def advanced : AccountFields := (final advance accounts).fieldsAt 0

/-- An execution advances the nonce account, and succeeds. -/
def env : ProcessingEnvironment :=
  { OnePayer.env with
    blockhash := System.ClosedNonce.env.blockhash
    execute := fun _ tx => (.ok (), tx.accounts.map fun x => if x.2.fields = accounts.fieldsAt 0 then
      (x.1, { x.2 with data := advanced.data }) else x) }

def store : Store := fun key =>
  if key = nonceKey then some (⟨100, (accounts.fieldsAt 0).data, SYSTEM_PROGRAM_ID, false, 0⟩, 0)
  else if key = authority then some (⟨1000, [], SYSTEM_PROGRAM_ID, false, 0⟩, 0) else none

def message : SVMTransaction :=
  { OnePayer.message with
    instructions := [{ programIdIndex := 2, accounts := [1, 0], data := [] }]
    accountKeys := [authority, nonceKey]
    feePayer := authority }

def txs : List CheckedTransaction :=
  .replicate 2 (message, .ok { details with nonceAddress := some nonceKey })

theorem funded_store : store.Funded := by
  intro key account slot h
  rw [store] at h
  split_ifs at h
  · cases h
    decide
  · cases h
    decide

theorem lawful : env.Lawful := by
  intro message tx executed h
  cases h
  rw [forall₂_map_right_iff, forall₂_same]
  intro x _
  split_ifs with hx
  · have hadvanced : { accounts.fieldsAt 0 with data := advanced.data } = advanced := by decide +kernel
    refine ⟨rfl, .single ?_⟩
    show ExecutionStep env x.2.fields { x.2.fields with data := _ }
    rw [hx, hadvanced]
    exact .system System.ClosedNonce.env rfl rfl rfl (run_of_isOk (by decide +kernel)) 0
  · exact ⟨rfl, .refl⟩

/-- The first of two transactions with one nonce succeeds, the second is not processed. -/
theorem nonce_spent_once_advanced :
    (∃ p, resultAt env config store txs 0 = some (.ok p) ∧ ¬ p.Failed) ∧
      ∃ err, (loadAndExecuteSanitizedTransactions env config store txs)[1]? = some (.error err) := by
  have hp : ∃ p, resultAt env config store txs 0 = some (.ok p) ∧ ¬ p.Failed := ⟨_, rfl, fun h => h rfl⟩
  refine ⟨hp, ?_⟩
  obtain ⟨p, hp, -⟩ := hp
  have hloads : (loaderAfter env config store (txs.take 1)).loads nonceKey = some advanced := by decide +kernel
  refine (nonce_spent_once lawful (by decide) funded_store zero_lt_one rfl rfl rfl rfl hp fun _ f hf => ?_).1
  cases hloads.symm.trans hf
  intro _ versions data hversions hstate
  have hadvanced : env.nonces.deserialize advanced.data =
      some (.Current (.Initialized ⟨authority, env.blockhash, 5⟩)) := by decide +kernel
  cases hadvanced.symm.trans hversions
  cases hstate
  rfl

end NonceTwice

end Svm
