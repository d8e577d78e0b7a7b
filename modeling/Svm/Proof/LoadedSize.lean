import Mathlib.Algebra.Order.BigOperators.Group.Finset
import Mathlib.Data.Finset.Option
import Svm.Framework.Wp
import Svm.Proof.Loading
import Svm.Spec.LoadedSize

/-!
# The size of the loaded accounts

`Counted` relates the accounts collected so far to a sum: the size of what was charged,
and a set of programdata accounts, each charged once. Collecting an account adds to the
sum or fails because the limit is exceeded (`wp_collectLoadedAccount`), so the loop ends
with the sum over all accounts (`wp_collect_loop`), which has no order
(`loaded_accounts_data_size`).
-/

namespace Svm

open Run AccountLoader Prod Finset

/-! ## The counter -/

/-- The counter is exact up to the limit, although the size to add saturates. -/
theorem increaseCalculatedDataSize_eq (hlimit : limit < 2 ^ 32 - 1) (hdelta : delta = min n (2 ^ 64 - 1)) :
    increaseCalculatedDataSize size delta limit =
      if size + n ≤ limit then .ok (size + n) else .error .MaxLoadedAccountsDataSizeExceeded := by
  rw [increaseCalculatedDataSize]
  by_cases hwide : 2 ^ 32 ≤ delta
  · rw [failIf, if_pos hwide, if_neg (by omega)]
    rfl
  · have hn : delta = n := by omega
    rw [failIf, if_neg hwide, hn]
    show Except.bind (failIf (limit < Machine.satAdd 32 size n) _) _ = _
    rw [failIf]
    by_cases hfits : size + n ≤ limit
    · rw [Machine.satAdd_eq (by omega), if_neg (by omega), if_pos hfits]
      rfl
    · rw [if_pos (by unfold Machine.satAdd; omega), if_neg hfits]
      rfl

section Counting

variable {env : LoadEnvironment} {message : SVMTransaction} {l l1 : AccountLoader} {key : Pubkey} {limit n : Nat}
  {named : Finset Pubkey} {left : List Pubkey} {c : LoadedTransactionAccounts}
  {account : Account} {payer : LoadedTransactionAccount} {message' : SVMTransaction}

/-! ## Loading an account -/

theorem view_insert_of_ne (hk : k ≠ key) (entry) : (insert l key entry).view k = l.view k := by
  simp [view, doLoad, AccountLoader.insert, if_neg hk]

/-- Loading an account can change what is seen at its address only. -/
theorem wp_loadAccount (l) (key) :
    wp (loadAccount key) (fun account l' => account = l.stored key ∧ Fetched l l' ∧ ∀ k, k ≠ key → l'.view k = l.view k)
      (fun _ _ => False) l := by
  obtain ⟨hresult, hfetched, -⟩ := loadAccount_spec l key
  have hview : ∀ k, k ≠ key → (final (loadAccount key) l).view k = l.view k := by
    intro k hk
    simp only [final, loadAccount, EStateM.run]
    split
    · rename_i h
      split at h <;> cases h <;> first | rfl | exact view_insert_of_ne hk _
    · rename_i h
      split at h <;> cases h
  rw [final] at hfetched hview
  rw [result] at hresult
  rw [wp]
  cases hrun : (loadAccount key).run l with
  | ok account l' =>
    rw [hrun] at hresult hfetched hview
    exact ⟨Except.ok.inj hresult, hfetched, hview⟩
  | error e l' =>
    rw [hrun] at hresult
    cases hresult

theorem programdataOf_congr (hdata : account.data = account'.data)
    (howner : account.owner = account'.owner) : env.programdataOf account = env.programdataOf account' := by
  rw [LoadEnvironment.programdataOf, LoadEnvironment.programdataOf, hdata, howner]

/-- An account of the message is loaded with the size it is charged with. -/
theorem wp_loadMessageAccount (henv : env.LoaderApart) (index : Nat) (key) (l) :
    wp (loadMessageAccount env message index key)
      (fun loaded l' => loaded.loadedSize = min (sizeAt (l.messageAccount env key)) (2 ^ 64 - 1) ∧
        env.programdataOf loaded.account = l.programdataAt env key ∧ Fetched l l' ∧ ∀ k, k ≠ key → l'.view k = l.view k)
      (fun _ _ => False) l := by
  rw [loadMessageAccount, programdataAt, messageAccount]
  split
  · refine ⟨rfl, if_neg ?_, .refl l, fun _ _ => rfl⟩
    exact henv.sysvar
  · rw [wp_bind, loadTransactionAccount]
    refine wp_seq (wp_loadAccount l key) ?_
    rintro account l' ⟨rfl, hview⟩
    cases l.stored key with
    | none =>
      refine ⟨rfl, if_neg ?_, hview⟩
      exact henv.system
    | some account =>
      have hsize : Machine.satAdd 64 TRANSACTION_ACCOUNT_BASE_SIZE account.data.length =
          min (sizeAt (some account)) (2 ^ 64 - 1) := rfl
      split
      · have hfields := fields_updateRentExemptStatusForAccount env.rent account
        exact ⟨hsize, programdataOf_congr (congrArg AccountFields.data hfields)
          (congrArg AccountFields.owner hfields), hview⟩
      · exact ⟨hsize, rfl, hview⟩

/-! ## Collecting accounts -/

/-- The sum of what was charged and of the named programdata accounts. -/
def chargedTotal (l : AccountLoader) (n : Nat) (named : Finset Pubkey) : Nat :=
  n + ∑ k ∈ named, sizeAt (l.stored k)

theorem chargedTotal_mono (hn : n ≤ n') (hnamed : named ⊆ named') :
    chargedTotal l n named ≤ chargedTotal l n' named' :=
  add_le_add hn (sum_le_sum_of_subset hnamed)

/-- The accounts were collected from `l` on, and those in `left` remain. -/
structure Counted (l : AccountLoader) (message : SVMTransaction) (limit n : Nat) (named : Finset Pubkey)
    (left : List Pubkey) (c : LoadedTransactionAccounts) (l1 : AccountLoader) : Prop where
  size : c.loadedAccountsDataSize = chargedTotal l n named
  within : c.loadedAccountsDataSize ≤ limit
  additional : ∀ k, k ∈ c.additionalLoadedAccounts ↔ k ∈ named ∧ (l.stored k).isSome
  fetched : Fetched l l1
  view_left : ∀ k ∈ left, l1.view k = l.view k
  view_other : ∀ k, k ∉ message.accountKeys → k ∉ c.additionalLoadedAccounts → l1.view k = l.view k

/-- The programdata account that has to be charged, if it is not an account of the message. -/
def noted (message : SVMTransaction) (programdata : Option Pubkey) : Finset Pubkey :=
  programdata.toFinset.filter (· ∉ message.accountKeys)

theorem Counted.stored (h : Counted l message limit n named left c l1) (hkey : key ∉ message.accountKeys)
    (hnew : key ∉ c.additionalLoadedAccounts) : l1.stored key = l.stored key := by
  rw [AccountLoader.stored, AccountLoader.stored, h.view_other key hkey hnew]

/-- The accounts were collected, or the limit would be exceeded. -/
def CountsTo (l : AccountLoader) (message : SVMTransaction) (limit n : Nat) (named : Finset Pubkey)
    (left : List Pubkey) (l1 : AccountLoader) (x : LoaderM LoadedTransactionAccounts) : Prop :=
  wp x (Counted l message limit n named left)
    (fun e _ => e = .MaxLoadedAccountsDataSizeExceeded ∧ limit < chargedTotal l n named) l1

/-- A programdata account adds to the sum the first time it is named. -/
theorem wp_collectProgramdata (hlimit : limit < 2 ^ 32 - 1) (hleft : ∀ k ∈ left, k ∈ message.accountKeys)
    (h : Counted l message limit n named left c l1) (address) :
    CountsTo l message limit n (noted message (some address) ∪ named) left l1
      (collectProgramdata message limit address c) := by
  by_cases hkeys : address ∈ message.accountKeys
  · have hnoted : noted message (some address) = ∅ := by simp [noted, hkeys]
    rw [hnoted, empty_union, collectProgramdata, if_pos (.inl hkeys)]
    exact h
  have hnoted : noted message (some address) ∪ named = insert address named := by
    simp [noted, hkeys, filter_singleton]
  rw [hnoted, CountsTo, collectProgramdata]
  by_cases hadditional : address ∈ c.additionalLoadedAccounts
  · rw [if_pos (.inr hadditional), insert_eq_self.mpr ((h.additional address).mp hadditional).1]
    exact h
  rw [if_neg (not_or.mpr ⟨hkeys, hadditional⟩), wp_bind]
  refine wp_mono (wp_loadAccount l1 address) ?_ fun _ _ h => h.elim
  rintro account l2 ⟨rfl, hfetched, hview⟩
  have hleft' : ∀ k ∈ left, l2.view k = l.view k := by
    intro k hk
    rw [hview k (fun hne => hkeys (hne ▸ hleft k hk)), h.view_left k hk]
  rw [h.stored hkeys hadditional]
  cases hstored : l.stored address with
  | none =>
    -- No account is charged for; the address may be loaded again, with the same answer.
    have hsum : chargedTotal l n (insert address named) = chargedTotal l n named := by
      rw [chargedTotal, chargedTotal, sum_insert_of_eq_zero_if_notMem fun _ => by rw [hstored]; rfl]
    refine ⟨by rw [hsum]; exact h.size, h.within, fun k => ?_, h.fetched.trans hfetched, hleft', fun k hk hnew => ?_⟩
    · rw [h.additional, mem_insert]
      constructor
      · exact fun h => ⟨.inr h.1, h.2⟩
      · rintro ⟨rfl | hk, hsome⟩
        · rw [hstored] at hsome
          cases hsome
        · exact ⟨hk, hsome⟩
    · by_cases haddress : k = address
      · subst haddress
        have hnone : l.view k = none := Option.map_eq_none_iff.mp hstored
        rw [hnone, Option.eq_none_iff_forall_ne_some]
        intro entry hentry
        have hbefore := hfetched.view_of_some hentry
        rw [h.view_other k hkeys hadditional, hnone] at hbefore
        cases hbefore
      · rw [hview k haddress, h.view_other k hk hnew]
  | some account =>
    have hnew : address ∉ named := fun hmem =>
      hadditional ((h.additional address).mpr ⟨hmem, by rw [hstored]; rfl⟩)
    have hsum : chargedTotal l n (insert address named) = chargedTotal l n named + account.chargedSize := by
      rw [chargedTotal, sum_insert hnew, hstored, chargedTotal]
      show n + (account.chargedSize + _) = _
      omega
    have hincrease : increaseCalculatedDataSize c.loadedAccountsDataSize
        (Machine.satAdd 64 TRANSACTION_ACCOUNT_BASE_SIZE account.data.length) limit = _ :=
      increaseCalculatedDataSize_eq (n := account.chargedSize) hlimit rfl
    rw [h.size, ← hsum] at hincrease
    rw [wp_bind, h.size, hincrease]
    split_ifs with hfits
    · refine ⟨rfl, hfits, fun k => ?_, h.fetched.trans hfetched, hleft', fun k hk hnot => ?_⟩
      · rw [List.mem_cons, h.additional, mem_insert]
        constructor
        · rintro (rfl | ⟨hk, hsome⟩)
          · exact ⟨.inl rfl, by rw [hstored]; rfl⟩
          · exact ⟨.inr hk, hsome⟩
        · rintro ⟨rfl | hk, hsome⟩
          · exact .inl rfl
          · exact .inr ⟨hk, hsome⟩
      · obtain ⟨hne, hold⟩ := not_or.mp (mt List.mem_cons.mpr hnot)
        rw [hview k hne, h.view_other k hk hold]
    · exact ⟨rfl, Nat.lt_of_not_le hfits⟩

/-- An account that is collected adds its size, and what its programdata account adds. -/
theorem wp_collectLoadedAccount (env) (hlimit : limit < 2 ^ 32 - 1) (hleft : ∀ k ∈ left, k ∈ message.accountKeys)
    (h : Counted l message limit n named left c l1) (key)
    (hsize : loaded.loadedSize = min m (2 ^ 64 - 1)) :
    CountsTo l message limit (n + m) (noted message (env.programdataOf loaded.account) ∪ named) left l1
      (collectLoadedAccount env message limit c key loaded) := by
  rw [CountsTo, collectLoadedAccount, wp_bind, increaseCalculatedDataSize_eq hlimit hsize, h.size]
  have hsum : chargedTotal l n named + m = chargedTotal l (n + m) named := by
    rw [chargedTotal, chargedTotal]
    omega
  rw [hsum]
  by_cases hfits : chargedTotal l (n + m) named ≤ limit
  · rw [if_pos hfits]
    have hcounted : Counted l message limit (n + m) named left
        { c with loadedAccountsDataSize := chargedTotal l (n + m) named } l1 :=
      { h with size := rfl, within := hfits }
    rw [ofExcept, wp_pure, ← LoadEnvironment.programdataOf]
    cases env.programdataOf loaded.account with
    | none =>
      have hnoted : noted message none ∪ named = named := by simp [noted]
      rw [hnoted]
      exact { hcounted with }
    | some address =>
      refine wp_seq (wp_collectProgramdata hlimit hleft hcounted address) ?_
      exact fun c' l2 h' => { h' with }
  · rw [if_neg hfits]
    exact ⟨rfl, (Nat.lt_of_not_le hfits).trans_le (chargedTotal_mono le_rfl subset_union_right)⟩

/-! ## The loop over the accounts -/

theorem namedProgramdata_cons (key) (keys) : namedProgramdata env l message (key :: keys) =
      noted message (l.programdataAt env key) ∪ namedProgramdata env l message keys := by
  rw [namedProgramdata, namedProgramdata, noted, ← filter_union, List.filterMap_cons]
  cases l.programdataAt env key with
  | none => simp
  | some address => rw [List.toFinset_cons, insert_eq, Option.toFinset_some]

/-- The sizes of the accounts of the message. -/
def messageSize (env : LoadEnvironment) (l : AccountLoader) (keys : List Pubkey) : Nat :=
  (keys.map fun key => sizeAt (l.messageAccount env key)).sum

theorem wp_collect_loop (henv : env.LoaderApart) (hlimit : limit < 2 ^ 32 - 1) (entries : List (Pubkey × Nat))
    (hnodup : (entries.map fst).Nodup) (hkeys : ∀ k ∈ entries.map fst, k ∈ message.accountKeys)
    (h : Counted l message limit n named (entries.map fst) c l1) :
    CountsTo l message limit (n + messageSize env l (entries.map fst))
      (namedProgramdata env l message (entries.map fst) ∪ named) [] l1 (entries.foldlM (fun c (key, index) => do
        let loadedAccount ← loadMessageAccount env message index key
        collectLoadedAccount env message limit c key loadedAccount) c) := by
  induction entries generalizing n named c l1 with
  | nil =>
    have hnone : namedProgramdata env l message [] ∪ named = named := by simp [namedProgramdata]
    rw [List.map_nil, hnone]
    exact h
  | cons entry entries ih =>
    obtain ⟨key, index⟩ := entry
    obtain ⟨hfresh, hnodup⟩ := List.nodup_cons.mp hnodup
    have hleft : ∀ k ∈ entries.map fst, k ∈ message.accountKeys := fun k hk => hkeys k (List.mem_cons_of_mem _ hk)
    have hkey : l1.view key = l.view key := h.view_left key List.mem_cons_self
    have haccount : l1.messageAccount env key = l.messageAccount env key := by
      rw [messageAccount, messageAccount, stored, stored, hkey]
    -- What the loop reaches in the end, from what this account adds.
    have hsize : n + messageSize env l (((key, index) :: entries).map fst) =
        n + sizeAt (l.messageAccount env key) + messageSize env l (entries.map fst) := by
      rw [messageSize, List.map_cons, List.map_cons, List.sum_cons, messageSize, add_assoc]
    have hnamed : namedProgramdata env l message (((key, index) :: entries).map fst) ∪ named =
        namedProgramdata env l message (entries.map fst) ∪ (noted message (l.programdataAt env key) ∪ named) := by
      rw [List.map_cons, namedProgramdata_cons, ← union_assoc,
        union_comm (namedProgramdata env l message (entries.map fst))]
    rw [hsize, hnamed, CountsTo, List.foldlM_cons, wp_bind, wp_bind]
    refine wp_mono (wp_loadMessageAccount henv index key l1) ?_ fun _ _ h => h.elim
    rintro loaded l2 ⟨hloaded, hprogramdata, hfetched, hview⟩
    rw [haccount] at hloaded
    rw [programdataAt, haccount] at hprogramdata
    have hcounted : Counted l message limit n named (entries.map fst) c l2 := by
      refine ⟨h.size, h.within, h.additional, h.fetched.trans hfetched, fun k hk => ?_, fun k hk hnew => ?_⟩
      · rw [hview k fun hne => hfresh (hne ▸ hk), h.view_left k (List.mem_cons_of_mem _ hk)]
      · rw [hview k fun hne => hk (hne ▸ hkeys key List.mem_cons_self), h.view_other k hk hnew]
    have hstep := wp_collectLoadedAccount env hlimit hleft hcounted key hloaded
    rw [hprogramdata] at hstep
    refine wp_mono hstep (fun c' l3 h' => ih hnodup hleft h') ?_
    exact fun e l3 he => ⟨he.1, he.2.trans_le (chargedTotal_mono (Nat.le_add_right _ _) subset_union_right)⟩

/-! ## The programs -/

/-- An account with lamports stays as it is when it is loaded. -/
theorem AccountLoader.Fetched.stored_of_lamports (h : Fetched l l1) (hstored : l.stored key = some account)
    (hlamports : account.lamports ≠ 0) : l1.stored key = some account := by
  obtain ⟨⟨_, slot⟩, hview, rfl⟩ := Option.map_eq_some_iff.mp hstored
  rcases h.entry key with hsame | ⟨hnone, hsome⟩
  · rw [stored, AccountLoader.view, doLoad, hsame, h.callbacks]
    exact hstored
  · simp only [AccountLoader.view, doLoad, hnone] at hview
    rw [hview, Option.getD_some] at hsome
    simp only [stored, AccountLoader.view, doLoad, hsome]
    rw [if_neg hlamports]
    rfl

theorem wp_checkPrograms (instructions : List (Pubkey × SVMInstruction))
    (hprograms : ∀ entry ∈ instructions, ∃ account, l.stored entry.1 = some account ∧
      account.lamports ≠ 0 ∧ (account.owner = env.nativeLoaderId ∨ account.owner ∈ env.programOwners))
    (hfetched : Fetched l l1) :
    wp (instructions.forM fun (programId, _) => checkProgram env programId) (fun _ _ => True) (fun _ _ => False) l1 := by
  induction instructions generalizing l1 with
  | nil => trivial
  | cons first instructions ih =>
    obtain ⟨account, hstored, hlamports, howner⟩ := hprograms first List.mem_cons_self
    rw [List.forM, wp_bind]
    dsimp only
    rw [checkProgram]
    refine wp_seq (wp_loadAccount l1 first.1) ?_
    rintro found l2 ⟨rfl, hfetched', -⟩
    rw [hfetched.stored_of_lamports hstored hlamports]
    dsimp only
    rw [throwIf, failIf, if_neg (by tauto)]
    exact ih (fun entry hentry => hprograms entry (List.mem_cons_of_mem _ hentry)) (hfetched.trans hfetched')

/-! ## The transaction -/

theorem loadedSize_eq : loadedSize env l message =
    chargedTotal l (message.numLookupTables * ADDRESS_LOOKUP_TABLE_BASE_SIZE + messageSize env l message.accountKeys)
      (namedProgramdata env l message message.accountKeys) := rfl

theorem wp_loadTransactionAccounts (henv : env.LoaderApart) (hlimit : limit < 2 ^ 32 - 1)
    (hload : Loadable env l message) (hpayer : PayerLoaded env l message payer) :
    wp (loadTransactionAccounts env message payer limit)
      (fun c _ => c.loadedAccountsDataSize = loadedSize env l message ∧ loadedSize env l message ≤ limit)
      (fun e _ => e = .MaxLoadedAccountsDataSizeExceeded ∧ limit < loadedSize env l message) l := by
  obtain ⟨rest, hkeys⟩ := List.head?_eq_some_iff.mp hload.feePayer
  obtain ⟨account, hstored, hdata, howner⟩ := hpayer.stored
  have hnodup : rest.Nodup := (List.nodup_cons.mp (hkeys ▸ hload.nodup)).2
  have hleft : ∀ k ∈ rest, k ∈ message.accountKeys := fun k hk => hkeys ▸ List.mem_cons_of_mem _ hk
  have hentries : (message.accountKeys.zipIdx.drop 1).map fst = rest := by
    rw [List.map_drop, List.zipIdx_map_fst, hkeys]
    rfl
  have hmessageAccount : l.messageAccount env message.feePayer = some account := by
    rw [messageAccount, if_neg hpayer.ordinary, hstored]
  have hpayerSize : payer.loadedSize = min (sizeAt (l.messageAccount env message.feePayer)) (2 ^ 64 - 1) := by
    rw [hpayer.size, hmessageAccount, hdata]
    rfl
  have hprogramdata : env.programdataOf payer.account = l.programdataAt env message.feePayer := by
    rw [programdataAt, hmessageAccount, programdataOf_congr hdata howner]
    rfl
  have htotal : loadedSize env l message = chargedTotal l (message.numLookupTables * ADDRESS_LOOKUP_TABLE_BASE_SIZE +
      sizeAt (l.messageAccount env message.feePayer) + messageSize env l rest)
      (namedProgramdata env l message rest ∪ (noted message (l.programdataAt env message.feePayer) ∪ ∅)) := by
    rw [loadedSize_eq, hkeys, namedProgramdata_cons, union_empty, union_comm, messageSize, List.map_cons,
      List.sum_cons, messageSize, add_assoc]
  have htables : increaseCalculatedDataSize 0
      (Machine.satMul 64 message.numLookupTables ADDRESS_LOOKUP_TABLE_BASE_SIZE) limit = _ :=
    increaseCalculatedDataSize_eq hlimit rfl
  rw [htotal, loadTransactionAccounts, htables, zero_add]
  by_cases hfits : message.numLookupTables * ADDRESS_LOOKUP_TABLE_BASE_SIZE ≤ limit
  · rw [if_pos hfits]
    have hstart : Counted l message limit (message.numLookupTables * ADDRESS_LOOKUP_TABLE_BASE_SIZE) ∅ rest
        ⟨[], message.numLookupTables * ADDRESS_LOOKUP_TABLE_BASE_SIZE, []⟩ l :=
      ⟨by rw [chargedTotal, sum_empty, add_zero], hfits, by simp, .refl l, fun _ _ => rfl, fun _ _ _ => rfl⟩
    have hfirst := wp_collectLoadedAccount env hlimit hleft hstart message.feePayer hpayerSize
    rw [hprogramdata] at hfirst
    show wp (collectLoadedAccount env message limit _ message.feePayer payer >>= _) _ _ _
    rw [wp_bind]
    refine wp_mono hfirst (fun c l1 hc => ?_) fun e l1 he => ⟨he.1, he.2.trans_le ?_⟩
    · rw [wp_bind]
      have hloop := wp_collect_loop henv hlimit (message.accountKeys.zipIdx.drop 1) (hentries ▸ hnodup) (hentries ▸ hleft)
        (hentries ▸ hc)
      rw [hentries] at hloop
      refine wp_mono hloop (fun c' l2 hc' => ?_) fun _ _ he => he
      rw [wp_bind]
      refine wp_mono (wp_checkPrograms _ hload.programs hc'.fetched) (fun _ _ _ => ?_) fun _ _ h => h.elim
      exact ⟨hc'.size, hc'.size ▸ hc'.within⟩
    · exact chargedTotal_mono (Nat.le_add_right _ _) subset_union_right
  · rw [if_neg hfits]
    refine ⟨rfl, (Nat.lt_of_not_le hfits).trans_le ?_⟩
    rw [chargedTotal]
    omega

/-- The sum is the same for every order of the accounts. -/
theorem Reordered.loadedSize_eq (h : Reordered message message') :
    loadedSize env l message' = loadedSize env l message := by
  have hnamed : namedProgramdata env l message' message'.accountKeys =
      namedProgramdata env l message message.accountKeys := by
    ext k
    simp [namedProgramdata, h.accounts.mem_iff]
  rw [loadedSize, loadedSize, hnamed, h.tables, (h.accounts.map _).sum_eq]

theorem Reordered.loadable (h : Reordered message message') (hload : Loadable env l message) :
    Loadable env l message' := by
  refine ⟨h.accounts.nodup_iff.mpr hload.nodup, ?_, fun entry hentry => ?_⟩
  · rw [h.first, h.feePayer]
    exact hload.feePayer
  · have hmem := List.mem_map_of_mem (f := fst) hentry
    rw [h.programs] at hmem
    obtain ⟨entry', hentry', heq⟩ := List.mem_map.mp hmem
    rw [← heq]
    exact hload.programs entry' hentry'

theorem Reordered.payerLoaded (h : Reordered message message') (hpayer : PayerLoaded env l message payer) :
    PayerLoaded env l message' payer := by
  refine ⟨?_, ?_, hpayer.size⟩
  · rw [h.feePayer]
    exact hpayer.ordinary
  · rw [h.feePayer]
    exact hpayer.stored

/-- The accounts are loaded if and only if their size in total is within the limit. -/
theorem result_loadTransactionAccounts (henv : env.LoaderApart) (hlimit : limit < 2 ^ 32 - 1)
    (hload : Loadable env l message) (hpayer : PayerLoaded env l message payer) :
    (∃ c, result (loadTransactionAccounts env message payer limit) l = .ok c ∧
      c.loadedAccountsDataSize = loadedSize env l message ∧ loadedSize env l message ≤ limit) ∨
    result (loadTransactionAccounts env message payer limit) l = .error .MaxLoadedAccountsDataSizeExceeded ∧
      limit < loadedSize env l message := by
  have h := wp_loadTransactionAccounts henv hlimit hload hpayer
  rw [wp] at h
  rw [result]
  cases hrun : (loadTransactionAccounts env message payer limit).run l with
  | ok c l' =>
    rw [hrun] at h
    exact .inl ⟨c, rfl, h⟩
  | error e l' =>
    rw [hrun] at h
    exact .inr ⟨congrArg Except.error h.1, h.2⟩

/-- The size of the loaded accounts is `loadedSize`, and loading fails exactly when it
exceeds the limit, in whatever order the accounts after the fee payer are. -/
theorem loaded_accounts_data_size (env : LoadEnvironment) (message : SVMTransaction) (l : AccountLoader) (limit : Nat)
    (payer : LoadedTransactionAccount) (henv : env.LoaderApart) (hlimit : limit < 2 ^ 32 - 1)
    (hload : Loadable env l message) (hpayer : PayerLoaded env l message payer) :
    ((∃ c, result (loadTransactionAccounts env message payer limit) l = .ok c) ↔ loadedSize env l message ≤ limit) ∧
    (∀ c, result (loadTransactionAccounts env message payer limit) l = .ok c →
      c.loadedAccountsDataSize = loadedSize env l message) ∧
    (limit < loadedSize env l message →
      result (loadTransactionAccounts env message payer limit) l = .error .MaxLoadedAccountsDataSizeExceeded) ∧
    ∀ message', Reordered message message' →
      (result (loadTransactionAccounts env message' payer limit) l).map LoadedTransactionAccounts.loadedAccountsDataSize =
        (result (loadTransactionAccounts env message payer limit) l).map
          LoadedTransactionAccounts.loadedAccountsDataSize := by
  have hother {message' : SVMTransaction} (h : Reordered message message') :=
    result_loadTransactionAccounts henv hlimit (h.loadable hload) (h.payerLoaded hpayer)
  rcases result_loadTransactionAccounts henv hlimit hload hpayer with ⟨c, hc, hsize, hle⟩ | ⟨herror, hlt⟩
  · rw [hc]
    refine ⟨iff_of_true ⟨c, rfl⟩ hle, fun c' h => ?_, fun h => absurd hle (not_le.mpr h), fun message' h => ?_⟩
    · cases h
      exact hsize
    · rcases hother h with ⟨c', hc', hsize', -⟩ | ⟨-, hlt⟩
      · rw [hc']
        exact congrArg Except.ok (hsize'.trans (h.loadedSize_eq.trans hsize.symm))
      · exact absurd hle (not_le.mpr (h.loadedSize_eq ▸ hlt))
  · rw [herror]
    refine ⟨iff_of_false nofun (not_le.mpr hlt), nofun, fun _ => rfl,
      fun message' h => ?_⟩
    rcases hother h with ⟨-, -, -, hle⟩ | ⟨herror', -⟩
    · exact absurd (h.loadedSize_eq ▸ hle) (not_le.mpr hlt)
    · rw [herror']

end Counting

namespace Vault

/-- The table, the payer, the vault, the program with one byte, and its programdata with
three. -/
theorem loaded_accounts_data_size_program :
    (∃ c, result (loadTransactionAccounts env.toLoadEnvironment message ⟨⟨95, [], SYSTEM_PROGRAM_ID, false, 0⟩, 64⟩ 9000)
      ⟨fun _ => none, store⟩ = .ok c ∧ c.loadedAccountsDataSize = 8248 + 2 * 64 + 65 + 67) ∧
    result (loadTransactionAccounts env.toLoadEnvironment message ⟨⟨95, [], SYSTEM_PROGRAM_ID, false, 0⟩, 64⟩ 8507)
      ⟨fun _ => none, store⟩ = .error .MaxLoadedAccountsDataSizeExceeded := by
  have hsize : loadedSize env.toLoadEnvironment ⟨fun _ => none, store⟩ message = 8248 + 2 * 64 + 65 + 67 := by decide
  have h (limit : Nat) (hlimit : limit < 2 ^ 32 - 1) := loaded_accounts_data_size env.toLoadEnvironment message
    ⟨fun _ => none, store⟩ limit ⟨⟨95, [], SYSTEM_PROGRAM_ID, false, 0⟩, 64⟩ ⟨by decide, by decide⟩ hlimit
    ⟨by decide, rfl, by simpa [message] using ⟨_, rfl, by decide, by decide⟩⟩ ⟨by decide, ⟨_, rfl, rfl, rfl⟩, rfl⟩
  obtain ⟨c, hc⟩ := (h 9000 (by decide)).1.mpr (hsize ▸ by decide)
  exact ⟨⟨c, hc, ((h 9000 (by decide)).2.1 c hc).trans hsize⟩, (h 8507 (by decide)).2.2.1 (hsize ▸ by decide)⟩

end Vault

end Svm
