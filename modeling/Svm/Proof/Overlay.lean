import Svm.Proof.Loading
import Svm.Spec.Overlay
import Mathlib.Data.List.Induction

/-!
# The overlay holds what was stored

A load of an address gives what was last stored there, or what the callbacks return
(`overlay_faithful`). After a successful transaction that is its result
(`overlay_holds_result`), because the accounts that are not stored have not changed
(`same_of_skips`).
-/

namespace Svm

open Run AccountLoader Prod OnePayer
open List hiding getElem?_eq_some_iff

section Overlay

variable {env : ProcessingEnvironment} {config : ProcessingConfig} {message : SVMTransaction}
  {l l' : AccountLoader} {key : Pubkey} {slot : Slot} {accounts : List (Pubkey × Account)} {callbacks : Store}

/-! ## Writes -/

theorem loadedAccounts_insertAll (l : AccountLoader) (slot : Slot) (accounts) (key) :
    (l.insertAll slot accounts).loadedAccounts key =
      (((accounts.reverse.find? fun entry => entry.1 = key).map fun entry => (entry.2, slot)).or
        (l.loadedAccounts key)) := by
  induction accounts generalizing l with
  | nil => rfl
  | cons entry accounts ih =>
    refine (ih (l.insert entry.1 (entry.2, slot))).trans ?_
    rw [reverse_cons, find?_append]
    cases accounts.reverse.find? fun entry => entry.1 = key with
    | some found => rfl
    | none =>
      by_cases hkey : entry.1 = key
      · simp [AccountLoader.insert, hkey]
      · simp [AccountLoader.insert, hkey, Ne.symm hkey]

theorem loadedAccounts_insertAll_of_mem (hnodup : (accounts.map fst).Nodup)
    (hmem : (key, account) ∈ accounts) : (l.insertAll slot accounts).loadedAccounts key = some (account, slot) := by
  rw [loadedAccounts_insertAll]
  cases hfind : accounts.reverse.find? fun entry => entry.1 = key with
  | none => simpa using find?_eq_none.mp hfind (key, account) (mem_reverse.mpr hmem)
  | some found =>
    have hfound : found ∈ accounts := mem_reverse.mp (mem_of_find?_eq_some hfind)
    have hkey : found.1 = key := by simpa using find?_some hfind
    obtain rfl : found = (key, account) := inj_on_of_nodup_map hnodup hfound hmem hkey
    rfl

theorem loadedAccounts_insertAll_of_not_mem (h : ∀ entry ∈ accounts, entry.1 ≠ key) :
    (l.insertAll slot accounts).loadedAccounts key = l.loadedAccounts key := by
  have hfind : accounts.reverse.find? (fun entry => entry.1 = key) = none := by
    rw [find?_eq_none]
    intro entry hentry
    simpa using h entry (mem_reverse.mp hentry)
  rw [loadedAccounts_insertAll, hfind]
  rfl

theorem callbacks_insertAll (l : AccountLoader) (slot : Slot) (accounts) :
    (l.insertAll slot accounts).callbacks = l.callbacks := by
  induction accounts generalizing l with
  | nil => rfl
  | cons entry accounts ih => exact ih _

/-! ## Operations -/

/-- What the loader keeps at the address, after operations that stored `entry` last. -/
def Overlays (callbacks : Store) (entry : Option (Account × Slot)) (l : AccountLoader) (key : Pubkey) : Prop :=
  l.callbacks = callbacks ∧
    match entry with
    | some entry => l.loadedAccounts key = some entry
    | none => l.loadedAccounts key = none ∨ l.loadedAccounts key = some ((callbacks key).getD (.default, 0))

theorem Overlays.fetched (h : Overlays callbacks entry l key)
    (hfetched : Fetched l l') : Overlays callbacks entry l' key := by
  obtain ⟨rfl, h⟩ := h
  refine ⟨hfetched.callbacks, ?_⟩
  cases entry with
  | some entry => exact hfetched.cached h
  | none =>
    rcases hfetched.entry key with hsame | ⟨-, hsome⟩
    · rw [hsame]
      exact h
    · exact .inr hsome

theorem Overlays.insertAll (h : Overlays callbacks entry l key) :
    Overlays callbacks (((accounts.reverse.find? fun entry => entry.1 = key).map fun entry => (entry.2, slot)).or entry)
      (l.insertAll slot accounts) key := by
  refine ⟨(callbacks_insertAll l slot accounts).trans h.1, ?_⟩
  rw [loadedAccounts_insertAll]
  cases accounts.reverse.find? fun entry => entry.1 = key with
  | some found => rfl
  | none => exact h.2

theorem lastStored_append (ops) (op) (key) : lastStored (ops ++ [op]) key =
      (((op.stored.reverse.find? fun entry => entry.1 = key).map snd).or (lastStored ops key)) := by
  rw [lastStored, flatMap_append, flatMap_singleton, reverse_append, find?_append, Option.map_or]
  rfl

theorem find?_stored (accounts : List (Pubkey × Account)) (slot : Slot) (key) :
    ((accounts.map fun (key, account) => (key, account, slot)).reverse.find? fun entry => entry.1 = key).map snd =
      (accounts.reverse.find? fun entry => entry.1 = key).map fun entry => (entry.2, slot) := by
  rw [← map_reverse, find?_map, Option.map_map]
  rfl

/-- The loader after any operations. -/
theorem overlays_foldl (env) (callbacks : Store) (ops) (key) :
    Overlays callbacks (lastStored ops key) (ops.foldl LoaderOp.apply (.new env none callbacks)) key := by
  induction ops using reverseRecOn with
  | nil => exact ⟨rfl, .inl rfl⟩
  | append_singleton ops op ih =>
    rw [foldl_append, lastStored_append]
    cases op with
    | loadAccount key' => exact ih.fetched (loadClosed_fetched.loadAccount key' _)
    | loadTransactionAccount key' => exact ih.fetched (loadClosed_fetched.loadTransactionAccount key' _)
    | getAccountSharedData key' => exact ih
    | updateAccountsForSuccessfulTx message accounts slot | updateAccountsForFailedTx rollbackAccounts slot =>
      rw [LoaderOp.stored, find?_stored]
      exact ih.insertAll

theorem Overlays.view (h : Overlays callbacks (lastStored ops key) l key)
    (hfunded : ∀ account slot, callbacks key = some (account, slot) → account.lamports ≠ 0) :
    l.view key = overlaid callbacks ops key := by
  obtain ⟨rfl, h⟩ := h
  rw [overlaid]
  cases hlast : lastStored ops key with
  | some entry =>
    rw [hlast] at h
    simp [view, doLoad, h]
  | none =>
    rw [hlast] at h
    rcases h with h | h
    · simp [view, doLoad, h]
    · simp only [view, doLoad, h]
      cases hcallbacks : l.callbacks key with
      | none => rfl
      | some found => exact if_neg (hfunded found.1 found.2 hcallbacks)

end Overlay

/-- After any operations on a loader without overrides, each of its three loads gives
what was last stored at the address, or what the callbacks return if nothing was. The
callbacks return no account at zero lamports for the address. -/
theorem overlay_faithful (env : LoadEnvironment) (callbacks : Store) (ops : List LoaderOp) (key : Pubkey)
    (hfunded : ∀ account slot, callbacks key = some (account, slot) → account.lamports ≠ 0) :
    let l := ops.foldl LoaderOp.apply (.new env none callbacks)
    let found := overlaid callbacks ops key
    l.getAccountSharedData key = found ∧
    result (loadAccount key) l = .ok (found.map fst) ∧
    result (loadTransactionAccount key) l = .ok (found.map fun entry =>
      ⟨entry.1, Machine.satAdd 64 TRANSACTION_ACCOUNT_BASE_SIZE entry.1.data.length⟩) := by
  intro l found
  have hview : l.view key = found := (overlays_foldl env callbacks ops key).view hfunded
  have hload := (loadAccount_spec l key).1
  rw [hview] at hload
  refine ⟨hview, hload, ?_⟩
  simp only [loadTransactionAccount, result, EStateM.run_bind, result_ok.mp hload]
  cases found <;> rfl

namespace ZeroLamports

def key : Pubkey := .replicate 32 1

def env : LoadEnvironment := OnePayer.env.toLoadEnvironment

/-- The store has an account at zero lamports. -/
def callbacks : Store := fun k => if k = key then some (⟨0, [1], SYSTEM_PROGRAM_ID, false, 0⟩, 0) else none

end ZeroLamports

/-- The payer is loaded, stored by a transaction that succeeded and by one that failed, and
loaded again. -/
theorem overlay_faithful_stored :
    let paid (lamports : UInt64) : Pubkey × Account := (payer, ⟨lamports, [], SYSTEM_PROGRAM_ID, false, 0⟩)
    let ops : List LoaderOp := [.loadAccount payer, .updateAccountsForSuccessfulTx OnePayer.message [paid 60] 3,
      .updateAccountsForFailedTx (.FeePayerOnly (paid 55)) 4, .loadTransactionAccount payer]
    (ops.foldl LoaderOp.apply (.new ZeroLamports.env none OnePayer.store)).getAccountSharedData payer =
      some ((paid 55).2, 4) :=
  (overlay_faithful ZeroLamports.env OnePayer.store _ payer (funded_store _)).1

/-- The first load of an account at zero lamports gives the account, and hides it from
the loads after it. -/
theorem overlay_hides_zero_lamports :
    let l : AccountLoader := .new ZeroLamports.env none ZeroLamports.callbacks
    let l' := LoaderOp.apply l (.loadAccount ZeroLamports.key)
    l.getAccountSharedData ZeroLamports.key = ZeroLamports.callbacks ZeroLamports.key ∧
      lastStored [.loadAccount ZeroLamports.key] ZeroLamports.key = none ∧
      l'.getAccountSharedData ZeroLamports.key ≠ ZeroLamports.callbacks ZeroLamports.key :=
  ⟨rfl, rfl, by decide⟩

section Result

variable {env : ProcessingEnvironment} {config : ProcessingConfig} {message : SVMTransaction} {l l' : AccountLoader}
  {tx : LoadedTransaction} {accounts : List (Pubkey × Account)} {i : Nat}

/-! ## Executions -/

/-- The account of an instruction is named by an instruction of the message, and is
writable only if it is so in the message. -/
def TopLevelGrant (message : SVMMessage) (x : InstructionAccount) : Prop :=
  ∃ instruction ∈ message.instructions, ∃ index ∈ instruction.accounts, x.indexInTransaction.toNat = index.toNat ∧
    (x.isWritable = true → message.isWritable index.toNat = true)

theorem mem_resolveTopLevel {message : SVMMessage}
    (hx : x ∈ (InvokeContext.resolveTopLevel message instruction).2) :
    ∃ index ∈ instruction.accounts, x.indexInTransaction.toNat = index.toNat ∧
      (x.isWritable = true → message.isWritable index.toNat = true) := by
  have hfold (indices : List UInt8) (start : List UInt16 × List InstructionAccount)
      (hx : x ∈ (indices.foldl (InvokeContext.addIndex message) start).2) :
      x ∈ start.2 ∨ ∃ index ∈ indices, x.indexInTransaction.toNat = index.toNat ∧
        (x.isWritable = true → message.isWritable index.toNat = true) := by
    induction indices generalizing start with
    | nil => exact .inl hx
    | cons index indices ih =>
      rcases ih _ hx with hx | ⟨index', hmem, h⟩
      · rcases mem_append.mp hx with hx | hx
        · exact .inl hx
        · rw [mem_singleton.mp hx]
          refine .inr ⟨index, mem_cons_self, ?_, fun h => h⟩
          have := index.toNat_lt
          rw [UInt16.toNat_ofNat']
          omega
      · exact .inr ⟨index', mem_cons_of_mem _ hmem, h⟩
  exact (hfold _ _ hx).resolve_left (fun h => nomatch h)

/-- The fields are the same, but for the data of the instructions sysvar. -/
def SameUnless (sysvar : Prop) (f f' : AccountFields) : Prop := f' = f ∨ sysvar ∧ ∃ data, f' = { f with data := data }

/-- The instructions on the stack have granted accounts, and only an account that some
instruction may write has changed, or the instructions sysvar. -/
structure MessageInv (message : SVMMessage) (sysvar : Nat → Prop) (contents : Nat → AccountFields)
    (s : MessageState) : Prop where
  granted : ∀ frame ∈ s.stack, ∀ x ∈ frame, TopLevelGrant message x
  unchanged : ∀ i, SameUnless (sysvar i) (contents i) (s.contents i) ∨
    ∃ x, TopLevelGrant message x ∧ x.isWritable = true ∧ x.indexInTransaction.toNat = i

theorem TopLevelGrant.passed {message : SVMMessage} (hy : TopLevelGrant message y)
    (hindex : y.indexInTransaction = x.indexInTransaction) (hwritable : x.isWritable = true → y.isWritable = true) :
    TopLevelGrant message x := by
  obtain ⟨instruction, hinstruction, index, hmem, heq, hw⟩ := hy
  exact ⟨instruction, hinstruction, index, hmem, hindex ▸ heq, fun h => hw (hwritable h)⟩

theorem MessageInv.step {message : SVMMessage}
    (h : MessageInv message sysvar contents s) (hstep : MessageStep message sysvar s s') :
    MessageInv message sysvar contents s' := by
  cases hstep with
  | enter hinstruction =>
    refine ⟨fun frame hframe x hx => ?_, h.unchanged⟩
    rw [mem_singleton.mp hframe] at hx
    obtain ⟨index, hindex⟩ := mem_resolveTopLevel hx
    exact ⟨_, hinstruction, index, hindex⟩
  | @call contents' caller callee stack passed =>
    refine ⟨fun frame hframe x hx => ?_, h.unchanged⟩
    rcases mem_cons.mp hframe with rfl | hframe
    · obtain ⟨y, hy, hindex, hwritable⟩ := passed x hx
      exact (h.granted caller mem_cons_self y hy).passed hindex hwritable
    · exact h.granted frame hframe x hx
  | leave => exact ⟨fun frame hframe => h.granted frame (mem_cons_of_mem _ hframe), h.unchanged⟩
  | @write contents' current stack x f hx hwritable =>
    refine ⟨h.granted, fun i => ?_⟩
    by_cases hi : i = x.indexInTransaction.toNat
    · exact .inr ⟨x, h.granted current mem_cons_self x hx, hwritable, hi.symm⟩
    · simp only [if_neg hi]
      exact h.unchanged i
  | @storeCurrentIndex contents' stack index data hindex =>
    refine ⟨h.granted, fun i => (h.unchanged i).imp_left fun hsame => ?_⟩
    by_cases hi : i = index
    · refine .inr ⟨hi ▸ hindex, data, (if_pos hi).trans ?_⟩
      obtain heq | ⟨-, data', heq⟩ := hsame
      · exact congrArg ({ · with data := data }) heq
      · exact congrArg ({ · with data := data }) heq
    · simp only [if_neg hi]
      exact hsame

theorem MessageInv.run {message : SVMMessage}
    (h : MessageInv message sysvar contents s) (hrun : Relation.ReflTransGen (MessageStep message sysvar) s s') :
    MessageInv message sysvar contents s' := by
  induction hrun with
  | refl => exact h
  | tail _ hstep ih => exact ih.step hstep

theorem isInstructionAccount_of_mem
    (hinstruction : instruction ∈ message.instructions) (hindex : index ∈ instruction.accounts) :
    message.isInstructionAccount index.toNat = true := by
  rw [SVMTransaction.isInstructionAccount, Bool.and_eq_true, decide_eq_true_iff, any_eq_true]
  refine ⟨index.toNat_lt, instruction, hinstruction, ?_⟩
  rw [UInt8.ofNat_toNat]
  exact contains_iff_mem.mpr hindex

/-- An account that is not stored after the transaction has not changed, but for the
data of the instructions sysvar. -/
theorem same_of_skips {after : List (Pubkey × Account)} (h : Executed sysvarId message.toSVMMessage before after)
    (hskips : message.Skips i) : SameUnless (IsSysvar sysvarId before i) (contentsOf before i) (contentsOf after i) := by
  have hstart : MessageInv message.toSVMMessage (IsSysvar sysvarId before) (contentsOf before)
      ⟨[], contentsOf before⟩ := ⟨fun _ h => (nomatch h), fun i => .inl (.inl rfl)⟩
  refine ((hstart.run h.run).unchanged i).resolve_right ?_
  rintro ⟨x, ⟨instruction, hinstruction, index, hindex, heq, hw⟩, hwritable, rfl⟩
  rw [heq] at hskips
  rcases hskips with hreadonly | ⟨-, hnot⟩
  · rw [hw hwritable] at hreadonly
    cases hreadonly
  · rw [isInstructionAccount_of_mem hinstruction hindex] at hnot
    cases hnot

/-! ## The result of a transaction -/

theorem keys_of_loadedAt {keys : List Pubkey}
    (h : List.Forall₂ (LoadedAt env.toLoadEnvironment message l l') keys rest) : rest.map fst = keys := by
  induction h with
  | nil => rfl
  | cons hloaded _ ih => rw [map_cons, hloaded.key_eq, ih]

/-- The accounts of a loaded transaction are those of the message. -/
theorem Loaded.keys (h : Loaded env message checked l l' tx) (hsanitized : message.Sanitized) :
    tx.accounts.map fst = message.accountKeys := by
  obtain ⟨payer, slot, fee, payer', rest, -, -, haccounts, -, hrest⟩ := h.accounts
  have hkeys := keys_of_loadedAt hrest
  have hfirst := hsanitized.feePayer
  cases hmessage : message.accountKeys with
  | nil =>
    rw [hmessage] at hfirst
    cases hfirst
  | cons key keys =>
    rw [hmessage] at hfirst hkeys
    cases hfirst
    rw [haccounts, map_cons, hkeys]
    rfl

/-- The fee payer is no program, and is stored. -/
theorem Loaded.not_skips (h : Loaded env message checked l l' tx) (hsanitized : message.Sanitized)
    (hdocumented : env.toLoadEnvironment.Documented) : ¬ message.Skips 0 := by
  rintro (hreadonly | ⟨hinvoked, -⟩)
  · rw [hsanitized.writable] at hreadonly
    cases hreadonly
  · obtain ⟨payer, slot, fee, payer', rest, hview, hpay, -⟩ := h.accounts
    obtain ⟨key, instruction, hkey, hmem⟩ := hsanitized.invoked 0 hinvoked
    obtain rfl : message.feePayer = key := Option.some.inj (hsanitized.feePayer.symm.trans hkey)
    obtain ⟨l1, f, hfetched, hloads, howner⟩ := h.programs _ hmem
    obtain ⟨⟨account, slot'⟩, hview', rfl⟩ := Option.map_eq_some_iff.mp hloads
    cases hview.symm.trans (hfetched.view_of_some hview')
    obtain ⟨-, -, hkind, -⟩ := validateFeePayer_ok hpay
    obtain ⟨kind, hkind⟩ := Option.isSome_iff_exists.mp hkind
    have howner' := congrArg AccountFields.owner (fields_updateRentExemptStatusForAccount env.rent payer)
    have hsystem : payer.owner = _ := howner'.symm.trans (hdocumented.systemAccount _ _ _ hkind)
    rcases howner with howner | howner
    · exact hdocumented.nativeLoader (howner.symm.trans hsystem)
    · exact hdocumented.programOwners (hsystem ▸ howner)

theorem contentsOf_eq (h : accounts[i]? = some entry) : contentsOf accounts i = entry.2.fields := by
  rw [contentsOf, h]
  rfl

/-- An account of the message other than the fee payer is loaded as the overlay has it. -/
theorem Loaded.loads_rest (h : Loaded env message checked l l' tx) (hfetched : Fetched l l')
    (hi : i ≠ 0) (hentry : tx.accounts[i]? = some entry) (hsysvar : entry.1 ≠ env.sysvarInstructionsId) :
    l'.loads entry.1 = entry.2.fields.stored := by
  obtain ⟨payer, slot, fee, payer', rest, -, -, haccounts, -, hrest⟩ := h.accounts
  obtain ⟨i, rfl⟩ := Nat.exists_eq_succ_of_ne_zero hi
  rw [haccounts] at hentry
  obtain ⟨key, -, hloaded⟩ := exists_of_forall₂ hrest (mem_of_getElem? hentry)
  obtain rfl := hloaded.key_eq
  obtain ⟨⟨l1, hl1, hfields⟩, hcached⟩ := hloaded.stored hsysvar
  rw [loads_eq_seen hcached, hfetched.seen, ← hl1.seen, seen, hfields]
  cases l1.loads entry.1 with
  | none => rfl
  | some f => rfl

theorem view_insertAll_of_not_mem (h : ∀ entry ∈ accounts, entry.1 ≠ key) :
    (l.insertAll slot accounts).view key = l.view key := by
  simp [view, doLoad, loadedAccounts_insertAll_of_not_mem h, callbacks_insertAll]

theorem accountsToStore_sublist : (accountsToStore message accounts).Sublist accounts := by
  have hfilter := (filter_sublist (p := fun entry : (Pubkey × Account) × Nat => message.isWritable entry.2 &&
    !(message.isInvoked entry.2 && !message.isInstructionAccount entry.2))
    (l := (accounts.take message.accountKeys.length).zipIdx)).map fst
  rw [zipIdx_map_fst] at hfilter
  exact hfilter.trans (take_sublist _ _)

/-- A skipped account is not among those that are stored. -/
theorem not_mem_accountsToStore (hnodup : (accounts.map fst).Nodup)
    (hi : accounts[i]? = some (key, account)) (hskips : message.Skips i) :
    ∀ entry ∈ accountsToStore message accounts, entry.1 ≠ key := by
  rintro entry hentry rfl
  obtain ⟨j, hj, -, hwritable, hkeep⟩ := mem_accountsToStore_iff.mp hentry
  have hindex : (accounts.map fst)[j]? = (accounts.map fst)[i]? := by
    rw [getElem?_map, getElem?_map, hi, hj]
    rfl
  have hlt : j < (accounts.map fst).length := by
    rw [length_map]
    exact (getElem?_eq_some_iff.mp hj).1
  obtain rfl := (getElem?_inj hlt hnodup).mp hindex
  rcases hskips with hreadonly | ⟨hinvoked, hnot⟩
  · rw [hwritable] at hreadonly
    cases hreadonly
  · rw [hinvoked, hnot] at hkeep
    cases hkeep

end Result

/-- After a successful transaction, a load of any account of its message but the
instructions sysvar gives what the execution left there; those that are not stored have
not changed. -/
theorem overlay_holds_result (env : ProcessingEnvironment) (config : ProcessingConfig) (message : SVMTransaction)
    (checked : Except TransactionError CheckedTransactionDetails) (l l₁ : AccountLoader) (tx : LoadedTransaction)
    (accounts : List (Pubkey × Account)) (hsanitized : message.Sanitized)
    (hdocumented : env.toLoadEnvironment.Documented)
    (hloaded : (validateAndLoad env config message checked).run l = .ok (.Loaded tx) l₁)
    (hexecuted : Executed env.sysvarInstructionsId message.toSVMMessage tx.accounts accounts) (i : Nat) (key : Pubkey)
    (hkey : message.accountKeys[i]? = some key) (hsysvar : key ≠ env.sysvarInstructionsId) :
    ∃ before after, tx.accounts[i]? = some (key, before) ∧ accounts[i]? = some (key, after) ∧
      (message.Skips i → after.fields = before.fields) ∧
      (l₁.updateAccountsForSuccessfulTx message accounts env.slot).loads key = after.fields.stored := by
  have hfetched := (loadClosed_fetched.validateAndLoad env config message checked).run hloaded
  have hfrom := validateAndLoad_loaded hloaded
  have hkeys := hfrom.keys hsanitized
  have hkeys' := hexecuted.keys.trans hkeys
  obtain ⟨⟨_, before⟩, hbefore, rfl⟩ : ∃ entry, tx.accounts[i]? = some entry ∧ entry.1 = key := by
    rw [← hkeys, getElem?_map] at hkey
    exact Option.map_eq_some_iff.mp hkey
  obtain ⟨⟨_, after⟩, hafter, hsame⟩ : ∃ entry, accounts[i]? = some entry ∧ entry.1 = _ := by
    rw [← hkeys', getElem?_map] at hkey
    exact Option.map_eq_some_iff.mp hkey
  cases hsame
  have hnodup : (accounts.map fst).Nodup := by
    rw [hkeys']
    exact hsanitized.nodup
  have hunchanged (hskips : message.Skips i) : after.fields = before.fields := by
    have hsame := same_of_skips hexecuted hskips
    rw [contentsOf_eq hafter, contentsOf_eq hbefore] at hsame
    refine hsame.resolve_right fun h => hsysvar (Option.some.inj (Eq.trans ?_ h.1))
    rw [getElem?_map, hbefore]
    rfl
  refine ⟨before, after, hbefore, hafter, hunchanged, ?_⟩
  by_cases hskips : message.Skips i
  · have hi : i ≠ 0 := by
      rintro rfl
      exact hfrom.not_skips hsanitized hdocumented hskips
    have hloads : l₁.loads _ = before.fields.stored := hfrom.loads_rest hfetched hi hbefore hsysvar
    rw [updateAccountsForSuccessfulTx, loads, view_insertAll_of_not_mem (not_mem_accountsToStore hnodup hafter hskips),
      ← loads, hloads, hunchanged hskips]
  · refine loads_of_cached (loadedAccounts_insertAll_of_mem
      (hnodup.sublist (accountsToStore_sublist.map fst)) (mem_accountsToStore_iff.mpr ⟨i, hafter, ?_⟩))
    refine ⟨(getElem?_eq_some_iff.mp hkey).1, ?_⟩
    rw [SVMTransaction.Skips, not_or, not_and, Bool.not_eq_false] at hskips
    refine ⟨hskips.1, ?_⟩
    cases hinvoked : message.isInvoked i with
    | false => rfl
    | true =>
      have := hskips.2 hinvoked
      simpa using this

namespace Vault

theorem sanitized : message.Sanitized := by
  refine ⟨by decide, rfl, rfl, fun i hi => ?_⟩
  obtain rfl := eq_of_beq hi
  exact ⟨program, _, rfl, mem_cons_self⟩

theorem documented : env.toLoadEnvironment.Documented := by
  refine ⟨fun owner data kind h => ?_, by decide, by decide⟩
  by_contra hne
  have hnone : env.nonces.getSystemAccountKind owner data = none := if_pos hne
  rw [hnone] at h
  cases h

/-- The program pays out, in the first of the two instructions. -/
theorem executed (hkeys : accounts.map fst = message.accountKeys) :
    Executed env.sysvarInstructionsId message.toSVMMessage accounts
      (accounts.mapIdx fun i entry => (entry.1, (processMessage message accounts).2 i)) := by
  obtain ⟨x, _, rfl, -, hkeys⟩ := map_eq_cons_iff.mp hkeys
  obtain ⟨y, _, rfl, -, hkeys⟩ := map_eq_cons_iff.mp hkeys
  obtain ⟨z, _, rfl, -, hkeys⟩ := map_eq_cons_iff.mp hkeys
  obtain ⟨w, rfl, hw⟩ := map_eq_singleton_iff.mp hkeys
  have hsysvar : IsSysvar env.sysvarInstructionsId [x, y, z, w] 3 := congrArg some hw
  refine ⟨rfl, .head (.enter mem_cons_self) (.head (.storeCurrentIndex [0, 0] hsysvar) ?_)⟩
  refine .head (.write (x := ⟨1, false, true⟩) { y.2.fields with lamports := y.2.lamports - 7 } (by decide) rfl) ?_
  refine .head (.write (x := ⟨0, true, true⟩) { x.2.fields with lamports := x.2.lamports + 7 } (by decide) rfl) ?_
  refine .head .leave (.head (.enter mem_cons_self) (.head (.storeCurrentIndex [1, 0] hsysvar) (.head .leave ?_)))
  convert Relation.ReflTransGen.refl using 1
  refine congrArg (MessageState.mk []) (funext fun i => ?_)
  rcases i with _ | _ | _ | _ | i <;> rfl

def loadedAccounts : List (Pubkey × Account) :=
  [(payer, ⟨95, [], SYSTEM_PROGRAM_ID, false, RENT_EXEMPT_RENT_EPOCH⟩),
    (vault, ⟨10, [], program, false, RENT_EXEMPT_RENT_EPOCH⟩),
    (program, ⟨1, [4], .replicate 32 14, true, 0⟩),
    (env.sysvarInstructionsId, ⟨0, [0, 0], .replicate 32 11, false, 0⟩)]

/-- The accounts of a transaction that was loaded. -/
def accountsOf : TransactionLoadResult → Option (List (Pubkey × Account))
  | .Loaded tx => some tx.accounts
  | _ => none

/-- The transaction is loaded. -/
theorem exists_loaded : ∃ tx l1, (validateAndLoad env config message (.ok details)).run
    (.new env.toLoadEnvironment none store) = .ok (.Loaded tx) l1 ∧ tx.accounts = loadedAccounts := by
  have hloaded : (result (validateAndLoad env config message (.ok details))
      (.new env.toLoadEnvironment none store)).map accountsOf = .ok (some loadedAccounts) := by decide +kernel
  rw [result] at hloaded
  cases hrun : (validateAndLoad env config message (.ok details)).run (.new env.toLoadEnvironment none store) with
  | error e l1 =>
    rw [hrun] at hloaded
    cases hloaded
  | ok loadResult l1 =>
    rw [hrun] at hloaded
    cases loadResult with
    | Loaded tx => exact ⟨tx, l1, rfl, Option.some.inj (Except.ok.inj hloaded)⟩
    | FeesOnly tx | NotLoaded e => cases hloaded

end Vault

/-- The vault has been paid out from, and the program was not stored. -/
theorem overlay_holds_result_program :
    ∃ tx l₁, (validateAndLoad Vault.env OnePayer.config Vault.message (.ok Vault.details)).run
        (.new Vault.env.toLoadEnvironment none Vault.store) = .ok (.Loaded tx) l₁ ∧
      let l' := l₁.updateAccountsForSuccessfulTx Vault.message (tx.accounts.mapIdx fun i entry =>
        (entry.1, (Vault.processMessage Vault.message tx.accounts).2 i)) Vault.env.slot
      l'.loads Vault.vault = some ⟨3, [], Vault.program, false⟩ ∧
        Vault.message.Skips 2 ∧ l'.loads Vault.program = some ⟨1, [4], .replicate 32 14, true⟩ := by
  obtain ⟨tx, l₁, hloaded, haccounts⟩ := Vault.exists_loaded
  have h := overlay_holds_result _ _ Vault.message _ _ l₁ tx _ Vault.sanitized Vault.documented
    hloaded (Vault.executed (haccounts ▸ rfl))
  refine ⟨tx, l₁, hloaded, ?_⟩
  rw [haccounts] at h ⊢
  obtain ⟨_, _, -, ⟨⟩, -, hvault⟩ := h 1 Vault.vault rfl (by decide)
  obtain ⟨_, _, -, ⟨⟩, -, hprogram⟩ := h 2 Vault.program rfl (by decide)
  exact ⟨hvault, .inl rfl, hprogram⟩

end Svm
