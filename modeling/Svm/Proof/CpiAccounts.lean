import Svm.Framework.FirstIndex
import Svm.Proof.Session
import Svm.Spec.Calls

/-!
# The accounts of an instruction

What the two passes over the account metas of a cross-program invocation
compute. After the first (`Merged`) the map records the first entry of each
account, and that entry has the flags of all metas that name the account. After
the second (`Checked`) every entry has these flags, and every account was found
in the caller with at least these flags. `resolveCpi_ok` puts them together;
`resolveTopLevel_ok` is the same for an instruction of the message.
-/

namespace Svm

open FirstIndex Run InvokeContext
open List hiding getElem?_eq_some_iff

variable {p : Nat}

/-- The program of an instruction is that of its program account. -/
theorem TransactionContext.getProgramKey_ok {ctx : TransactionContext}
    (h : ctx.getProgramKey ic = .ok programId) : ctx.accounts.accountKey ic.programAccountIndexInTx = some programId := by
  obtain ⟨index, hindex, h⟩ := except_inv h
  rw [InstructionContext.getIndexOfProgramAccountInTransaction] at hindex
  split at hindex
  · cases hindex
  cases hindex
  rw [getKeyOfAccountAtIndex] at h
  split at h
  · cases h
    assumption
  · cases h

/-- The transaction accounts of instruction accounts. -/
def indices (accounts : List InstructionAccount) : List UInt16 := accounts.map (·.indexInTransaction)

@[simp] theorem length_indices (accounts) :
    (indices accounts).length = accounts.length := length_map ..

theorem indices_append_singleton (accounts) (account) :
    indices (accounts ++ [account]) = indices accounts ++ [account.indexInTransaction] := map_append ..

theorem indices_set (h : (indices accounts)[p]? = some account.indexInTransaction) :
    indices (accounts.set p account) = indices accounts := by
  rw [indices, map_set, ← indices]
  obtain ⟨hp, hv⟩ := getElem?_eq_some_iff.mp h
  rw [← hv, set_getElem_self]

theorem getElem?_indices (h : accounts[p]? = some account) :
    (indices accounts)[p]? = some account.indexInTransaction := by
  rw [indices, getElem?_map, h]; rfl

theorem mem_indices (h : account ∈ accounts) :
    account.indexInTransaction ∈ indices accounts := mem_map_of_mem h

/-- The flags of the one are among those of the other. -/
def InstructionAccount.Below (x y : InstructionAccount) : Prop :=
  (x.isSigner = true → y.isSigner = true) ∧ (x.isWritable = true → y.isWritable = true)

theorem InstructionAccount.Below.trans {x : InstructionAccount} (h : x.Below y) (h' : y.Below z) : x.Below z :=
  ⟨fun hx => h'.1 (h.1 hx), fun hx => h'.2 (h.2 hx)⟩

/-! ## Merging the metas of an account -/

section Metas

variable (ctx : TransactionContext)

/-- Whether the meta names the account `t` of the transaction. -/
def Names (t : UInt16) (accountMeta : AccountMeta) : Bool :=
  ctx.findIndexOfAccount accountMeta.pubkey == some t

/-- The account `t` with the flags of all metas that name it. -/
def mergedAccount (metas : List AccountMeta) (t : UInt16) : InstructionAccount where
  indexInTransaction := t
  isSigner := metas.any fun accountMeta => Names ctx t accountMeta && accountMeta.isSigner
  isWritable := metas.any fun accountMeta => Names ctx t accountMeta && accountMeta.isWritable

variable {ctx}

theorem mergedAccount_append_of_names (h : ctx.findIndexOfAccount accountMeta.pubkey = some t) :
    mergedAccount ctx (metas ++ [accountMeta]) t = { mergedAccount ctx metas t with
        isSigner := (mergedAccount ctx metas t).isSigner || accountMeta.isSigner
        isWritable := (mergedAccount ctx metas t).isWritable || accountMeta.isWritable } := by
  simp [mergedAccount, Names, h]

theorem mergedAccount_append_ne (h : ctx.findIndexOfAccount accountMeta.pubkey = some u) (hne : t ≠ u) :
    mergedAccount ctx (metas ++ [accountMeta]) t = mergedAccount ctx metas t := by
  simp [mergedAccount, Names, h, Ne.symm hne]

theorem mergedAccount_below_append (metas) (accountMeta) (t) :
    (mergedAccount ctx metas t).Below (mergedAccount ctx (metas ++ [accountMeta]) t) := by
  simp only [mergedAccount, InstructionAccount.Below, any_append, Bool.or_eq_true]
  exact ⟨.inl, .inl⟩

theorem mergedAccount_of_not_named (h : ∀ accountMeta ∈ metas, ctx.findIndexOfAccount accountMeta.pubkey ≠ some t) :
    mergedAccount ctx metas t = ⟨t, false, false⟩ := by
  simp only [mergedAccount, InstructionAccount.mk.injEq, true_and, any_eq_false, Names]
  exact ⟨fun m hm => by simp [h m hm], fun m hm => by simp [h m hm]⟩

variable (ctx) in
/-- The first pass has processed `metas`. -/
structure Merged (metas : List AccountMeta) (table : List UInt16) (accounts : List InstructionAccount) : Prop where
  named : metas.map (fun accountMeta => ctx.findIndexOfAccount accountMeta.pubkey) =
    accounts.map fun account => some account.indexInTransaction
  records : Records table (indices accounts)
  below : ∀ account ∈ accounts, account.Below (mergedAccount ctx metas account.indexInTransaction)
  first : ∀ t ∈ indices accounts, accounts[(indices accounts).idxOf t]? = some (mergedAccount ctx metas t)

theorem merged_nil : Merged ctx [] newCalleeMap [] where
  named := rfl
  records := records_replicate _
  below := by simp
  first := by simp [indices]

namespace Merged

variable (h : Merged ctx metas table accounts)

include h

theorem length_eq : accounts.length = metas.length := by
  simpa using (congrArg length h.named).symm

/-- An account that has no entry was not named. -/
theorem not_named (ht : t ∉ indices accounts) :
    ∀ accountMeta ∈ metas, ctx.findIndexOfAccount accountMeta.pubkey ≠ some t := by
  intro m hm he
  have : some t ∈ accounts.map fun account => some account.indexInTransaction := by
    rw [← h.named, ← he]
    exact mem_map_of_mem hm
  obtain ⟨account, ha, hat⟩ := mem_map.mp this
  exact ht (Option.some.inj hat ▸ mem_indices ha)

/-- The entry the account has, merged and repeated. -/
theorem repeated (ht : t ∈ indices accounts) (hm : ctx.findIndexOfAccount accountMeta.pubkey = some t) :
    let account := mergedAccount ctx (metas ++ [accountMeta]) t
    Merged ctx (metas ++ [accountMeta]) table
      (accounts.set ((indices accounts).idxOf t) account ++ [account]) := by
  intro account
  have hp : (indices accounts)[(indices accounts).idxOf t]? = some account.indexInTransaction := by
    rw [getElem?_idxOf ht]; rfl
  have hind : indices (accounts.set ((indices accounts).idxOf t) account ++ [account]) =
      indices accounts ++ [t] := by
    rw [indices_append_singleton, indices_set hp]; rfl
  refine ⟨?_, ?_, ?_, ?_⟩
  · have : ∀ l,
        l.map (fun account => some account.indexInTransaction) = (indices l).map some := fun l => by
      simp [indices]
    rw [this, hind, map_append, h.named, this]
    simp [hm]
  · rw [hind]
    exact h.records.append_of_mem ht
  · intro x hx
    rcases mem_append.mp hx with hx | hx
    · rcases mem_or_eq_of_mem_set hx with hx | rfl
      · exact (h.below x hx).trans (mergedAccount_below_append _ _ _)
      · exact ⟨id, id⟩
    · obtain rfl := mem_singleton.mp hx
      exact ⟨id, id⟩
  · intro u hu
    rw [hind] at hu ⊢
    have hu : u ∈ indices accounts := by
      rcases mem_append.mp hu with hu | hu
      · exact hu
      · exact mem_singleton.mp hu ▸ ht
    have hlt := idxOf_lt_length_of_mem hu
    rw [length_indices] at hlt
    rw [idxOf_append_of_mem hu, getElem?_append_left (by simpa using hlt)]
    by_cases hut : u = t
    · subst hut
      rw [getElem?_set_self hlt]
    · have hne : (indices accounts).idxOf t ≠ (indices accounts).idxOf u := fun he =>
        hut (idxOf_inj hu |>.mp he.symm)
      rw [getElem?_set_ne hne, h.first u hu, mergedAccount_append_ne hm hut]

/-- A first entry. -/
theorem appended (ht : t ∉ indices accounts) (hm : ctx.findIndexOfAccount accountMeta.pubkey = some t) :
    Merged ctx (metas ++ [accountMeta]) (table.set t.toNat (.ofNat accounts.length))
      (accounts ++ [⟨t, accountMeta.isSigner, accountMeta.isWritable⟩]) := by
  have hind : indices (accounts ++ [⟨t, accountMeta.isSigner, accountMeta.isWritable⟩]) =
      indices accounts ++ [t] := indices_append_singleton ..
  have hnew : mergedAccount ctx (metas ++ [accountMeta]) t = ⟨t, accountMeta.isSigner, accountMeta.isWritable⟩ := by
    rw [mergedAccount_append_of_names hm, mergedAccount_of_not_named (h.not_named ht)]
    simp
  refine ⟨?_, ?_, ?_, ?_⟩
  · rw [map_append, h.named]
    simp [hm]
  · rw [hind, ← length_indices]
    exact h.records.append_of_notMem ht
  · intro x hx
    rcases mem_append.mp hx with hx | hx
    · exact (h.below x hx).trans (mergedAccount_below_append _ _ _)
    · obtain rfl := mem_singleton.mp hx
      rw [hnew]
      exact ⟨id, id⟩
  · intro u hu
    rw [hind] at hu ⊢
    by_cases hut : u = t
    · subst hut
      rw [idxOf_append_of_notMem ht, hnew]
      simp
    · have hu : u ∈ indices accounts := by
        rcases mem_append.mp hu with hu | hu
        · exact hu
        · exact absurd (mem_singleton.mp hu) hut
      have hlt := idxOf_lt_length_of_mem hu
      rw [length_indices] at hlt
      rw [idxOf_append_of_mem hu, getElem?_append_left hlt, h.first u hu, mergedAccount_append_ne hm hut]

/-- One step of the first pass. -/
theorem addMeta (hlen : metas.length < 65535) (hstep : addMeta ctx (table, accounts) accountMeta = .ok state) :
    Merged ctx (metas ++ [accountMeta]) state.1 state.2 := by
  have hkeys : (indices accounts).length ≤ 65535 := by
    rw [length_indices, h.length_eq]; omega
  simp only [InvokeContext.addMeta] at hstep
  split at hstep
  · cases hstep
  rename_i t hm
  split at hstep
  · cases hstep
  rename_i v hv
  obtain rfl := h.records.lookup hv
  split at hstep
  · rename_i account hacc
    have hlt := (getElem?_eq_some_iff.mp hacc).1
    rw [← length_indices, firstIndex_lt_iff hkeys] at hlt
    rw [toNat_firstIndex hkeys hlt] at hstep hacc
    obtain rfl := Option.some.inj (hacc.symm.trans (h.first t hlt))
    rw [← mergedAccount_append_of_names hm] at hstep
    cases hstep
    exact h.repeated hlt hm
  · rename_i hacc
    have hge := getElem?_eq_none_iff.mp hacc
    have ht : t ∉ indices accounts := fun ht => by
      have := (firstIndex_lt_iff hkeys).mpr ht
      rw [length_indices] at this
      omega
    cases hstep
    exact h.appended ht hm

/-- The first pass. -/
theorem addMetas (hlen : metas.length + metas'.length ≤ 65535)
    (hstep : addMetas ctx metas' (table, accounts) = .ok state) : Merged ctx (metas ++ metas') state.1 state.2 := by
  induction metas' generalizing metas table accounts with
  | nil =>
    cases hstep
    simpa using h
  | cons accountMeta metas' ih =>
    rw [addMetas, foldlM_cons, except_bind_ok] at hstep
    obtain ⟨⟨table1, accounts1⟩, h1, hstep⟩ := hstep
    rw [length_cons] at hlen
    have := ih (h.addMeta (by omega) h1) (by rw [length_append]; simpa using by omega) hstep
    simpa using this

end Merged

end Metas

/-! ## Checking the accounts against the caller -/

section Caller

variable (ctx : TransactionContext) (caller : InstructionContext) (metas : List AccountMeta) (signers : List Pubkey)

/-- The caller has the account `t`, with the flags of all metas that name it; a
signature may be one of `signers` instead. -/
def Granted (t : UInt16) : Prop :=
  ∃ (index : UInt16) (callerAccount : InstructionAccount) (accountMeta : AccountMeta),
    caller.getIndexOfAccountInInstruction t = .ok index ∧
    caller.instructionAccounts[index.toNat]? = some callerAccount ∧
    accountMeta ∈ metas ∧ ctx.findIndexOfAccount accountMeta.pubkey = some t ∧
    ((mergedAccount ctx metas t).isWritable = true → callerAccount.isWritable = true) ∧
    ((mergedAccount ctx metas t).isSigner = true →
      callerAccount.isSigner = true ∨ accountMeta.pubkey ∈ signers)

/-- The second pass has processed the entries below `currentIndex`. -/
structure Checked (table : List UInt16) (currentIndex : Nat) (accounts : List InstructionAccount) : Prop
    extends Merged ctx metas table accounts where
  settled : ∀ p < currentIndex, ∀ account, accounts[p]? = some account →
    account = mergedAccount ctx metas account.indexInTransaction
  granted : ∀ t ∈ indices accounts, (indices accounts).idxOf t < currentIndex → Granted ctx caller metas signers t

variable {ctx} {caller} {metas} {signers}

theorem Merged.checked_zero (h : Merged ctx metas table accounts) :
    Checked ctx caller metas signers table 0 accounts :=
  ⟨h, fun _ hp => absurd hp (Nat.not_lt_zero _), fun _ _ hp => absurd hp (Nat.not_lt_zero _)⟩

namespace Checked

variable (h : Checked ctx caller metas signers table currentIndex accounts)

include h

/-- A repeated entry takes the flags of the first one. -/
theorem repeated (hacc : accounts[currentIndex]? = some account)
    (hne : currentIndex ≠ (indices accounts).idxOf account.indexInTransaction) :
    Checked ctx caller metas signers table (currentIndex + 1)
      (accounts.set currentIndex (mergedAccount ctx metas account.indexInTransaction)) := by
  set merged := mergedAccount ctx metas account.indexInTransaction
  have hind : indices (accounts.set currentIndex merged) = indices accounts :=
    indices_set ((getElem?_indices hacc).trans rfl)
  have hlt := (getElem?_eq_some_iff.mp hacc).1
  -- the entry at `t`'s first index is one of `t`, so it would be its own first entry
  have hnot {t : UInt16} (ht : t ∈ indices accounts) : currentIndex ≠ (indices accounts).idxOf t := by
    intro hp
    have hat := getElem?_indices hacc
    rw [hp, getElem?_idxOf ht] at hat
    exact hne (Option.some.inj hat ▸ hp)
  refine ⟨⟨?_, ?_, ?_, ?_⟩, ?_, ?_⟩
  · have := congrArg (map some) hind
    simp only [indices, map_map] at this
    rw [h.named]
    exact this.symm
  · rw [hind]; exact h.records
  · intro x hx
    rcases mem_or_eq_of_mem_set hx with hx | rfl
    · exact h.below x hx
    · exact ⟨id, id⟩
  · intro t ht
    rw [hind] at ht ⊢
    rw [getElem?_set_ne (hnot ht)]
    exact h.first t ht
  · intro p hp x hx
    by_cases he : currentIndex = p
    · subst he
      rw [getElem?_set_self hlt] at hx
      cases hx
      rfl
    · rw [getElem?_set_ne he] at hx
      exact h.settled p (by omega) x hx
  · intro t ht hlt
    rw [hind] at ht hlt
    have := hnot ht
    exact h.granted t ht (by omega)

/-- A first entry was granted by the caller. -/
theorem first_granted (hacc : accounts[currentIndex]? = some account)
    (he : currentIndex = (indices accounts).idxOf account.indexInTransaction)
    (hgranted : Granted ctx caller metas signers account.indexInTransaction) :
    Checked ctx caller metas signers table (currentIndex + 1) accounts := by
  have hmem := mem_indices (mem_of_getElem? hacc)
  refine ⟨h.toMerged, ?_, ?_⟩
  · intro p hp x hx
    rcases Nat.lt_succ_iff_lt_or_eq.mp hp with hp | rfl
    · exact h.settled p hp x hx
    · have := h.first _ hmem
      rw [← he, hacc] at this
      rw [hacc] at hx
      cases hx
      exact Option.some.inj this
  · intro t ht hlt
    rcases Nat.lt_succ_iff_lt_or_eq.mp hlt with hlt | hlt
    · exact h.granted t ht hlt
    · obtain rfl := (idxOf_inj ht).mp (hlt.trans he)
      exact hgranted

/-- One step of the second pass. -/
theorem checkAccount (hlen : metas.length ≤ 65535)
    (hstep : checkAccount caller metas signers table currentIndex accounts = .ok accounts') :
    Checked ctx caller metas signers table (currentIndex + 1) accounts' := by
  have hkeys : (indices accounts).length ≤ 65535 := by
    rw [length_indices, h.length_eq]; exact hlen
  simp only [InvokeContext.checkAccount] at hstep
  split at hstep
  · cases hstep
  rename_i account hacc
  have hmem := mem_indices (mem_of_getElem? hacc)
  split at hstep
  · cases hstep
  rename_i v hv
  obtain rfl := h.records.lookup hv
  rw [toNat_firstIndex hkeys hmem] at hstep
  split at hstep
  · rename_i hne
    rw [h.first _ hmem] at hstep
    -- the entry has no flag that the first one lacks
    have hor : ({ account with
        isSigner := account.isSigner || (mergedAccount ctx metas account.indexInTransaction).isSigner
        isWritable := account.isWritable || (mergedAccount ctx metas account.indexInTransaction).isWritable } :
          InstructionAccount) = mergedAccount ctx metas account.indexInTransaction := by
      have hb := h.below account (mem_of_getElem? hacc)
      rw [Bool.or_eq_right_iff_imp.mpr hb.1, Bool.or_eq_right_iff_imp.mpr hb.2]
      rfl
    simp only [hor, Except.ok.injEq] at hstep
    subst hstep
    exact h.repeated hacc hne
  · rename_i he
    split at hstep
    · cases hstep
    rename_i index hindex
    split at hstep
    · rename_i accountMeta callerAccount hmeta hcaller
      split at hstep
      · cases hstep
      rename_i hw
      split at hstep
      · cases hstep
      rename_i hs
      cases hstep
      have hfirst := h.first _ hmem
      rw [← not_ne_iff.mp he, hacc] at hfirst
      refine h.first_granted hacc (not_ne_iff.mp he)
        ⟨index, callerAccount, accountMeta, hindex, hcaller, mem_of_getElem? hmeta, ?_, ?_, ?_⟩
      · have := congrArg (·[currentIndex]?) h.named
        simpa [hmeta, hacc] using this
      · rw [← Option.some.inj hfirst]
        intro hx
        simpa [hx] using hw
      · rw [← Option.some.inj hfirst]
        intro hx
        rw [Bool.and_eq_true, not_and, hx, Bool.not_eq_true, Bool.not_eq_false', Bool.or_eq_true,
          contains_iff_mem] at hs
        exact hs rfl
    · cases hstep

/-- The second pass. -/
theorem checkAccounts (hlen : metas.length ≤ 65535)
    (hstep : checkAccounts caller metas signers table currentIndex remaining accounts = .ok accounts') :
    Checked ctx caller metas signers table (currentIndex + remaining) accounts' := by
  induction remaining generalizing currentIndex accounts with
  | zero =>
    cases hstep
    exact h
  | succ remaining ih =>
    rw [checkAccounts, except_bind_ok] at hstep
    obtain ⟨accounts1, h1, hstep⟩ := hstep
    have hc := ih (h.checkAccount hlen h1) hstep
    rwa [add_assoc, add_comm 1] at hc

end Checked

variable (ctx caller signers) in
/-- What `prepare_next_cpi_instruction` configures. -/
structure Resolved (instruction : Instruction) (program : UInt16) (accounts : List InstructionAccount)
    (table : List UInt16) : Prop where
  length : accounts.length = instruction.accounts.length
  records : Records table (indices accounts)
  merged : ∀ account ∈ accounts,
    account = mergedAccount ctx instruction.accounts account.indexInTransaction
  granted : ∀ account ∈ accounts,
    Granted ctx caller instruction.accounts signers account.indexInTransaction
  programIndex : ctx.findIndexOfAccount instruction.programId = some program
  called : ∃ index, caller.getIndexOfAccountInInstruction program = .ok index

theorem findProgram_ok (h : findProgram ctx caller programId = .ok program) :
    ctx.findIndexOfAccount programId = some program ∧
      ∃ index, caller.getIndexOfAccountInInstruction program = .ok index := by
  simp only [findProgram] at h
  split at h
  · cases h
  rename_i index hindex
  split at h
  · cases h
  rename_i inCaller hinCaller
  cases h
  exact ⟨hindex, inCaller, hinCaller⟩

variable (hlen : instruction.accounts.length ≤ 65535)
  (h : resolveCpi ctx instruction signers = .ok (program, accounts, table))

include h

theorem resolveCpi_eq_ok : ∃ caller merged, ctx.getCurrentInstructionContext = .ok caller ∧
      addMetas ctx instruction.accounts (newCalleeMap, []) = .ok (table, merged) ∧
      checkAccounts caller instruction.accounts signers table 0 merged.length merged = .ok accounts ∧
      findProgram ctx caller instruction.programId = .ok program := by
  simp only [resolveCpi] at h
  split at h
  · cases h
  rename_i caller hcaller
  obtain ⟨⟨table1, merged⟩, h1, h⟩ := except_inv h
  obtain ⟨accounts2, h2, h⟩ := except_inv h
  split at h
  · cases h
  rename_i program' hprogram
  cases h
  exact ⟨caller, merged, hcaller, h1, h2, hprogram⟩

include hlen

theorem resolveCpi_checked : ∃ caller, ctx.getCurrentInstructionContext = .ok caller ∧
      Checked ctx caller instruction.accounts signers table accounts.length accounts ∧
      findProgram ctx caller instruction.programId = .ok program := by
  obtain ⟨caller, merged, hcaller, h1, h2, hprogram⟩ := resolveCpi_eq_ok h
  have hmerged := merged_nil.addMetas (by simpa using hlen) h1
  have hc := hmerged.checked_zero.checkAccounts hlen h2
  rw [zero_add, hmerged.length_eq, ← hc.length_eq] at hc
  exact ⟨caller, hcaller, hc, hprogram⟩

theorem resolveCpi_ok : ∃ caller, ctx.getCurrentInstructionContext = .ok caller ∧
      Resolved ctx caller signers instruction program accounts table := by
  obtain ⟨caller, hcaller, hc, hprogram⟩ := resolveCpi_checked hlen h
  obtain ⟨hfound, hcalled⟩ := findProgram_ok hprogram
  refine ⟨caller, hcaller, hc.length_eq, hc.records, ?_, ?_, hfound, hcalled⟩
  · intro account ha
    obtain ⟨p, hp⟩ := getElem?_of_mem ha
    exact hc.settled p (getElem?_eq_some_iff.mp hp).1 account hp
  · intro account ha
    refine hc.granted _ (mem_indices ha) ?_
    rw [← length_indices]
    exact idxOf_lt_length_of_mem (mem_indices ha)

/-- The accounts of the callee are those that the metas name, one by one. -/
theorem resolveCpi_named (hp : instruction.accounts[p]? = some accountMeta) :
    ∃ account, accounts[p]? = some account ∧
      ctx.findIndexOfAccount accountMeta.pubkey = some account.indexInTransaction := by
  obtain ⟨caller, -, hc, -⟩ := resolveCpi_checked hlen h
  have hnamed := congrArg (·[p]?) hc.named
  simp only [getElem?_map, hp] at hnamed
  obtain ⟨account, haccount, heq⟩ := Option.map_eq_some_iff.mp hnamed.symm
  exact ⟨account, haccount, heq.symm⟩

end Caller

/-! ## Top level instructions -/

section TopLevel

variable (message : SVMMessage)

/-- The account with the flags the message gives it. -/
def messageAccount (t : UInt16) : InstructionAccount := ⟨t, message.isSigner t.toNat, message.isWritable t.toNat⟩

/-- Accounts of an instruction of the message, with their map. -/
structure FromMessage (table : List UInt16) (accounts : List InstructionAccount) : Prop where
  records : Records table (indices accounts)
  length : table.length = MAX_ACCOUNTS_PER_TRANSACTION
  flags : ∀ account ∈ accounts, account = messageAccount message account.indexInTransaction

variable {message}

theorem FromMessage.addIndex (h : FromMessage message table accounts) (hlen : accounts.length < 65535)
    (index : UInt8) : FromMessage message (addIndex message (table, accounts) index).1
      (addIndex message (table, accounts) index).2 := by
  set t : UInt16 := .ofNat index.toNat
  have htn : t.toNat = index.toNat := by
    rw [UInt16.toNat_ofNat']
    have := index.toNat_lt
    omega
  have hlt : t.toNat < table.length := by
    have := index.toNat_lt
    rw [htn, h.length]
    exact this
  have hkeys : (indices accounts).length ≤ 65535 := by rw [length_indices]; omega
  have hv : table[index.toNat]?.getD 0 = firstIndex (indices accounts) t := by
    rw [← htn, h.records t hlt, Option.getD_some]
  simp only [InvokeContext.addIndex, hv]
  refine ⟨?_, ?_, ?_⟩
  · rw [indices_append_singleton]
    by_cases hmem : t ∈ indices accounts
    · have := (firstIndex_lt_iff hkeys).mpr hmem
      rw [length_indices] at this
      rw [if_neg (by omega)]
      exact h.records.append_of_mem hmem
    · have : (firstIndex (indices accounts) t).toNat = 65535 := by rw [firstIndex, if_neg hmem]; rfl
      rw [if_pos (by omega)]
      have hr := h.records.append_of_notMem hmem
      rwa [htn, length_indices] at hr
  · split
    · rw [length_set]; exact h.length
    · exact h.length
  · intro account ha
    rcases mem_append.mp ha with ha | ha
    · exact h.flags account ha
    · rw [mem_singleton.mp ha, messageAccount, htn]

theorem FromMessage.foldl {indexes : List UInt8} (h : FromMessage message table accounts)
    (hlen : accounts.length + indexes.length ≤ 65535) :
    FromMessage message (indexes.foldl (InvokeContext.addIndex message) (table, accounts)).1
      (indexes.foldl (InvokeContext.addIndex message) (table, accounts)).2 := by
  induction indexes generalizing table accounts with
  | nil => exact h
  | cons index indexes ih =>
    rw [length_cons] at hlen
    refine ih (h.addIndex (by omega) index) ?_
    rw [length_append, length_singleton]
    omega

theorem resolveTopLevel_ok (hlen : instruction.accounts.length ≤ 65535) :
    FromMessage message (resolveTopLevel message instruction).1 (resolveTopLevel message instruction).2 := by
  have hnil : FromMessage message newCalleeMap [] :=
    ⟨records_replicate _, length_replicate, fun _ h => absurd h not_mem_nil⟩
  exact hnil.foldl (by simpa using hlen)

/-- The accounts are those that the instruction names, one by one. -/
theorem indices_resolveTopLevel (message) (instruction) :
    indices (resolveTopLevel message instruction).2 = instruction.accounts.map fun i => .ofNat i.toNat := by
  have hfold : ∀ (indexes : List UInt8) state,
      indices (indexes.foldl (addIndex message) state).2 =
        indices state.2 ++ indexes.map fun i => .ofNat i.toNat := by
    intro indexes
    induction indexes with
    | nil => simp
    | cons index indexes ih =>
      intro state
      rw [foldl_cons, ih, addIndex, indices_append_singleton, map_cons, append_assoc, singleton_append]
  rw [resolveTopLevel, hfold]
  rfl

theorem length_resolveTopLevel (message) (instruction) :
    (resolveTopLevel message instruction).2.length = instruction.accounts.length := by
  rw [← length_indices, indices_resolveTopLevel, length_map]

end TopLevel

/-! ## Indices of accounts -/

/-- The indices are below 256, and the map has an entry for each. -/
def SmallIndices (state : List UInt16 × List InstructionAccount) : Prop :=
  state.1.length = 256 ∧ ∀ account ∈ state.2, account.indexInTransaction.toNat < 256

theorem smallIndices_newCalleeMap : SmallIndices (newCalleeMap, []) :=
  ⟨length_replicate, by simp⟩

theorem SmallIndices.addIndex (h : SmallIndices state) (message) (index : UInt8) :
    SmallIndices (addIndex message state index) := by
  obtain ⟨hlength, hsmall⟩ := h
  refine ⟨?_, ?_⟩
  · simp only [InvokeContext.addIndex]
    split
    · rwa [length_set]
    · exact hlength
  · intro account haccount
    rcases mem_append.mp haccount with haccount | haccount
    · exact hsmall account haccount
    · obtain rfl := mem_singleton.mp haccount
      have := index.toNat_lt
      show index.toNat % 65536 < 256
      omega

theorem smallIndices_resolveTopLevel (message) (instruction) :
    SmallIndices (resolveTopLevel message instruction) :=
  foldlRecOn _ _ smallIndices_newCalleeMap fun _ h index _ => h.addIndex message index

theorem SmallIndices.addMeta (h : SmallIndices state) (hstep : addMeta ctx state accountMeta = .ok state') :
    SmallIndices state' := by
  obtain ⟨hlength, hsmall⟩ := h
  simp only [InvokeContext.addMeta] at hstep
  split at hstep
  · cases hstep
  split at hstep
  · cases hstep
  rename_i index _ _ indexInCallee hmap
  have hlt : index.toNat < 256 := hlength ▸ (getElem?_eq_some_iff.mp hmap).1
  split at hstep
  · rename_i account haccount
    cases hstep
    have hold := hsmall account (mem_of_getElem? haccount)
    refine ⟨hlength, fun account' haccount' => ?_⟩
    rcases mem_append.mp haccount' with haccount' | haccount'
    · rcases mem_or_eq_of_mem_set haccount' with haccount' | rfl
      · exact hsmall account' haccount'
      · exact hold
    · rw [mem_singleton.mp haccount']
      exact hold
  · cases hstep
    refine ⟨by rwa [length_set], fun account haccount => ?_⟩
    rcases mem_append.mp haccount with haccount | haccount
    · exact hsmall account haccount
    · rw [mem_singleton.mp haccount]
      exact hlt

theorem SmallIndices.addMetas (h : SmallIndices state)
    (hstep : addMetas ctx metas state = .ok state') : SmallIndices state' := by
  induction metas generalizing state with
  | nil =>
    cases hstep
    exact h
  | cons accountMeta metas ih =>
    obtain ⟨state1, hstep1, hstep⟩ := except_inv hstep
    exact ih (h.addMeta hstep1) hstep

/-- The second pass changes no index. -/
theorem indices_checkAccount
    (hstep : checkAccount caller metas signers table currentIndex accounts = .ok accounts') :
    indices accounts' = indices accounts := by
  simp only [checkAccount] at hstep
  split at hstep
  · cases hstep
  rename_i account haccount
  split at hstep
  · cases hstep
  split at hstep
  · split at hstep
    · cases hstep
    · cases hstep
      have hindex := getElem?_indices haccount
      exact indices_set hindex
  split at hstep
  · cases hstep
  split at hstep
  · split at hstep
    · cases hstep
    split at hstep
    · cases hstep
    · cases hstep
      rfl
  · cases hstep

theorem indices_checkAccounts
    (hstep : checkAccounts caller metas signers table currentIndex remaining accounts = .ok accounts') :
    indices accounts' = indices accounts := by
  induction remaining generalizing currentIndex accounts with
  | zero =>
    cases hstep
    rfl
  | succ remaining ih =>
    obtain ⟨accounts1, hstep1, hstep⟩ := except_inv hstep
    exact (ih hstep).trans (indices_checkAccount hstep1)

/-- A call names accounts that the maps of the runtime have entries for. -/
theorem smallIndices_resolveCpi (hresolved : resolveCpi ctx instruction signers = .ok (program, accounts, table)) :
    SmallIndices (table, accounts) := by
  obtain ⟨caller, merged, -, hadd, hcheck, -⟩ := resolveCpi_eq_ok hresolved
  obtain ⟨hlength, hsmall⟩ := smallIndices_newCalleeMap.addMetas hadd
  refine ⟨hlength, fun account haccount => ?_⟩
  have hmem : account.indexInTransaction ∈ indices merged :=
    indices_checkAccounts hcheck ▸ mem_indices haccount
  obtain ⟨account', haccount', heq⟩ := mem_map.mp hmem
  rw [← heq]
  exact hsmall account' haccount'

end Svm
