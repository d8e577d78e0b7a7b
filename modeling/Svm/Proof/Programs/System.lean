import Svm.Proof.Ledger
import Svm.Proof.Lamports
import Svm.Spec.Programs.SystemPolicy
import Mathlib.Algebra.BigOperators.Group.Finset.Piecewise
import Mathlib.Algebra.BigOperators.Ring.Finset

/-!
# The system program changes accounts as `Effect` says

One lemma for each function of the program that succeeds, then
`processInstruction_outcome`: at every address an instruction has an `Effect`, and the
lamports are only moved. `processInstruction_changes` splits the effects into elementary
changes.
-/

namespace Svm.System

open Machine Run Ledger AccountFields TransactionAccounts InstructionContext BorrowedInstructionAccount Function Address Finset
open List hiding map_map mem_range range sum

variable {env : Environment} {ic : InstructionContext} {rent : Rent} {a a' : TransactionAccounts}
  {signers : List Pubkey} {i : SystemInstruction} {j index source : UInt16} {m : UInt16 → AccountFields}
  {f : AccountFields} {lamports : UInt64} {owner key : Pubkey}

/-! ## Addresses -/

theorem Address.create_signed {address : Address}
    (h : create env key withSeed = .ok address) (hsigner : address.isSigner signers = true) :
    Signed env signers key := by
  cases withSeed with
  | none =>
    cases h
    exact .inl (by simpa [isSigner] using hsigner)
  | some seeded =>
    obtain ⟨base, seed, owner⟩ := seeded
    obtain ⟨derived, hderived, h⟩ := except_inv h
    obtain ⟨_, heq, h⟩ := except_inv h
    cases h
    rw [failIf_ok, not_not] at heq
    subst heq
    exact .inr ⟨base, seed, owner, by simpa [isSigner] using hsigner, hderived⟩

/-! ## Lamports -/

/-- The lamports of the accounts at the first `n` indices. -/
def lamportsBelow (n : Nat) (m : UInt16 → AccountFields) : Nat :=
  ∑ k ∈ range n, (m (.ofNat k)).lamports.toNat

/-- How many accounts an index reaches. -/
def reach (a : TransactionAccounts) : Nat := min a.len (2 ^ 16)

theorem lt_reach (h : j.toNat < a.len) : j.toNat < reach a := Nat.lt_min.mpr ⟨h, j.toNat_lt⟩

theorem lamportsBelow_update (hj : j.toNat < a.len) :
    lamportsBelow (reach a) (update m j f) + (m j).lamports.toNat =
      lamportsBelow (reach a) m + f.lamports.toNat := by
  have hmem : j.toNat ∈ range (reach a) := mem_range.mpr (lt_reach hj)
  have hself : UInt16.ofNat j.toNat = j := UInt16.ofNat_toNat
  have hothers : ∀ k ∈ (range (reach a)).erase j.toNat, update m j f (.ofNat k) = m (.ofNat k) := by
    intro k hk
    obtain ⟨hne, hk⟩ := mem_erase.mp hk
    refine update_of_ne (fun heq => hne ?_) ..
    rw [← heq, UInt16.toNat_ofNat_of_lt' ((mem_range.mp hk).trans_le (min_le_right ..))]
  rw [lamportsBelow, lamportsBelow, ← add_sum_erase _ _ hmem, ← add_sum_erase _ _ hmem,
    sum_congr rfl fun k hk => by rw [hothers k hk], hself, update_self]
  omega

theorem lamportsBelow_update_same (hj : j.toNat < a.len) (hf : f.lamports = (m j).lamports) :
    lamportsBelow (reach a) (update m j f) = lamportsBelow (reach a) m := by
  have := lamportsBelow_update (m := m) (f := f) hj
  rw [hf] at this
  omega

/-- The sum of the lamports, split at the accounts that an index reaches. -/
theorem totalLamports_eq (a) : a.totalLamports = lamportsBelow (reach a) a.fieldsAt +
      total (fun s => s.view.lamports.toNat) (a.slots.drop (2 ^ 16)) := by
  have hslots : a.slots.take (2 ^ 16) = (List.range (reach a)).map fun k => a.slot (.ofNat k) := by
    refine ext_getElem? fun k => ?_
    rw [getElem?_map, getElem?_take]
    by_cases hk : k < reach a
    · obtain ⟨hlen, hsmall⟩ := Nat.lt_min.mp hk
      have htoNat : (UInt16.ofNat k).toNat = k := UInt16.toNat_ofNat_of_lt' hsmall
      have hget := getElem?_slots (by rw [htoNat]; exact hlen)
      rw [htoNat] at hget
      rw [if_pos hsmall, hget, getElem?_range hk]
      rfl
    · have hnone : (List.range (reach a))[k]? = none := getElem?_eq_none (by simpa using hk)
      rw [hnone]
      split_ifs with hsmall
      · have hlen : a.slots.length ≤ k := Nat.le_of_not_lt fun hlen => hk (Nat.lt_min.mpr ⟨hlen, hsmall⟩)
        rw [getElem?_eq_none hlen]
        rfl
      · rfl
  rw [totalLamports, sum, ← take_append_drop (2 ^ 16) a.slots,
    total_append, take_append_drop, total, hslots, List.map_map, lamportsBelow, Nat.cast_sum]
  rfl

/-- `lamports` go from the account at `s` to the one at `t`. -/
structure Paid (s t : UInt16) (lamports : UInt64) (m m' : UInt16 → AccountFields) : Prop where
  covered : lamports ≤ (m s).lamports
  fields : let debited := update m s { m s with lamports := (m s).lamports - lamports }
    ∃ l, l.toNat = (debited t).lamports.toNat + lamports.toNat ∧
      m' = update debited t { debited t with lamports := l }

namespace Paid

/-- One account pays, another one gets the lamports; if they are the same nothing
changes. -/
theorem cases (h : Paid s t lamports m m') (j) :
    m' j = m j ∨ (j = s ∧ j ≠ t ∧ m' j = { m j with lamports := (m j).lamports - lamports }) ∨
      (j = t ∧ ∃ l, (m j).lamports ≤ l ∧ m' j = { m j with lamports := l }) := by
  obtain ⟨l, hl, rfl⟩ := h.fields
  by_cases ht : j = t
  · subst ht
    rw [update_self]
    by_cases hs : j = s
    · subst hs
      rw [update_self] at hl ⊢
      have hsame : l = (m j).lamports := by
        refine UInt64.toNat_inj.mp (hl.trans ?_)
        have hle := UInt64.le_iff_toNat_le.mp h.covered
        rw [UInt64.toNat_sub_of_le _ _ h.covered]
        omega
      exact .inl (by rw [hsame])
    · rw [update_of_ne hs] at hl ⊢
      exact .inr (.inr ⟨rfl, l, UInt64.le_iff_toNat_le.mpr (by omega), rfl⟩)
  · rw [update_of_ne ht]
    by_cases hs : j = s
    · subst hs
      exact .inr (.inl ⟨rfl, ht, update_self ..⟩)
    · exact .inl (update_of_ne hs ..)

/-- The sum of the lamports stays. -/
theorem lamportsBelow_eq (h : Paid s t lamports m m') (hs : s.toNat < a.len) (ht : t.toNat < a.len) :
    lamportsBelow (reach a) m' = lamportsBelow (reach a) m := by
  have hle := UInt64.le_iff_toNat_le.mp h.covered
  have hdebit := lamportsBelow_update (m := m) (f := { m s with lamports := (m s).lamports - lamports }) hs
  simp only [UInt64.toNat_sub_of_le _ _ h.covered] at hdebit
  obtain ⟨l, hl, hm'⟩ := h.fields
  dsimp only at hl hm'
  subst hm'
  generalize update m s { m s with lamports := (m s).lamports - lamports } = debited at hl hdebit ⊢
  have hcredit := lamportsBelow_update (m := debited) (f := { debited t with lamports := l }) ht
  simp only at hcredit
  omega

end Paid

/-! ## One account -/

/-- The instruction `i` has its effect on the account, which keeps its lamports. -/
def Affects (env : Environment) (signers : List Pubkey) (i : SystemInstruction) (b : BorrowedInstructionAccount)
    (a a' : TransactionAccounts) : Prop :=
  ∃ f, Leaves a a' (b.updated a f) ∧ Effect env signers (b.getKey a) i (b.fields a) f ∧
    f.lamports = (b.fields a).lamports

section Borrowed

variable {b : BorrowedInstructionAccount} (hi : b.getIndexInTransaction.toNat < a.len)
  (hprogram : a.accountKey b.indexInTransactionOfInstructionProgram = some SYSTEM_PROGRAM_ID) {address : Address}

theorem getVersions_ok {data : List UInt8}
    (h : getVersions env data = .ok versions) : env.nonces.deserialize data = some versions := by
  rw [getVersions] at h
  split at h
  · cases h
    assumption
  · cases h

include hi

theorem allocate_ok (h : (allocate env b address space signers).run a = .ok () a') :
    address.isSigner signers = true ∧ (b.fields a).data = [] ∧ (b.fields a).owner = SYSTEM_PROGRAM_ID ∧
      Leaves a a' (b.updated a { b.fields a with data := replicate space.toNat 0 }) := by
  obtain ⟨hsigner, h⟩ := throwIf_inv h
  obtain ⟨hfree, h⟩ := throwIf_inv h
  obtain ⟨-, h⟩ := throwIf_inv h
  obtain ⟨-, hl⟩ := b.setDataLength_ok hi h
  rw [not_or, not_not, not_not] at hfree
  obtain ⟨hdata, howner⟩ := hfree
  have hresized : resized (b.fields a).data space.toNat = replicate space.toNat 0 := by
    rw [show (b.fields a).data = [] from hdata]
    simp [resized]
  exact ⟨by simpa using hsigner, hdata, howner, hresized ▸ hl⟩

/-- The account had the owner already, or it is zeroed, owned and signed for. -/
theorem assign_cases (h : (assign b address owner signers).run a = .ok () a') :
    (a' = a ∧ (b.fields a).owner = owner) ∨
      (address.isSigner signers = true ∧ b.isOwnedByCurrentProgram a = true ∧ (∀ byte ∈ (b.fields a).data, byte = 0) ∧
        Leaves a a' (b.updated a { b.fields a with owner := owner })) := by
  rw [assign, run_get_bind] at h
  split_ifs at h with howner
  · cases h
    exact .inl ⟨rfl, howner⟩
  · obtain ⟨hsigner, h⟩ := throwIf_inv h
    obtain ⟨hc, hzero, hl⟩ := b.setOwner_ok hi h
    exact .inr ⟨by simpa using hsigner, hc.owned, hzero, hl⟩

theorem assign_ok (h : (assign b address owner signers).run a = .ok () a') :
    Leaves a a' (b.updated a { b.fields a with owner := owner }) := by
  obtain ⟨rfl, howner⟩ | ⟨-, -, -, hl⟩ := assign_cases hi h
  · rw [show { b.fields a' with owner := owner } = b.fields a' by rw [← howner], updated_self]
    exact .refl a'
  · exact hl

theorem allocateAndAssign_ok (h : (allocateAndAssign env b address space owner signers).run a = .ok () a') :
    address.isSigner signers = true ∧ (b.fields a).data = [] ∧ (b.fields a).owner = SYSTEM_PROGRAM_ID ∧
      Leaves a a' (b.updated a { b.fields a with data := replicate space.toNat 0, owner := owner }) := by
  obtain ⟨_, a1, halloc, hassign⟩ := bind_inv h
  obtain ⟨hsigner, hdata, howner, hl1⟩ := allocate_ok hi halloc
  have hl := hl1.trans (assign_ok (hl1.len ▸ hi) hassign)
  simp only [updated, fields, hl1.fields, update_self, update_idem] at hl
  exact ⟨hsigner, hdata, howner, hl⟩

theorem allocate_affects (hsigned : address.isSigner signers = true → Signed env signers (b.getKey a))
    (h : (allocate env b address space signers).run a = .ok () a') : Affects env signers i b a a' := by
  obtain ⟨hsigner, hdata, howner, hl⟩ := allocate_ok hi h
  exact ⟨_, hl, .create (hsigned hsigner) howner hdata (UInt64.le_refl _) space.toNat (b.fields a).owner, rfl⟩

theorem allocateAndAssign_affects (hsigned : address.isSigner signers = true → Signed env signers (b.getKey a))
    (h : (allocateAndAssign env b address space owner signers).run a = .ok () a') :
    Affects env signers i b a a' := by
  obtain ⟨hsigner, hdata, howner, hl⟩ := allocateAndAssign_ok hi h
  exact ⟨_, hl, .create (hsigned hsigner) howner hdata (UInt64.le_refl _) space.toNat owner, rfl⟩

include hprogram

theorem assign_affects (hsigned : address.isSigner signers = true → Signed env signers (b.getKey a))
    (h : (assign b address owner signers).run a = .ok () a') : Affects env signers i b a a' := by
  obtain ⟨rfl, -⟩ | ⟨hsigner, howned, hzero, hl⟩ := assign_cases hi h
  · exact ⟨_, b.updated_self ▸ .refl a', .same, rfl⟩
  · exact ⟨_, hl, .assign (hsigned hsigner) (b.owner_of_owned hprogram howned) hzero owner, rfl⟩

theorem setVersions_ok (h : (setVersions env b versions).run a = .ok () a') :
    (b.fields a).owner = SYSTEM_PROGRAM_ID ∧ (env.nonces.serialize versions).length ≤ (b.fields a).data.length ∧
      Leaves a a' (b.updated a (withVersions env.nonces (b.fields a) versions)) := by
  obtain ⟨hc, hfits, hl⟩ := b.writeRange_ok hi h
  exact ⟨b.owner_of_owned hprogram hc.owned, by simpa using hfits, hl⟩

theorem advanceNonceAccount_affects (h : (advanceNonceAccount env b signers).run a = .ok () a') :
    Affects env signers .AdvanceNonceAccount b a a' := by
  obtain ⟨-, h⟩ := throwIf_inv h
  obtain ⟨versions, hversions, h⟩ := read_inv h
  cases hstate : versions.state with
  | Uninitialized =>
    rw [hstate] at h
    cases h
  | Initialized data =>
    rw [hstate] at h
    obtain ⟨hsigned, h⟩ := throwIf_inv h
    obtain ⟨hnonce, h⟩ := throwIf_inv h
    obtain ⟨howner, hfits, hl⟩ := setVersions_ok hi hprogram h
    exact ⟨_, hl, .advance howner (getVersions_ok hversions) hstate (not_not.mp hsigned) hnonce hfits, rfl⟩

theorem initNonceAccount_affects (hrent : env.getRent = .ok minimumBalance)
    (h : (initNonceAccount env b authority minimumBalance).run a = .ok () a') :
    Affects env signers (.InitializeNonceAccount authority) b a a' := by
  obtain ⟨-, h⟩ := throwIf_inv h
  obtain ⟨versions, hversions, h⟩ := read_inv h
  cases hstate : versions.state with
  | Uninitialized =>
    rw [hstate] at h
    obtain ⟨hfunded, h⟩ := throwIf_inv h
    obtain ⟨howner, hfits, hl⟩ := setVersions_ok hi hprogram h
    exact ⟨_, hl, .init howner (getVersions_ok hversions) hstate hrent (UInt64.not_lt.mp hfunded) hfits, rfl⟩
  | Initialized data =>
    rw [hstate] at h
    cases h

theorem authorizeNonceAccount_affects (h : (authorizeNonceAccount env b authority signers).run a = .ok () a') :
    Affects env signers (.AuthorizeNonceAccount authority) b a a' := by
  obtain ⟨-, h⟩ := throwIf_inv h
  obtain ⟨versions, hversions, h⟩ := read_inv h
  cases hauth : env.nonces.authorize versions signers authority with
  | ok versions' =>
    rw [hauth] at h
    obtain ⟨howner, hfits, hl⟩ := setVersions_ok hi hprogram h
    exact ⟨_, hl, .authorize howner (getVersions_ok hversions) hauth hfits, rfl⟩
  | error e =>
    rw [hauth] at h
    cases e <;> cases h

theorem upgradeNonceAccount_affects (h : (upgradeNonceAccount env b).run a = .ok () a') :
    Affects env signers .UpgradeNonceAccount b a a' := by
  obtain ⟨-, h⟩ := throwIf_inv h
  obtain ⟨-, h⟩ := throwIf_inv h
  obtain ⟨versions, hversions, h⟩ := ofExcept_inv h
  cases hup : env.nonces.upgrade versions with
  | none =>
    rw [hup] at h
    cases h
  | some versions' =>
    rw [hup] at h
    obtain ⟨howner, hfits, hl⟩ := setVersions_ok hi hprogram h
    exact ⟨_, hl, .upgrade howner (getVersions_ok hversions) hup hfits, rfl⟩

/-- What a withdrawal writes before it debits the account: with the signature that it asks
for, any balance that leaves enough is an effect. -/
theorem prepareWithdrawal_ok (hrent : env.getRent = .ok minimumBalance)
    (h : (prepareWithdrawal env b lamports minimumBalance).run a = .ok signer a') :
    ∃ f, Leaves a a' (b.updated a f) ∧ f.lamports = (b.fields a).lamports ∧ f.owner = (b.fields a).owner ∧
      (signer ∈ signers → ∀ rest, f.lamports - lamports ≤ rest → f.owner = SYSTEM_PROGRAM_ID ∨ f.lamports ≤ rest →
        Effect env signers (b.getKey a) (.WithdrawNonceAccount lamports) (b.fields a) { f with lamports := rest }) := by
  obtain ⟨versions, hversions, h⟩ := ofExcept_inv h
  have hdata := getVersions_ok hversions
  cases hstate : versions.state with
  | Uninitialized =>
    rw [hstate] at h
    obtain ⟨-, h⟩ := throwIf_inv h
    cases h
    exact ⟨_, b.updated_self ▸ .refl a, rfl, rfl, fun hsigned rest _ howner =>
      .withdrawUninitialized hdata hstate hsigned howner⟩
  | Initialized data =>
    rw [hstate] at h
    split_ifs at h with hall
    · obtain ⟨hnonce, h⟩ := throwIf_inv h
      obtain ⟨_, a1, hset, h⟩ := bind_inv h
      cases h
      obtain ⟨howner, hfits, hl⟩ := setVersions_ok hi hprogram hset
      subst hall
      exact ⟨_, hl, rfl, rfl, fun hsigned rest _ _ => .withdrawAll howner hdata hstate hsigned hnonce hfits⟩
    · obtain ⟨hleft, h⟩ := throwIf_inv h
      cases h
      refine ⟨_, b.updated_self ▸ .refl a, rfl, rfl, fun hsigned rest hrest howner =>
        .withdrawPart hdata hstate hsigned hrent (UInt64.le_trans ?_ hrest) howner⟩
      cases hsum : U64.checkedAdd lamports (minimumBalance (b.getData a).length) with
      | none => simp [hsum] at hleft
      | some amount =>
        have hamount := U64.checkedAdd_eq_some.mp hsum
        have hle : amount ≤ b.getLamports a := by simpa [hsum] using hleft
        have hle := UInt64.le_iff_toNat_le.mp hle
        have hcovered : lamports ≤ (b.fields a).lamports :=
          UInt64.le_iff_toNat_le.mpr (show lamports.toNat ≤ (b.getLamports a).toNat by omega)
        refine UInt64.le_iff_toNat_le.mpr ?_
        rw [UInt64.toNat_sub_of_le _ _ hcovered]
        show (minimumBalance (b.getData a).length).toNat ≤ (b.getLamports a).toNat - lamports.toNat
        omega

end Borrowed

/-! ## Outcomes -/

/-- The instruction `i` has its effect at every address, and the lamports are only moved. -/
structure Outcome (env : Environment) (signers : List Pubkey) (i : SystemInstruction) (a a' : TransactionAccounts) :
    Prop where
  leaves : Leaves a a' a'.fieldsAt
  effect (j : UInt16) : Effect env signers (a.view j).key i (a.fieldsAt j) (a'.fieldsAt j)
  lamports : lamportsBelow (reach a) a'.fieldsAt = lamportsBelow (reach a) a.fieldsAt

/-- The outcome of a scope that has its effect on the account it borrows. -/
theorem Outcome.of_withBorrowed
    (h : (withBorrowed ic rent index body).run a = .ok () a') (hbody : ∀ ia a1, Borrows ic a index ia →
      (body (ic.borrowed rent ia)).run (a.takeBorrow ia) = .ok () a1 →
      Affects env signers i (ic.borrowed rent ia) (a.takeBorrow ia) a1) : Outcome env signers i a a' := by
  obtain ⟨ia, a1, hia, hrun, hleaves⟩ := withBorrowed_ok h
  obtain ⟨f, hl, heffect, hlamports⟩ := hbody ia a1 hia hrun
  replace hl := hleaves _ hl
  simp only [updated, fields, getKey, account, fieldsAt_takeBorrow, view_takeBorrow,
    borrowed_getIndexInTransaction] at hl heffect hlamports
  refine ⟨⟨hl.len, hl.key, hl.counter, rfl, hl.beyond⟩, fun j => ?_, ?_⟩
  · rw [hl.fields]
    by_cases hj : j = ia
    · subst hj
      rw [update_self]
      exact heffect
    · rw [update_of_ne hj]
      exact .same
  · rw [hl.fields, lamportsBelow_update_same hia.inRange hlamports]

/-! ## Scopes -/

section Scopes

/-- The key of the account that is borrowed under an index. -/
theorem getKey_borrowed (hia : Borrows ic a index ia) (hkey : ic.getKeyOfInstructionAccount a index = .ok key) :
    (ic.borrowed rent ia).getKey (a.takeBorrow ia) = key := by
  rw [getKey, account, view_takeBorrow]
  exact hia.named.key_of_getKey hkey

/-- The second half of a payment. -/
theorem paid_of_credit (hcovered : lamports ≤ (m s).lamports)
    (hl1 : Leaves a a1 (update m s { m s with lamports := (m s).lamports - lamports }))
    (h : (withBorrowed ic rent target fun target => target.checkedAddLamports lamports).run a1 = .ok () a') :
    ∃ t, Named ic a target t ∧ Paid s t lamports m a'.fieldsAt ∧ Leaves a a' a'.fieldsAt := by
  obtain ⟨t, a2, ht, hrun, hleaves⟩ := withBorrowed_ok h
  obtain ⟨l, hl, hadd⟩ := checkedAddLamports_ok ht.borrowed_inRange hrun
  have hl2 := hl1.trans (hleaves _ hadd)
  simp only [updated, fields, hl1.fields, fieldsAt_takeBorrow] at hl hl2
  exact ⟨t, ht.named.congr hl1.len.symm, ⟨hcovered, l, hl, hl2.fields⟩, hl2.len, hl2.key, hl2.counter, rfl,
    hl2.beyond⟩

/-- The program of an account that the instruction has borrowed. -/
theorem program_takeBorrow (hprogram : ic.Runs a SYSTEM_PROGRAM_ID)
    (ia : InstructionAccount) : (a.takeBorrow ia).accountKey
      (ic.borrowed rent ia).indexInTransactionOfInstructionProgram = some SYSTEM_PROGRAM_ID := by
  rw [accountKey_takeBorrow]
  exact hprogram

theorem checkedSubLamports_owned {b : BorrowedInstructionAccount} (hi : b.getIndexInTransaction.toNat < a.len)
    (hprogram : a.accountKey b.indexInTransactionOfInstructionProgram = some SYSTEM_PROGRAM_ID)
    (h : (b.checkedSubLamports lamports).run a = .ok () a') :
    (b.fields a).owner = SYSTEM_PROGRAM_ID ∨ (b.fields a).lamports ≤ (b.fields a).lamports - lamports := by
  simp only [checkedSubLamports, EStateM.run_bind, EStateM.run_get, run_ite, EStateM.run_throw] at h
  split_ifs at h with hle
  exact (b.setLamports_ok hi h).1.imp_left (b.owner_of_owned hprogram)

/-- The system program takes lamports only from an account it owns. -/
def MayDebit (ic : InstructionContext) (a : TransactionAccounts) (f : AccountFields) (lamports : UInt64) : Prop :=
  ic.Runs a SYSTEM_PROGRAM_ID → f.owner = SYSTEM_PROGRAM_ID ∨ f.lamports ≤ f.lamports - lamports

/-- The account at `source` has no data, and pays the one at `target`. -/
structure Pays (ic : InstructionContext) (source target : UInt16) (lamports : UInt64) (a a' : TransactionAccounts)
    (s t : InstructionAccount) : Prop where
  source : Named ic a source s
  target : Named ic a target t
  empty : (a.fieldsAt s).data = []
  debit : MayDebit ic a (a.fieldsAt s) lamports
  paid : Paid s t lamports a.fieldsAt a'.fieldsAt
  leaves : Leaves a a' a'.fieldsAt

theorem transferVerified_ok (h : (transferVerified env ic rent source target lamports).run a = .ok () a') :
    ∃ s t, Pays ic source target lamports a a' s t := by
  obtain ⟨_, a1, hdebit, hcredit⟩ := bind_inv h
  obtain ⟨s, a2, hs, hrun, hleaves⟩ := withBorrowed_ok hdebit
  obtain ⟨hdata, hrun⟩ := throwIf_inv hrun
  obtain ⟨-, hrun⟩ := throwIf_inv hrun
  have howned : MayDebit ic a _ lamports := fun hprogram =>
    checkedSubLamports_owned hs.borrowed_inRange (program_takeBorrow hprogram s) hrun
  obtain ⟨hcovered, hsub⟩ := checkedSubLamports_ok hs.borrowed_inRange hrun
  have hempty : ((a.takeBorrow s).fieldsAt s).data = [] := not_not.mp hdata
  have hl1 := hleaves _ hsub
  simp only [updated, fields, fieldsAt_takeBorrow]
    at hl1 hcovered howned hempty
  obtain ⟨t, ht, hpaid, hl⟩ := paid_of_credit hcovered hl1 hcredit
  exact ⟨s, t, hs.named, ht, hempty, howned, hpaid, hl⟩

theorem transfer_ok (h : (transfer env ic rent source target lamports).run a = .ok () a') :
    ∃ s t, Pays ic source target lamports a a' s t ∧ (a.view s).key ∈ ic.signers a := by
  obtain ⟨isSigner, hisSigner, h⟩ := ofExcept_inv h
  obtain ⟨hsigner, h⟩ := throwIf_inv h
  obtain ⟨s, t, hpays⟩ := transferVerified_ok h
  obtain rfl : isSigner = true := by simpa using hsigner
  exact ⟨s, t, hpays, signed_of_key hpays.source.getKey_eq hisSigner⟩

theorem transferWithSeed_ok {base : UInt16}
    (h : (transferWithSeed env ic rent source base seed owner target lamports).run a = .ok () a') :
    ∃ s t, Pays ic source target lamports a a' s t ∧ Signed env (ic.signers a) (a.view s).key := by
  obtain ⟨isSigner, hisSigner, h⟩ := ofExcept_inv h
  obtain ⟨hsigner, h⟩ := throwIf_inv h
  obtain ⟨baseKey, hbase, h⟩ := read_inv h
  obtain ⟨derived, hderived, h⟩ := ofExcept_inv h
  obtain ⟨key, hkey, h⟩ := read_inv h
  obtain ⟨hmatch, h⟩ := throwIf_inv h
  obtain ⟨s, t, hpays⟩ := transferVerified_ok h
  obtain rfl : isSigner = true := by simpa using hsigner
  obtain rfl : key = derived := not_not.mp hmatch
  refine ⟨s, t, hpays, .inr ⟨baseKey, seed, owner, signed_of_key hbase hisSigner, ?_⟩⟩
  rw [hpays.source.key_of_getKey hkey]
  exact hderived

/-- A payment from an account without data that is signed for. -/
theorem Outcome.of_pays (hprogram : ic.Runs a SYSTEM_PROGRAM_ID) (hpays : Pays ic source target lamports a a' s t)
    (hsigned : Signed env signers (a.view s).key) : Outcome env signers i a a' := by
  refine ⟨hpays.leaves, fun j => ?_, hpays.paid.lamportsBelow_eq hpays.source.inRange hpays.target.inRange⟩
  obtain h | ⟨rfl, -, h⟩ | ⟨rfl, l, hle, h⟩ := hpays.paid.cases j
  · rw [h]
    exact .same
  · rw [h]
    exact .pay hsigned hpays.empty (hpays.debit hprogram)
  · rw [h]
    exact .credit hle

/-- The account at `t` is created, and the one at `source` pays for it. -/
theorem Outcome.of_create (hprogram : ic.Runs a SYSTEM_PROGRAM_ID) (ht : Named ic a target t)
    (hsigned : Signed env (ic.signers a) (a.view t).key)
    (howner : (a.fieldsAt t).owner = SYSTEM_PROGRAM_ID) (hdata : (a.fieldsAt t).data = [])
    (hl1 : Leaves a a1 (update a.fieldsAt t { a.fieldsAt t with data := replicate space 0, owner := owner }))
    (h : (transfer env ic rent source target lamports).run a1 = .ok () a') : Outcome env (ic.signers a) i a a' := by
  obtain ⟨s, t', ⟨hs, ht', hempty, howned, hpaid, hl⟩, hsigner⟩ := transfer_ok h
  obtain rfl := ht.unique ht'
  replace howned := howned ((hl1.accountKey _).trans hprogram)
  rw [hl1.signers, hl1.key] at hsigner
  rw [hl1.fields] at hempty hpaid howned
  refine ⟨hl1.trans hl, fun j => ?_, ?_⟩
  · by_cases hj : j = t'
    · -- The new account, which may be the one that pays if it has no data.
      subst hj
      obtain h | ⟨-, hne, -⟩ | ⟨-, l, hle, h⟩ := hpaid.cases t'
      · rw [h, update_self]
        exact .create hsigned howner hdata (UInt64.le_refl _) space owner
      · exact absurd rfl hne
      · rw [update_self] at hle h
        rw [h]
        exact .create hsigned howner hdata hle space owner
    · obtain h | ⟨rfl, -, h⟩ | ⟨heq, -⟩ := hpaid.cases j
      · rw [h, update_of_ne hj]
        exact .same
      · rw [update_of_ne hj] at h hempty howned
        rw [h]
        exact .pay (.inl hsigner) hempty howned
      · exact absurd heq hj
  · rw [hpaid.lamportsBelow_eq (hl1.len ▸ hs.inRange) ht.inRange]
    exact lamportsBelow_update_same ht.inRange rfl

end Scopes

/-! ## The processor -/

section Processor

variable (hprogram : ic.Runs a SYSTEM_PROGRAM_ID) {address : Address}

include hprogram

variable (hkey : ic.getKeyOfInstructionAccount a target = .ok key)

include hkey

omit hprogram in
/-- The account that a scope with `allocate_and_assign` has borrowed. -/
theorem allocated_ok (haddress : create env key withSeed = .ok address)
    (h : (withBorrowed ic rent target body).run a = .ok () a') (hbody : ∀ b a a', (body b).run a = .ok () a' →
      (allocateAndAssign env b address space owner signers).run a = .ok () a') :
    ∃ t, Named ic a target t ∧ Signed env signers (a.view t).key ∧
      (a.fieldsAt t).owner = SYSTEM_PROGRAM_ID ∧ (a.fieldsAt t).data = [] ∧ Leaves a a' (update a.fieldsAt t
        { a.fieldsAt t with data := replicate space.toNat 0, owner := owner }) := by
  obtain ⟨t, a1, ht, hrun, hleaves⟩ := withBorrowed_ok h
  obtain ⟨hsigner, hdata, howner, hl⟩ := allocateAndAssign_ok ht.borrowed_inRange (hbody _ _ _ hrun)
  replace hl := hleaves _ hl
  simp only [updated, fields, fieldsAt_takeBorrow] at hl hdata howner
  refine ⟨t, ht.named, ?_, howner, hdata, hl⟩
  rw [ht.named.key_of_getKey hkey]
  exact create_signed haddress hsigner

theorem createAccount_outcome (haddress : create env key withSeed = .ok address)
    (h : (createAccount env ic rent source target address lamports space owner (ic.signers a)).run a = .ok () a') :
    Outcome env (ic.signers a) i a a' := by
  obtain ⟨_, a1, hcreate, htransfer⟩ := bind_inv h
  obtain ⟨t, ht, hsigned, howner, hdata, hl⟩ := allocated_ok hkey haddress hcreate fun b a a' hrun => by
    exact (throwIf_inv hrun).2
  exact .of_create hprogram ht hsigned howner hdata hl htransfer

theorem createAccountAllowPrefund_outcome {source : Option (UInt16 × UInt64)} (haddress : create env key none = .ok address)
    (h : (createAccountAllowPrefund env ic rent target address source space owner (ic.signers a)).run a = .ok () a') :
    Outcome env (ic.signers a) i a a' := by
  obtain ⟨_, a1, hcreate, h⟩ := bind_inv h
  have hcreated : Outcome env (ic.signers a) i a a1 := by
    refine .of_withBorrowed hcreate fun ia a2 hia hrun => ?_
    refine allocateAndAssign_affects hia.borrowed_inRange (fun hs => ?_) hrun
    rw [getKey_borrowed hia hkey]
    exact create_signed haddress hs
  cases source with
  | none =>
    cases h
    exact hcreated
  | some source =>
    simp only [run_ite] at h
    split_ifs at h
    · obtain ⟨t, ht, hsigned, howner, hdata, hl⟩ := allocated_ok hkey haddress hcreate fun _ _ _ hrun => hrun
      exact .of_create hprogram ht hsigned howner hdata hl h
    · cases h
      exact hcreated

omit hkey

/-- A scope that checks the address of the account it borrows. -/
theorem withAddressed_outcome (h : (withAddressed env ic rent withSeed body).run a = .ok () a')
    (hbody : ∀ b address a a', b.getIndexInTransaction.toNat < a.len →
      a.accountKey b.indexInTransactionOfInstructionProgram = some SYSTEM_PROGRAM_ID →
      (address.isSigner signers = true → Signed env signers (b.getKey a)) →
      (body b address).run a = .ok () a' → Affects env signers i b a a') : Outcome env signers i a a' := by
  obtain ⟨_, -, h⟩ := ofExcept_inv h
  refine .of_withBorrowed h fun ia a2 hia hrun => ?_
  obtain ⟨key, hkey, hrun⟩ := read_inv hrun
  obtain ⟨address, haddress, hrun⟩ := ofExcept_inv hrun
  refine hbody _ address _ _ hia.borrowed_inRange (program_takeBorrow hprogram ia) (fun hs => ?_) hrun
  rw [getKeyOfInstructionAccount_takeBorrow] at hkey
  rw [getKey_borrowed hia hkey]
  exact create_signed haddress hs

theorem withdrawNonceAccount_outcome (hrent : env.getRent = .ok minimumBalance)
    (h : (withdrawNonceAccount env ic rent source lamports target minimumBalance signers).run a = .ok () a') :
    Outcome env signers (.WithdrawNonceAccount lamports) a a' := by
  obtain ⟨_, a1, hdebit, hcredit⟩ := bind_inv h
  obtain ⟨s, a2, hs, hrun, hleaves⟩ := withBorrowed_ok hdebit
  obtain ⟨-, hrun⟩ := throwIf_inv hrun
  obtain ⟨signer, a3, hprepare, hrun⟩ := bind_inv hrun
  obtain ⟨hsigner, hrun⟩ := throwIf_inv hrun
  obtain ⟨f, hl3, hlamports, howner, heffect⟩ := prepareWithdrawal_ok hs.borrowed_inRange
    (program_takeBorrow hprogram s) hrent hprepare
  have hrange : (ic.borrowed rent s).getIndexInTransaction.toNat < a3.len := hl3.len ▸ hs.borrowed_inRange
  have howned := checkedSubLamports_owned hrange ((hl3.accountKey _).trans (program_takeBorrow hprogram s)) hrun
  obtain ⟨hcovered, hsub⟩ := checkedSubLamports_ok hrange hrun
  have hl1 := hleaves _ (hl3.trans hsub)
  replace heffect := heffect (not_not.mp hsigner)
  simp only [updated, fields, getKey, account, hl3.fields, fieldsAt_takeBorrow, view_takeBorrow,
    borrowed_getIndexInTransaction]
    at hl1 hcovered howned heffect hlamports howner
  obtain ⟨t, ht, hpaid, hl⟩ := paid_of_credit hcovered hl1 hcredit
  refine ⟨hl, fun j => ?_, ?_⟩
  · by_cases hj : j = s
    · subst hj
      rw [update_self] at howned
      obtain h | ⟨-, -, h⟩ | ⟨-, l, hle, h⟩ := hpaid.cases s
      · rw [h, update_self]
        exact heffect f.lamports (UInt64.sub_le (by simpa using hcovered)) (.inr (UInt64.le_refl _))
      · rw [h, update_self]
        exact heffect _ (UInt64.le_refl _) howned
      · rw [update_self] at h hle
        rw [h]
        exact heffect l (UInt64.le_trans (UInt64.sub_le (by simpa using hcovered)) hle) (.inr hle)
    · obtain h | ⟨heq, -⟩ | ⟨-, l, hle, h⟩ := hpaid.cases j
      · rw [h, update_of_ne hj]
        exact .same
      · exact absurd heq hj
      · rw [update_of_ne hj] at h hle
        rw [h]
        exact .credit hle
  · rw [hpaid.lamportsBelow_eq hs.inRange ht.inRange, lamportsBelow_update_same hs.inRange hlamports]

omit hprogram in
theorem rentWithAccountCheck_ok
    (h : rentWithAccountCheck env ic index a = .ok minimumBalance) : env.getRent = .ok minimumBalance := by
  obtain ⟨_, -, h⟩ := except_inv h
  exact h

theorem processWithdrawNonceAccount_outcome
    (h : (processWithdrawNonceAccount env ic rent lamports signers).run a = .ok () a') :
    Outcome env signers (.WithdrawNonceAccount lamports) a a' := by
  obtain ⟨_, -, h⟩ := ofExcept_inv h
  obtain ⟨_, -, h⟩ := read_inv h
  obtain ⟨_, -, h⟩ := ofExcept_inv h
  obtain ⟨_, hrent, h⟩ := read_inv h
  exact withdrawNonceAccount_outcome hprogram (rentWithAccountCheck_ok hrent) h

theorem processCreateAccount_outcome
    (h : (processCreateAccount env ic rent withSeed lamports space owner (ic.signers a)).run a = .ok () a') :
    Outcome env (ic.signers a) i a a' := by
  obtain ⟨_, -, h⟩ := ofExcept_inv h
  obtain ⟨key, hkey, h⟩ := read_inv h
  obtain ⟨address, haddress, h⟩ := ofExcept_inv h
  exact createAccount_outcome hprogram hkey haddress h

theorem processCreateAccountAllowPrefund_outcome
    (h : (processCreateAccountAllowPrefund env ic rent lamports space owner (ic.signers a)).run a = .ok () a') :
    Outcome env (ic.signers a) i a a' := by
  obtain ⟨-, h⟩ := throwIf_inv h
  obtain ⟨_, -, h⟩ := ofExcept_inv h
  obtain ⟨key, hkey, h⟩ := read_inv h
  obtain ⟨address, haddress, h⟩ := ofExcept_inv h
  exact createAccountAllowPrefund_outcome hprogram hkey haddress h

theorem processSigned_outcome (h : (processSigned env ic rent (ic.signers a) i).run a = .ok () a') :
    Outcome env (ic.signers a) i a a' := by
  cases i with
  | CreateAccount lamports space owner | CreateAccountWithSeed base seed lamports space owner =>
    exact processCreateAccount_outcome hprogram h
  | Assign owner =>
    exact withAddressed_outcome hprogram h fun b address a a' hi hp hs hrun => assign_affects hi hp hs hrun
  | Transfer lamports =>
    obtain ⟨_, -, h⟩ := ofExcept_inv h
    obtain ⟨s, t, hpays, hsigner⟩ := transfer_ok h
    exact .of_pays hprogram hpays (.inl hsigner)
  | TransferWithSeed lamports seed owner =>
    obtain ⟨_, -, h⟩ := ofExcept_inv h
    obtain ⟨s, t, hpays, hsigned⟩ := transferWithSeed_ok h
    exact .of_pays hprogram hpays hsigned
  | AdvanceNonceAccount =>
    obtain ⟨_, -, h⟩ := ofExcept_inv h
    refine .of_withBorrowed h fun ia a2 hia hrun => ?_
    obtain ⟨_, -, hrun⟩ := read_inv hrun
    exact advanceNonceAccount_affects hia.borrowed_inRange (program_takeBorrow hprogram ia) hrun
  | WithdrawNonceAccount lamports => exact processWithdrawNonceAccount_outcome hprogram h
  | InitializeNonceAccount authority =>
    obtain ⟨_, -, h⟩ := ofExcept_inv h
    refine .of_withBorrowed h fun ia a2 hia hrun => ?_
    obtain ⟨_, -, hrun⟩ := read_inv hrun
    obtain ⟨_, hrent, hrun⟩ := read_inv hrun
    exact initNonceAccount_affects hia.borrowed_inRange (program_takeBorrow hprogram ia)
      (rentWithAccountCheck_ok hrent) hrun
  | AuthorizeNonceAccount authority =>
    obtain ⟨_, -, h⟩ := ofExcept_inv h
    exact .of_withBorrowed h fun ia a2 hia hrun =>
      authorizeNonceAccount_affects hia.borrowed_inRange (program_takeBorrow hprogram ia) hrun
  | UpgradeNonceAccount =>
    obtain ⟨_, -, h⟩ := ofExcept_inv h
    exact .of_withBorrowed h fun ia a2 hia hrun =>
      upgradeNonceAccount_affects hia.borrowed_inRange (program_takeBorrow hprogram ia) hrun
  | Allocate space =>
    exact withAddressed_outcome hprogram h fun b address a a' hi _ hs hrun => allocate_affects hi hs hrun
  | AllocateWithSeed base seed space owner =>
    exact withAddressed_outcome hprogram h fun b address a a' hi _ hs hrun => allocateAndAssign_affects hi hs hrun
  | AssignWithSeed base seed owner =>
    exact withAddressed_outcome hprogram h fun b address a a' hi hp hs hrun => assign_affects hi hp hs hrun
  | CreateAccountAllowPrefund lamports space owner => exact processCreateAccountAllowPrefund_outcome hprogram h

/-- What an instruction of the system program did at every address. -/
theorem processInstruction_outcome (h : (processInstruction env ic rent i).run a = .ok () a') :
    Outcome env (ic.signers a) i a a' := by
  obtain ⟨signers, hsigners, h⟩ := ofExcept_inv h
  obtain rfl := getSigners_ok hsigners
  exact processSigned_outcome hprogram h

end Processor

/-! ## Elementary changes -/

theorem Effect.changes (h : Effect env signers key i f f') :
    Relation.ReflTransGen (Change env signers key) f f' := by
  cases h with
  | same => exact .refl
  | credit hle => exact .single (.lamports _ (.inr hle))
  | pay _ _ howner => exact .single (.lamports _ howner)
  | create hsigned howner hdata hle space owner =>
    have hassign := Change.assign (f := { f with data := replicate space 0 }) hsigned howner
      (fun byte hbyte => eq_of_mem_replicate hbyte) owner
    exact .head (.allocate hsigned howner hdata space) (.head hassign (.single (.lamports _ (.inr hle))))
  | assign hsigned howner hdata owner => exact .single (.assign hsigned howner hdata owner)
  | advance howner hdata hstate _ hnonce hfits => exact .single (.nonce howner hdata (.advance hstate hnonce) hfits)
  | withdrawUninitialized _ _ _ howner | withdrawPart _ _ _ _ _ howner => exact .single (.lamports _ howner)
  | withdrawAll howner hdata hstate _ hnonce hfits =>
    exact .head (.nonce howner hdata (.withdraw hstate hnonce) hfits) (.single (.lamports _ (.inl howner)))
  | init howner hdata hstate _ _ hfits => exact .single (.nonce howner hdata (.init hstate _) hfits)
  | authorize howner hdata hauth hfits => exact .single (.nonce howner hdata (.authorize hauth) hfits)
  | upgrade howner hdata hup hfits => exact .single (.nonce howner hdata (.upgrade hup) hfits)

/-- At every address an instruction of the system program takes elementary changes. -/
theorem processInstruction_changes (hprogram : ic.Runs a SYSTEM_PROGRAM_ID)
    (h : (processInstruction env ic rent i).run a = .ok () a') (j) :
    Relation.ReflTransGen (Change env (ic.signers a) (a.view j).key) (a.fieldsAt j) (a'.fieldsAt j) :=
  ((processInstruction_outcome hprogram h).effect j).changes

/-! ## Creating and funding an account -/

/-- The second account did not exist; it gets the lamports, the space and the owner,
and the first account, which has no data, pays. -/
theorem processInstruction_createAccount (hspace : space ≠ 0)
    (h : (processInstruction env ic rent (.CreateAccount lamports space owner)).run a = .ok () a') :
    ∃ s t l, Named ic a 0 s ∧ Named ic a 1 t ∧ (s : UInt16) ≠ t ∧
      (a.fieldsAt s).data = [] ∧ (a.fieldsAt t).lamports = 0 ∧
      (a.fieldsAt t).data = [] ∧ (a.fieldsAt t).owner = SYSTEM_PROGRAM_ID ∧
      Leaves a a' (update (update a.fieldsAt t { a.fieldsAt t with
            lamports := lamports, data := replicate space.toNat 0, owner := owner })
        s { a.fieldsAt s with lamports := l }) := by
  rw [processInstruction, run_get_bind] at h
  obtain ⟨signers, -, h⟩ := ofExcept_inv h
  obtain ⟨_, -, h⟩ := ofExcept_inv h
  obtain ⟨key, -, h⟩ := read_inv h
  obtain ⟨address, -, h⟩ := ofExcept_inv h
  obtain ⟨_, a1, hcreate, htransfer⟩ := bind_inv h
  obtain ⟨t, a2, ht, hrun, hleaves⟩ := withBorrowed_ok hcreate
  obtain ⟨hlamports, hrun⟩ := throwIf_inv hrun
  obtain ⟨-, hdata, howner, hl2⟩ := allocateAndAssign_ok ht.borrowed_inRange hrun
  have hl1 := hleaves _ hl2
  have hzero : ((a.takeBorrow t).fieldsAt t).lamports = 0 :=
    UInt64.le_zero_iff.mp (UInt64.not_lt.mp hlamports)
  simp only [updated, fields, fieldsAt_takeBorrow, borrowed_getIndexInTransaction]
    at hl1 hdata howner hzero
  obtain ⟨s, t', ⟨hs, ht', hempty, -, hpaid, hl⟩, -⟩ := transfer_ok htransfer
  obtain rfl := ht.named.unique ht'
  rw [hl1.fields] at hempty hpaid
  -- The new account has data, so it is not the one that pays.
  have hne : (s : UInt16) ≠ t' := by
    intro heq
    rw [heq] at hempty
    exact hspace (UInt64.toNat_inj.mp (by simpa using hempty))
  rw [update_of_ne hne] at hempty
  obtain ⟨l, hsum, hfields⟩ := hpaid.fields
  rw [update_of_ne hne.symm, hzero] at hsum
  obtain rfl : l = lamports := UInt64.toNat_inj.mp (by simpa using hsum)
  rw [update_of_ne hne.symm, update_self, update_of_ne hne, update_comm hne, update_idem] at hfields
  exact ⟨s, t', _, hs.congr hl1.len.symm, ht.named, hne, hempty, hzero, hdata, howner, hfields ▸ hl1.trans hl⟩

theorem processInstruction_transfer (h : (processInstruction env ic rent (.Transfer lamports)).run a = .ok () a') :
    ∃ s t l l', Named ic a 0 s ∧ Named ic a 1 t ∧ (a.fieldsAt s).data = [] ∧
      let m := update a.fieldsAt s
        { a.fieldsAt s with lamports := l }
      l'.toNat = (m t).lamports.toNat + lamports.toNat ∧
      Leaves a a' (update m t { m t with lamports := l' }) := by
  obtain ⟨signers, -, h⟩ := ofExcept_inv h
  obtain ⟨_, -, h⟩ := ofExcept_inv h
  obtain ⟨s, t, hpays, -⟩ := transfer_ok h
  obtain ⟨l', hl', hfields⟩ := hpays.paid.fields
  exact ⟨s, t, _, l', hpays.source, hpays.target, hpays.empty, hl', hfields ▸ hpays.leaves⟩

end Svm.System
