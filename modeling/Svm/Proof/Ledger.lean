import Svm.Spec.Ledger
import Svm.Proof.ProgramInput
import Svm.Proof.AccessControl
import Svm.Impl.Programs.Common

/-!
# Programs on the ledger

A native program is followed through the fields of the accounts it reaches:
`Leaves a a' m` says that the accounts went from `a` to `a'`, whose fields are `m`,
and each operation that succeeds leaves the fields with one entry replaced. The
keys and the borrow counters are carried along. `Invocation.each` then says what
an instruction did at every address of the ledger.
-/

namespace Svm

open Machine Run Bytes Ledger InstructionContext EStateM TransactionAccountView Function TransactionAccounts
open List hiding getElem?_eq_some_iff

/-- An instruction account stands for its index in the transaction. -/
instance : Coe InstructionAccount UInt16 := ⟨InstructionAccount.indexInTransaction⟩

/-! ## The fields of the accounts -/

/-- The instruction runs the program with the id. -/
abbrev InstructionContext.Runs (ic : InstructionContext) (a : TransactionAccounts) (id : Pubkey) : Prop :=
  a.accountKey ic.programAccountIndexInTx = some id

/-- The fields of the account at each index. -/
def TransactionAccounts.fieldsAt (a : TransactionAccounts) (i : UInt16) : AccountFields := (a.view i).fields

/-- A quiet step changes no field but the data. -/
theorem Quiet.fieldsAt (h : Quiet a a') (i) :
    a'.fieldsAt i = { a.fieldsAt i with data := (a'.view i).data } := by
  obtain ⟨p, n, e, -⟩ := h.slot i
  simp only [TransactionAccounts.fieldsAt, view, e]
  rfl

/-- From `a` to `a'`, with `m` for the fields; keys, borrows and the accounts that no index
reaches are kept. -/
structure Leaves (a a' : TransactionAccounts) (m : UInt16 → AccountFields) : Prop where
  len : a'.len = a.len
  key (i : UInt16) : (a'.view i).key = (a.view i).key
  counter (i : UInt16) : (a'.slot i).borrowCounter = (a.slot i).borrowCounter
  fields : a'.fieldsAt = m
  beyond : a'.slots.drop (2 ^ 16) = a.slots.drop (2 ^ 16)

namespace Leaves

theorem refl (a) : Leaves a a a.fieldsAt := ⟨rfl, fun _ => rfl, fun _ => rfl, rfl, rfl⟩

theorem trans (h : Leaves a a1 m) (h' : Leaves a1 a' m') : Leaves a a' m' :=
  ⟨h'.len.trans h.len, fun i => (h'.key i).trans (h.key i), fun i => (h'.counter i).trans (h.counter i), h'.fields,
    h'.beyond.trans h.beyond⟩

theorem accountKey (h : Leaves a a' m) (i) : a'.accountKey i = a.accountKey i := by
  rw [accountKey_eq, accountKey_eq, h.len, h.key]

/-- One slot is written. -/
theorem modifySlot (hi : i.toNat < a.len) (hkey : (f (a.slot i)).view.key = (a.view i).key)
    (hcounter : (f (a.slot i)).borrowCounter = (a.slot i).borrowCounter) :
    Leaves a (a.modifySlot i f) (update a.fieldsAt i (f (a.slot i)).view.fields) := by
  refine ⟨len_modifySlot a i f, fun j => ?_, fun j => ?_, funext fun j => ?_, drop_modifySlot ..⟩
  · by_cases hij : i = j
    · subst hij
      rw [view, slot_modifySlot_self a hi, hkey]
    · rw [view_modifySlot_ne a hij]
  · by_cases hij : i = j
    · subst hij
      rw [slot_modifySlot_self a hi, hcounter]
    · rw [slot_modifySlot_ne a hij]
  · by_cases hij : i = j
    · subst hij
      rw [update_self, fieldsAt, view, slot_modifySlot_self a hi]
    · rw [update_of_ne (Ne.symm hij), fieldsAt, view_modifySlot_ne a hij]
      rfl

/-- An account is replaced. -/
theorem put (hi : i.toNat < a.len) (hkey : v.key = (a.view i).key) :
    Leaves a (a.put i v) (update a.fieldsAt i v.fields) := modifySlot hi hkey rfl

/-- The deltas are not fields. -/
theorem put_withLamportsDelta (d : Int) (hi : i.toNat < a.len) (hkey : v.key = (a.view i).key) :
    Leaves a ((a.withLamportsDelta d).put i v) (update a.fieldsAt i v.fields) := { put hi hkey with }

theorem put_addResizeDelta (n n' : Nat) (hi : i.toNat < a.len) (hkey : v.key = (a.view i).key) :
    Leaves a ((a.addResizeDelta n n').put i v) (update a.fieldsAt i v.fields) := { put hi hkey with }

end Leaves

/-! ## Operations that succeed -/

namespace BorrowedInstructionAccount

variable {b : BorrowedInstructionAccount} {a : TransactionAccounts}

/-- The fields of the borrowed account. -/
abbrev fields (b : BorrowedInstructionAccount) (a : TransactionAccounts) : AccountFields :=
  a.fieldsAt b.getIndexInTransaction

/-- The accounts with the borrowed one's fields replaced. -/
abbrev updated (b : BorrowedInstructionAccount) (a : TransactionAccounts) (f : AccountFields) :
    UInt16 → AccountFields := update a.fieldsAt b.getIndexInTransaction f

theorem updated_self : b.updated a (b.fields a) = a.fieldsAt := update_eq_self ..

/-- The bytes after `set_data_length`. -/
def resized (data : List UInt8) (n : Nat) : List UInt8 := data.take n ++ replicate (n - data.length) 0

theorem resized_self (data) : resized data data.length = data := by simp [resized]

@[simp] theorem length_resized (data) (n : Nat) : (resized data n).length = n := by
  simp only [resized, length_append, length_take, length_replicate]
  omega

theorem take_resized {data : List UInt8} (hn : k ≤ n) (hk : k ≤ data.length) :
    (resized data n).take k = data.take k := by
  rw [resized, take_append_of_le_length (by simp only [length_take]; omega), take_take, min_eq_left hn]

variable (hi : b.getIndexInTransaction.toNat < a.len)

include hi

theorem setLamports_ok (h : (b.setLamports l).run a = .ok () a') :
    (b.isOwnedByCurrentProgram a = true ∨ (b.fields a).lamports ≤ l) ∧
      Leaves a a' (b.updated a { b.fields a with lamports := l }) := by
  obtain ⟨e, h'⟩ | ⟨ho, ⟨he, h'⟩ | ⟨-, h'⟩⟩ := run_setLamports hi l <;> cases h'.symm.trans h
  · refine ⟨ho, ?_⟩
    have hsame : { b.fields a with lamports := l } = b.fields a := by rw [← he]; rfl
    rw [hsame, updated_self]
    exact .refl a
  · exact ⟨ho, .put_withLamportsDelta _ hi rfl⟩

theorem checkedAddLamports_ok (h : (b.checkedAddLamports l).run a = .ok () a') :
    ∃ l', l'.toNat = (b.fields a).lamports.toNat + l.toNat ∧
      Leaves a a' (b.updated a { b.fields a with lamports := l' }) := by
  simp only [checkedAddLamports, run_bind, run_get] at h
  cases hl : U64.checkedAdd (b.getLamports a) l with
  | none => rw [hl] at h; cases h
  | some l' =>
    rw [hl] at h
    exact ⟨l', (U64.checkedAdd_eq_some.mp hl).symm, (setLamports_ok hi h).2⟩

theorem checkedSubLamports_ok (h : (b.checkedSubLamports l).run a = .ok () a') : l ≤ (b.fields a).lamports ∧
      Leaves a a' (b.updated a { b.fields a with lamports := (b.fields a).lamports - l }) := by
  simp only [checkedSubLamports, run_bind, run_get, run_ite, run_throw] at h
  split_ifs at h with hl
  exact ⟨hl, (setLamports_ok hi h).2⟩

theorem setDataLength_ok (h : (b.setDataLength n).run a = .ok () a') :
    b.MayChange a ∧ Leaves a a' (b.updated a { b.fields a with data := resized (b.fields a).data n }) := by
  simp only [setDataLength, run_bind, run_get] at h
  cases hr : b.canDataBeResized a n with
  | error e => rw [hr] at h; cases h
  | ok _ =>
    rw [hr] at h
    obtain ⟨-, hc⟩ := (canDataBeResized_ok b a n).mp hr
    refine ⟨hc, ?_⟩
    simp only [run_ofExcept_ok, run_ite, run_bind, run_touch hi, run_updateAccountsResizeDelta,
      run_modifyAccount] at h
    split_ifs at h with hn
    · cases h
      subst hn
      rw [show resized (b.fields a).data (b.getData a).length = (b.fields a).data from resized_self _, updated_self]
      exact .refl a
    · rw [touched_addResizeDelta] at h
      cases h
      exact .put_addResizeDelta _ _ hi rfl

theorem setExecutable_ok (h : (b.setExecutable e).run a = .ok () a') :
    Leaves a a' (b.updated a { b.fields a with executable := e }) := by
  simp only [setExecutable, run_bind, run_get, run_ite, run_throw, run_touch hi, run_modifyAccount,
    touched_modifyView] at h
  split_ifs at h with hr ho hw he
  · cases h
    rw [show { b.fields a with executable := e } = b.fields a by rw [← he]; rfl, updated_self]
    exact .refl a
  · cases h
    exact .put hi rfl

theorem setOwner_ok {owner : Pubkey} (h : (b.setOwner owner).run a = .ok () a') :
    b.MayChange a ∧ (∀ byte ∈ (b.fields a).data, byte = 0) ∧
      Leaves a a' (b.updated a { b.fields a with owner := owner }) := by
  simp only [setOwner, run_bind, run_get, run_ite, run_throw, run_touch hi, run_modifyAccount,
    touched_modifyView] at h
  split_ifs at h with ho hw hz he
  · cases h
    refine ⟨⟨by simpa using hw, by simpa using ho⟩, (isZeroed_iff (b.getData a)).mp (by simpa using hz), ?_⟩
    rw [show { b.fields a with owner := owner } = b.fields a by rw [← he]; rfl, updated_self]
    exact .refl a
  · cases h
    exact ⟨⟨by simpa using hw, by simpa using ho⟩, (isZeroed_iff (b.getData a)).mp (by simpa using hz), .put hi rfl⟩

theorem getDataMut_ok (h : b.getDataMut.run a = .ok () a') : b.MayChange a ∧ Leaves a a' a.fieldsAt := by
  obtain ⟨e, he⟩ | ⟨hc, v, hv, hdata, he⟩ := run_getDataMut hi
  · rw [he] at h; cases h
  · rw [he] at h
    cases h
    refine ⟨hc, ?_⟩
    have hfields : v.fields = b.fields a := by
      have hd : v.data = (b.account a).data := hdata
      rw [hv.eq] at hd ⊢
      rw [TransactionAccountView.fields, hd]
      rfl
    have := Leaves.put (v := v) hi (by rw [hv.eq]; rfl)
    rwa [hfields, update_eq_self] at this

/-- A write through the slice of `get_data_mut`. -/
theorem modifyView_overwrite (start : Nat) (part) :
    Leaves a (a.modifyView b.getIndexInTransaction (·.overwrite start part))
      (b.updated a { b.fields a with data := overwrite (b.fields a).data start part }) :=
  .modifySlot hi rfl rfl

theorem writeRange_ok (h : (b.writeRange start part).run a = .ok () a') :
    b.MayChange a ∧ start + part.length ≤ (b.fields a).data.length ∧
      Leaves a a' (b.updated a { b.fields a with data := overwrite (b.fields a).data start part }) := by
  obtain ⟨_, a1, h1, h⟩ := bind_inv h
  obtain ⟨hc, hl⟩ := getDataMut_ok hi h1
  obtain ⟨_, _, h2, h⟩ := bind_inv h
  cases h2
  have hdata : b.getData a1 = (b.fields a).data :=
    congrArg (fun m => (m b.getIndexInTransaction).data) hl.fields
  have hfields : b.updated a1 { b.fields a1 with data := overwrite (b.fields a1).data start part } =
      b.updated a { b.fields a with data := overwrite (b.fields a).data start part } := by
    simp [updated, fields, hl.fields]
  simp only [run_ite, run_throw] at h
  split_ifs at h with hlen
  cases h
  exact ⟨hc, hdata ▸ hlen, hl.trans (hfields ▸ modifyView_overwrite (hl.len ▸ hi) start part)⟩

omit hi

theorem setDataLength_le (h : (b.setDataLength n).run a = .ok () a') : n ≤ MAX_ACCOUNT_DATA_LEN := by
  obtain ⟨_, hresize, -⟩ := ofExcept_inv h
  have hlimit := ((canDataBeResized_ok b a n).mp hresize).1
  exact ((TransactionAccounts.canDataBeResized_ok a _ _).mp hlimit).1

theorem dropping_ok (h : (b.dropping body).run a = .ok r a') :
    ∃ a1, body.run a = .ok r a1 ∧ a' = a1.releaseBorrowMut b.getIndexInTransaction := by
  obtain ⟨_, a1, h1, h⟩ := bind_inv h
  rw [run_attempt] at h1
  cases h1
  obtain ⟨_, _, h2, h⟩ := bind_inv h
  cases h2
  obtain ⟨hr, rfl⟩ := run_ofExcept_eq_ok.mp h
  exact ⟨_, result_ok.mp hr, rfl⟩

end BorrowedInstructionAccount

/-! ## Borrows -/

section Borrows

variable {ic : InstructionContext} {a : TransactionAccounts} {key : Pubkey}

@[simp] theorem TransactionAccounts.fieldsAt_takeBorrow (i) : (a.takeBorrow i).fieldsAt = a.fieldsAt :=
  funext fun j => congrArg fields (a.view_takeBorrow i j)

@[simp] theorem TransactionAccounts.accountKey_takeBorrow (i j) :
    (a.takeBorrow i).accountKey j = a.accountKey j := by
  rw [accountKey_eq, accountKey_eq, len_takeBorrow, view_takeBorrow]

@[simp] theorem InstructionContext.getKeyOfInstructionAccount_takeBorrow (i index) :
    ic.getKeyOfInstructionAccount (a.takeBorrow i) index = ic.getKeyOfInstructionAccount a index := by
  simp [getKeyOfInstructionAccount]

@[simp] theorem InstructionContext.borrowed_getIndexInTransaction (ia) :
    (ic.borrowed rent ia).getIndexInTransaction = ia := rfl

/-- Dropping the borrow of an account that was free. -/
theorem Leaves.releaseBorrowMut (hi : i.toNat < a.len)
    (hfree : (a.slot i).borrowCounter = 0) (h : Leaves (a.takeBorrow i) a' m) :
    Leaves a (a'.releaseBorrowMut i) m := by
  have hview (j : UInt16) : ((a'.releaseBorrowMut i).view j).key = (a'.view j).key ∧
      ((a'.releaseBorrowMut i).view j).fields = (a'.view j).fields := by
    obtain ⟨n, hn⟩ := a'.view_releaseBorrowMut i j
    rw [hn]
    exact ⟨rfl, rfl⟩
  refine ⟨(len_modifySlot ..).trans (h.len.trans (a.len_takeBorrow i)), fun j => ?_,
    borrowCounter_releaseBorrowMut a hi hfree h.len h.counter, funext fun j => ?_,
    (drop_modifySlot ..).trans (h.beyond.trans (drop_modifySlot ..))⟩
  · rw [(hview j).1, h.key, a.view_takeBorrow]
  · rw [← h.fields]
    exact (hview j).2

/-- An account of the instruction, in the transaction. -/
structure Named (ic : InstructionContext) (a : TransactionAccounts) (index : UInt16) (ia : InstructionAccount) :
    Prop where
  entry : ic.instructionAccounts[index.toNat]? = some ia
  inRange : ia.indexInTransaction.toNat < a.len

/-- An account of the instruction that can be borrowed. -/
structure Borrows (ic : InstructionContext) (a : TransactionAccounts) (index : UInt16) (ia : InstructionAccount) :
    Prop where
  entry : ic.instructionAccounts[index.toNat]? = some ia
  inRange : ia.indexInTransaction.toNat < a.len
  free : (a.slot ia).borrowCounter = 0

theorem Borrows.borrowed_inRange (h : Borrows ic a index ia) :
    (ic.borrowed rent ia).getIndexInTransaction.toNat < (a.takeBorrow ia).len := by
  rw [len_takeBorrow]
  exact h.inRange

theorem Borrows.named (h : Borrows ic a index ia) : Named ic a index ia :=
  ⟨h.entry, h.inRange⟩

theorem TransactionAccounts.borrowCounter_takeBorrow (hi : i.toNat < a.len) :
    ((a.takeBorrow i).slot i).borrowCounter ≠ 0 := by
  rw [takeBorrow, slot_modifySlot_self a hi]
  exact neg_ne_zero.mpr one_ne_zero

/-- An account that is borrowed cannot be borrowed again. -/
theorem Borrows.ne (h : Borrows ic a index ia) (hi : (a.slot i).borrowCounter ≠ 0) : ia ≠ i := by
  rintro rfl
  exact hi h.free

variable (h : Named ic a index ia)

include h

theorem Named.congr (hlen : a'.len = a.len) :
    Named ic a' index ia := ⟨h.entry, hlen ▸ h.inRange⟩

theorem Named.unique (h' : Named ic a' index ia') :
    ia' = ia := Option.some.inj (h'.entry.symm.trans h.entry)

theorem Named.getKey_eq : ic.getKeyOfInstructionAccount a index = .ok (a.view ia).key := by
  simp [getKeyOfInstructionAccount, getIndexOfInstructionAccountInTransaction, instructionAccountAt, h.entry,
    Except.map, Except.bind, bind, accountKey_eq, if_pos h.inRange]

theorem Named.key_of_getKey (hkey : ic.getKeyOfInstructionAccount a index = .ok key) : (a.view ia).key = key :=
  Except.ok.inj (h.getKey_eq.symm.trans hkey)

omit h

/-- What a scope with a borrowed account did is what its body did. -/
theorem withBorrowed_ok (h : (withBorrowed ic rent index body).run a = .ok r a') : ∃ ia a1, Borrows ic a index ia ∧
      (body (ic.borrowed rent ia)).run (a.takeBorrow ia) = .ok r a1 ∧
      ∀ m, Leaves (a.takeBorrow ia) a1 m → Leaves a a' m := by
  obtain ⟨b, a0, h1, h⟩ := bind_inv h
  obtain ⟨ia, hia, rfl, hi, hfree, rfl⟩ := tryBorrowInstructionAccount_ok h1
  obtain ⟨a1, hbody, rfl⟩ := BorrowedInstructionAccount.dropping_ok h
  exact ⟨ia, a1, ⟨hia, hi, hfree⟩, hbody, fun m hm => hm.releaseBorrowMut hi hfree⟩

/-- A borrow that fails has changed nothing. -/
theorem final_tryBorrowInstructionAccount_error
    (h : result (ic.tryBorrowInstructionAccount rent index) a = .error e) :
    final (ic.tryBorrowInstructionAccount rent index) a = a := by
  obtain ⟨e', he⟩ | ⟨ia, -, -, -, he⟩ := ic.tryBorrowInstructionAccount_cases rent index a
  · rw [final, he]
  · rw [result, he] at h
    cases h

/-- The key of an account that is borrowed. -/
theorem getKeyOfInstructionAccount_ok (h : ic.getKeyOfInstructionAccount a index = .ok key) :
    ∃ ia, ic.instructionAccounts[index.toNat]? = some ia ∧ a.accountKey ia = some key := by
  obtain ⟨i, hi, h⟩ := except_inv h
  simp only [getIndexOfInstructionAccountInTransaction, instructionAccountAt] at hi
  cases hia : ic.instructionAccounts[index.toNat]? with
  | none => rw [hia] at hi; cases hi
  | some ia =>
    rw [hia] at hi
    cases hi
    refine ⟨ia, rfl, ?_⟩
    cases hkey : a.accountKey ia with
    | none => rw [hkey] at h; cases h
    | some k => rw [hkey] at h; cases h; rfl

theorem mem_signers (hia : ic.instructionAccounts[index.toNat]? = some ia)
    (hsigner : ic.isInstructionAccountSigner index = .ok true)
    (hkey : a.accountKey ia = some key) : key ∈ ic.signers a := by
  simp only [isInstructionAccountSigner, instructionAccountAt, hia] at hsigner
  refine mem_filterMap.mpr ⟨ia, mem_of_getElem? hia, ?_⟩
  rw [if_pos (by simpa [Except.map] using hsigner), hkey]

/-- The key of an account that has signed. -/
theorem signed_of_key (hkey : ic.getKeyOfInstructionAccount a index = .ok key)
    (hsigner : ic.isInstructionAccountSigner index = .ok true) : key ∈ ic.signers a := by
  obtain ⟨ia, hia, hkey⟩ := getKeyOfInstructionAccount_ok hkey
  exact mem_signers hia hsigner hkey

@[simp] theorem signers_takeBorrow (i) : ic.signers (a.takeBorrow i) = ic.signers a := by
  simp [signers]

theorem Leaves.signers (h : Leaves a a' m) : ic.signers a' = ic.signers a := by
  simp [InstructionContext.signers, h.accountKey]

theorem Leaves.getKey (h : Leaves a a' m) (index) :
    ic.getKeyOfInstructionAccount a' index = ic.getKeyOfInstructionAccount a index := by
  simp [getKeyOfInstructionAccount, h.accountKey]

end Borrows

/-- An account that the current program owns. -/
theorem BorrowedInstructionAccount.owner_of_owned {b : BorrowedInstructionAccount}
    (hkey : a.accountKey b.indexInTransactionOfInstructionProgram = some program)
    (ho : b.isOwnedByCurrentProgram a = true) : (b.fields a).owner = program := by
  rw [isOwnedByCurrentProgram_iff, hkey] at ho
  exact (Option.some.inj ho).symm

/-- The signers of an instruction. -/
theorem InstructionContext.getSigners_ok {ic : InstructionContext} {signers : List Pubkey}
    (h : ic.getSigners a = .ok signers) : signers = ic.signers a := by
  rw [getSigners] at h
  rw [InstructionContext.signers]
  generalize ic.instructionAccounts = accounts at h
  induction accounts generalizing signers with
  | nil =>
    cases h
    rfl
  | cons account accounts ih =>
    by_cases hs : account.isSigner = true
    · rw [filter_cons_of_pos hs, mapM_cons] at h
      obtain ⟨key, hkey, h⟩ := except_inv h
      obtain ⟨keys, hkeys, h⟩ := except_inv h
      cases h
      cases hk : a.accountKey account with
      | none => rw [hk] at hkey; cases hkey
      | some k =>
        rw [hk] at hkey
        cases hkey
        rw [filterMap_cons_some (by rw [if_pos hs, hk]), ih hkeys]
    · rw [filter_cons_of_neg hs] at h
      rw [filterMap_cons_none (by rw [if_neg hs]), ih h]

/-! ## Instructions on the ledger -/

section Instructions

variable {ι : Type} {programId : Pubkey} {process : InstructionContext → ι → AccountsM Unit}
  {ic : InstructionContext} {a a' : TransactionAccounts} {i : ι} {w w' : Accounts}
  {j : UInt16} {m : UInt16 → AccountFields}

/-- The account at an index, in the ledger. -/
theorem Ledger.Represents.at (h : Represents a w) (hj : j.toNat < a.len) : w (a.view j).key = a.fieldsAt j :=
  (h.fields _ (mem_of_getElem? (getElem?_slots hj))).symm

theorem Ledger.Represents.exists_index {key : Pubkey} (h : Represents a w) (hkey : key ∈ a.accountKeys) :
    ∃ j : UInt16, j.toNat < a.len ∧ (a.view j).key = key := by
  obtain ⟨s, hs, rfl⟩ := mem_map.mp hkey
  obtain ⟨n, hn⟩ := mem_iff_getElem?.mp hs
  have hlt : n < a.len := (getElem?_eq_some_iff.mp hn).1
  have hsmall := h.indexed
  obtain ⟨j, hj⟩ : ∃ j : UInt16, j.toNat = n :=
    ⟨.ofNat n, UInt16.toNat_ofNat_of_lt' (show n < 2 ^ 16 by omega)⟩
  have hjlt : j.toNat < a.len := by omega
  rw [← hj, getElem?_slots hjlt] at hn
  exact ⟨j, hjlt, by rw [view, Option.some.inj hn]⟩

/-- What an instruction did at every address: what it did to its accounts, or nothing. -/
theorem Ledger.Invocation.each (h : Invocation programId process ic a a' i w w') (hl : Leaves a a' m)
    {R : Pubkey → AccountFields → AccountFields → Prop} (hrefl : ∀ key f, R key f f)
    (hR : ∀ j, j.toNat < a.len → R (a.view j).key (a.fieldsAt j) (m j)) (key) :
    R key (w key) (w' key) := by
  by_cases hkey : key ∈ a.accountKeys
  · obtain ⟨j, hjlt, rfl⟩ := h.before.exists_index hkey
    rw [h.before.at hjlt, ← hl.key j, h.after.at (hl.len ▸ hjlt), hl.fields, hl.key j]
    exact hR j hjlt
  · rw [h.others key hkey]
    exact hrefl key _

/-- A transaction has every key once. -/
theorem Ledger.Represents.index_inj (h : Represents a w) (hj : j.toNat < a.len) (hk : k.toNat < a.len)
    (hkey : (a.view j).key = (a.view k).key) : j = k := by
  have hget {i : UInt16} (hi : i.toNat < a.len) : a.accountKeys[i.toNat]? = some (a.view i).key := by
    rw [accountKeys, getElem?_map, getElem?_slots hi]
    rfl
  have hlen : j.toNat < a.accountKeys.length := by
    rw [accountKeys, length_map]
    exact hj
  have hsame : a.accountKeys[j.toNat]? = a.accountKeys[k.toNat]? := by rw [hget hj, hget hk, hkey]
  exact UInt16.toNat_inj.mp ((getElem?_inj hlen h.nodup).mp hsame)

variable (h : Invocation programId process ic a a' i w w')

include h

/-- One account of the transaction, after the instruction. -/
theorem Ledger.Invocation.at (hl : Leaves a a' m) (hj : j.toNat < a.len) : w' (a.view j).key = m j := by
  rw [← hl.key j, h.after.at (hl.len ▸ hj), hl.fields]

/-- An address whose account, if the transaction has it, was not changed. -/
theorem Ledger.Invocation.same (hl : Leaves a a' m) {key : Pubkey}
    (hm : ∀ j, j.toNat < a.len → (a.view j).key = key → m j = a.fieldsAt j) : w' key = w key :=
  h.each hl (R := fun key' f f' => key' = key → f' = f) (fun _ _ _ => rfl) (fun j hj => hm j hj) key rfl

/-- An instruction that changes one account. -/
theorem Ledger.Invocation.update (hj : j.toNat < a.len) (hl : Leaves a a' (update a.fieldsAt j f)) :
    w' = update w (a.view j).key f := by
  funext key
  by_cases hkey : key = (a.view j).key
  · subst hkey
    rw [update_self, h.at hl hj, update_self]
  · rw [update_of_ne hkey]
    refine h.same hl fun k _ hk => update_of_ne ?_ ..
    rintro rfl
    exact hkey hk.symm

omit h

/-- The ledger that holds the accounts of a transaction and no others. -/
def Ledger.ofAccounts (a : TransactionAccounts) : Accounts := fun key =>
  match a.slots.find? fun s => s.view.key == key with
  | some s => s.view.fields
  | none => absent

theorem Ledger.represents_ofAccounts (hlen : a.len ≤ 2 ^ 16) (hnodup : a.accountKeys.Nodup) :
    Represents a (ofAccounts a) := by
  refine ⟨hlen, hnodup, fun s hs => ?_⟩
  rw [ofAccounts]
  cases hfind : a.slots.find? fun s' => s'.view.key == s.view.key with
  | none => exact absurd (find?_eq_none.mp hfind s hs) (by simp)
  | some s' =>
    have hkey : s'.view.key = s.view.key := by simpa using find?_some hfind
    have hs' : s' ∈ a.slots := mem_of_find?_eq_some hfind
    rw [inj_on_of_nodup_map hnodup hs' hs hkey]

theorem Ledger.ofAccounts_of_notMem {key : Pubkey} (h : key ∉ a.accountKeys) : ofAccounts a key = absent := by
  rw [ofAccounts]
  cases hfind : a.slots.find? fun s => s.view.key == key with
  | none => rfl
  | some s =>
    have hkey : s.view.key = key := by simpa using find?_some hfind
    exact absurd (mem_map.mpr ⟨s, mem_of_find?_eq_some hfind, hkey⟩) h

/-- A run of an instruction is one on the ledger of its accounts. -/
theorem Ledger.Invocation.of_run (hlen : a.len ≤ 2 ^ 16) (hnodup : a.accountKeys.Nodup)
    (hprogram : ic.Runs a programId) (hrun : (process ic i).run a = .ok () a')
    (hlen' : a'.len = a.len) (hkeys : a'.accountKeys = a.accountKeys) :
    Invocation programId process ic a a' i (ofAccounts a) (ofAccounts a') where
  before := represents_ofAccounts hlen hnodup
  program := hprogram
  run := hrun
  after := represents_ofAccounts (hlen' ▸ hlen) (hkeys ▸ hnodup)
  others key hkey := by rw [ofAccounts_of_notMem hkey, ofAccounts_of_notMem (hkeys ▸ hkey)]

theorem Ledger.settled_ofAccounts (a) (history : γ) (clock)
    (h : ∀ s ∈ a.slots, s.view.lamports = 0 → s.view.fields = absent) :
    State.Settled ⟨⟨ofAccounts a, history⟩, ⟨ofAccounts a, history⟩, clock⟩ where
  pending := rfl
  funded key hl := by
    simp only [ofAccounts] at hl ⊢
    cases hfind : a.slots.find? fun s => s.view.key == key with
    | none => rfl
    | some s =>
      rw [hfind] at hl
      exact h s (mem_of_find?_eq_some hfind) hl

end Instructions

/-! ## Other programs -/

theorem Ledger.ProgramMay.refl (program) (f) : ProgramMay program f f :=
  ⟨fun _ => ⟨rfl, rfl, rfl, UInt64.le_refl _⟩, fun h => absurd rfl h⟩

/-- What another program does to an account: nothing to one of the program `id` but
credit it, or it hands over a zeroed one. -/
theorem Ledger.ProgramMay.cases {id : Pubkey} (h : ProgramMay program f f') (hp : program ≠ id) :
    (f.owner = id ∧ f'.data = f.data ∧ f'.owner = f.owner ∧ f.lamports ≤ f'.lamports) ∨
    (f.owner ≠ id ∧ (f'.owner = id → ∀ byte ∈ f'.data, byte = 0)) := by
  by_cases ho : f.owner = id
  · obtain ⟨hdata, howner, -, hle⟩ := h.notOwned (by rw [ho]; exact hp.symm)
    exact .inl ⟨ho, hdata, howner, hle⟩
  · exact .inr ⟨ho, fun ho' => h.assigned (by rw [ho']; exact fun e => ho e.symm)⟩

theorem lamports_ne_zero_of_le {l' : UInt64} (h : l ≠ 0) (hle : l ≤ l') : l' ≠ 0 := by
  rintro rfl
  exact h (UInt64.le_antisymm hle UInt64.zero_le)

/-! ## Runs of the ledger -/

namespace Ledger

variable {ι γ : Type} {r : Rules ι γ} {I : State γ → Prop} {P : AccountFields → Prop}
  {R : AccountFields → AccountFields → Prop} {s₀ s s' : State γ} {key : Pubkey} {f : AccountFields}

/-- What every step keeps, every run keeps. -/
theorem Reach.induction (hstep : ∀ {action s s'}, I s → Step r action s s' → I s') (h : Reach r s s') (hs : I s) :
    I s' := by
  induction h with
  | refl => exact hs
  | tail _ hlast ih =>
    obtain ⟨action, hlast⟩ := hlast
    exact hstep ih hlast

/-- Steps of states with `I` that do not discard the transaction keep the pending account
in the relation `R` to an account with `P`. -/
def Freezes (r : Rules ι γ) (I : State γ → Prop) (P : AccountFields → Prop)
    (R : AccountFields → AccountFields → Prop) : Prop :=
  ∀ ⦃action s s' f key⦄, I s → Step r action s s' → action ≠ .abort → P f →
    R f (s.pending.accounts key) → R f (s'.pending.accounts key)

/-- The committed and the pending account are in the relation to `f`. -/
def HeldAs (R : AccountFields → AccountFields → Prop) (key : Pubkey) (f : AccountFields) (s : State γ) : Prop :=
  R f (s.committed.accounts key) ∧ R f (s.pending.accounts key)

theorem HeldAs.step (hfreezes : Freezes r I P R) (hs : I s) (hstep : Step r action s s') (hf : P f)
    (h : HeldAs R key f s) : HeldAs R key f s' := by
  have hpending (habort : action ≠ .abort) := hfreezes hs hstep habort hf h.2
  cases hstep with
  | instruction | other => exact ⟨h.1, hpending nofun⟩
  | commit => exact ⟨hpending nofun, hpending nofun⟩
  | abort => exact ⟨h.1, h.1⟩
  | tick => exact h

/-- An account with `P` that a transaction has left stays in the relation to what it was. -/
theorem Freezes.heldAs (hfreezes : Freezes r I P R) (hI : ∀ {action s s'}, I s → Step r action s s' → I s')
    (hrefl : ∀ f, R f f) (hsettled : s₀.Settled) (hs₀ : I s₀) (hreach : Reach r s₀ s)
    (hf : P (s.committed.accounts key)) (hreach' : Reach r s s') : HeldAs R key (s.committed.accounts key) s' := by
  -- Within a transaction, what is committed holds for what is pending.
  obtain ⟨hs, hpending⟩ := hreach.induction
    (I := fun s => I s ∧ ∀ key, P (s.committed.accounts key) → HeldAs R key (s.committed.accounts key) s)
    (fun ⟨hs, h⟩ hstep => ⟨hI hs hstep, fun key hf => by
      cases hstep with
      | instruction hsign hexec => exact (h key hf).step hfreezes hs (.instruction hsign hexec) hf
      | other hprogram hmay => exact (h key hf).step hfreezes hs (.other hprogram hmay) hf
      | commit | abort => exact ⟨hrefl _, hrefl _⟩
      | tick => exact h key hf⟩)
    ⟨hs₀, fun key _ => ⟨hrefl _, hsettled.pending ▸ hrefl _⟩⟩
  exact (hreach'.induction (I := fun s' => I s' ∧ HeldAs R key (s.committed.accounts key) s')
    (fun ⟨hs, h⟩ hstep => ⟨hI hs hstep, h.step hfreezes hs hstep hf⟩) ⟨hs, hpending key hf⟩).2

end Ledger

end Svm
