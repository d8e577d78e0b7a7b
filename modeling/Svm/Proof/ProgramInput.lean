import Svm.Proof.Accounts
import Svm.Spec.ProgramInput

/-!
# Reading back what the buffer holds

A buffer that holds the accounts of an instruction is deserialized without an
error and without a change (`deserialize_holds`): every value that is read is
the account's own, so that each update is skipped or writes what is there. The
loop is followed record by record; `recordStart` is where it has come to.
-/

namespace Svm

open Machine Run Bytes TransactionAccounts EStateM InputFeatures InstructionContext BorrowedInstructionAccount
open Layout hiding dataOutside

/-! ## Accounts that stay as they are -/

namespace TransactionAccountView

theorem Same.refl (v : TransactionAccountView) : v.Same v := ⟨rfl, rfl, rfl, rfl, rfl, rfl⟩

theorem Same.trans {v : TransactionAccountView} (h : v.Same v') (h' : v'.Same v'') : v.Same v'' :=
  ⟨h'.key.trans h.key, h'.owner.trans h.owner, h'.lamports.trans h.lamports, h'.data.trans h.data,
    h'.executable.trans h.executable, h'.rentEpoch.trans h.rentEpoch⟩

end TransactionAccountView

namespace SameAccounts

theorem refl (a) : SameAccounts a a := ⟨rfl, fun _ => .refl _, rfl, rfl, fun _ => rfl⟩

theorem trans (h : SameAccounts a a') (h' : SameAccounts a' a'') : SameAccounts a a'' :=
  ⟨h'.len.trans h.len, fun i => (h.view i).trans (h'.view i), h'.resizeDelta.trans h.resizeDelta,
    h'.lamportsDelta.trans h.lamportsDelta, fun i => (h'.borrowCounter i).trans (h.borrowCounter i)⟩

/-- A write of one slot that leaves the account's fields and its counter. -/
theorem modifySlot (hview : i.toNat < a.len → (a.view i).Same (f (a.slot i)).view)
    (hcounter : i.toNat < a.len → (f (a.slot i)).borrowCounter = (a.slot i).borrowCounter) :
    SameAccounts a (a.modifySlot i f) := by
  have hslot (j : UInt16) : (a.view j).Same ((a.modifySlot i f).slot j).view ∧
      ((a.modifySlot i f).slot j).borrowCounter = (a.slot j).borrowCounter := by
    by_cases hij : i = j
    · subst hij
      by_cases hi : i.toNat < a.len
      · rw [slot_modifySlot_self a hi]
        exact ⟨hview hi, hcounter hi⟩
      · have : a.slots.length ≤ i.toNat := by simpa [TransactionAccounts.len] using hi
        have hself : a.modifySlot i f = a := by simp [TransactionAccounts.modifySlot, List.modify_eq_self this]
        rw [hself]
        exact ⟨.refl _, rfl⟩
    · rw [slot_modifySlot_ne a hij]
      exact ⟨.refl _, rfl⟩
  exact ⟨len_modifySlot .., fun j => (hslot j).1, rfl, rfl, fun j => (hslot j).2⟩

theorem put (h : (a.view i).Same v) : SameAccounts a (a.put i v) :=
  modifySlot (fun _ => h) fun _ => rfl

/-- A change of the resize delta by nothing. -/
theorem addResizeDelta (h : InRange 64 a.resizeDelta) : SameAccounts a (a.addResizeDelta n n) := by
  have hdelta : (a.addResizeDelta n n).resizeDelta = a.resizeDelta := by
    have hzero : iSatSub 64 (asSigned 64 n) (asSigned 64 n) = 0 := by
      rw [iSatSub, sub_self]
      rfl
    simp only [TransactionAccounts.addResizeDelta, hzero]
    rw [iSatAdd, add_zero, clamp_eq h]
  exact ⟨rfl, fun _ => .refl _, hdelta, rfl, fun _ => rfl⟩

end SameAccounts

namespace BorrowedInstructionAccount

variable {b : BorrowedInstructionAccount}

/-- The transaction has not used up more than the growth it may have. -/
def ResizeBounded (a : TransactionAccounts) : Prop :=
  InRange 64 a.resizeDelta ∧ a.resizeDelta ≤ MAX_ACCOUNT_DATA_GROWTH_PER_TRANSACTION

instance (a : TransactionAccounts) : Decidable (ResizeBounded a) := inferInstanceAs (Decidable (_ ∧ _))

theorem canDataBeResized_self (h : ResizeBounded a) (hc : b.MayChange a)
    (hlen : (b.getData a).length ≤ MAX_ACCOUNT_DATA_LEN) : b.canDataBeResized a (b.getData a).length = .ok () := by
  refine (canDataBeResized_ok b a _).mpr ⟨?_, hc⟩
  refine (TransactionAccounts.canDataBeResized_ok a ..).mpr ⟨hlen, ?_⟩
  have hsame := (SameAccounts.addResizeDelta (n := (b.getData a).length) h.1).resizeDelta
  rw [addResizeDelta] at hsame
  simp only at hsame
  rw [hsame]
  exact h.2

/-- Writing the data an account has. -/
theorem run_setDataFromSlice_self (hi : b.getIndexInTransaction.toNat < a.len) (h : InRange 64 a.resizeDelta)
    (hr : b.canDataBeResized a (b.getData a).length = .ok ()) :
    ∃ a', (b.setDataFromSlice (b.getData a)).run a = .ok () a' ∧ SameAccounts a a' := by
  simp only [setDataFromSlice, run_bind, run_get, hr, run_ofExcept_ok, run_touch hi, run_modifyAccount]
  refine ⟨_, rfl, ?_⟩
  rw [getData, account_touched hi, touched_addResizeDelta]
  exact (SameAccounts.addResizeDelta h).trans (SameAccounts.put ⟨rfl, rfl, rfl, rfl, rfl, rfl⟩)

end BorrowedInstructionAccount

/-! ## One account -/

section Account

theorem run_updateLamports_self : (updateLamports b (b.getLamports a)).run a = .ok () a := by
  simp [updateLamports]

theorem run_updateOwner_self : (updateOwner b (b.getOwner a)).run a = .ok () a := by
  simp [updateOwner]

/-- What the accounts and the borrowed one need for its data to be read back. -/
structure Restorable (b : BorrowedInstructionAccount) (a : TransactionAccounts) : Prop where
  inRange : b.getIndexInTransaction.toNat < a.len
  bounded : BorrowedInstructionAccount.ResizeBounded a
  length : (b.getData a).length ≤ MAX_ACCOUNT_DATA_LEN

theorem run_updateInlineData_self (h : Restorable b a) :
    ∃ a', (updateInlineData b (b.getData a)).run a = .ok () a' ∧ SameAccounts a a' := by
  simp only [updateInlineData, run_bind, run_get]
  cases hr : b.canDataBeResized a (b.getData a).length with
  | ok _ => exact b.run_setDataFromSlice_self h.inRange h.bounded.1 hr
  | error err =>
    refine ⟨a, ?_, .refl a⟩
    simp

/-- The data is read back as it is. -/
theorem run_deserializeData (features) (buffer) (start : Nat) (h : Restorable b a)
    (hdata : features.dataOutside = false → readData buffer start (b.getData a).length = .ok (b.getData a)) :
    ∃ a', (deserializeData features b buffer start (b.getData a).length).run a = .ok () a' ∧ SameAccounts a a' := by
  simp only [deserializeData, run_bind, run_get]
  split
  · rw [hdata (by simp_all [dataOutside])]
    exact run_updateInlineData_self h
  · split
    · rename_i hchange
      rw [hdata (by simp_all [dataOutside])]
      have hmay := (b.canDataBeChanged_ok a).mp hchange.2
      exact b.run_setDataFromSlice_self h.inRange h.bounded.1 (b.canDataBeResized_self h.bounded hmay h.length)
    · exact ⟨a, by simp, .refl a⟩

/-- The length of the data with its room, computed without saturation. -/
theorem satAdd_area (h : preLen ≤ MAX_ACCOUNT_DATA_LEN) :
    satAdd 64 (satAdd 64 preLen MAX_PERMITTED_DATA_INCREASE) (alignOffset preLen) =
      preLen + MAX_PERMITTED_DATA_INCREASE + alignOffset preLen := by
  have halign : alignOffset preLen < 8 := Nat.mod_lt _ (by decide)
  have hlarge : MAX_ACCOUNT_DATA_LEN + MAX_PERMITTED_DATA_INCREASE + 8 < 2 ^ 64 := by decide
  have hinner : satAdd 64 preLen MAX_PERMITTED_DATA_INCREASE = preLen + MAX_PERMITTED_DATA_INCREASE :=
    satAdd_eq (by omega)
  rw [hinner, satAdd_eq (by omega)]

theorem Layout.Holds.congr {l : Layout} (h : l.Holds buffer start preLen v)
    (hsame : v.Same v') : l.Holds buffer start preLen v' :=
  ⟨hsame.lamports ▸ h.lamports, hsame.owner ▸ h.owner, hsame.data ▸ h.len, hsame.data ▸ h.data, hsame.data ▸ h.fits⟩

/-- A record of ABIv0 is read back as it is. -/
theorem run_deserializeAccountForAbiv0 (h : Restorable b a) (hpre : (b.getData a).length = preLen)
    (hholds : (features.layout true).Holds buffer start preLen (b.account a)) :
    ∃ a', (deserializeAccountForAbiv0 features buffer preLen (start + 1) b).run a =
        .ok (start + (features.layout true).recordLen (some preLen)) a' ∧ SameAccounts a a' := by
  have hlamports := hholds.lamports
  have hdata := hholds.data
  simp only [lamportsAt, keyAt, layout, if_true]
    at hlamports hdata
  subst hpre
  obtain ⟨a', hrun, hsame⟩ := run_deserializeData features buffer (start + 51) h hdata
  refine ⟨a', ?_, hsame⟩
  simp only [deserializeAccountForAbiv0, run_bind]
  rw [hlamports, run_ofExcept_ok]
  simp only
  rw [← show b.getLamports a = (b.account a).lamports from rfl, run_updateLamports_self]
  simp only
  rw [hrun]
  simp only [run_pure, Result.ok.injEq, and_true, recordLen, dataAt, lenAt,
    lamportsAt, keyAt, areaLen, layout, if_true]
  omega

/-- A record of ABIv1 is read back as it is. -/
theorem run_deserializeAccountForAbiv1 (h : Restorable b a) (hpre : preLen ≤ MAX_ACCOUNT_DATA_LEN)
    (hholds : (features.layout false).Holds buffer start preLen (b.account a)) :
    ∃ a', (deserializeAccountForAbiv1 features buffer preLen (start + 1) b).run a =
        .ok (start + (features.layout false).recordLen (some preLen)) a' ∧ SameAccounts a a' := by
  obtain ⟨hlamports, howner, hlen, hdata, hfits⟩ := hholds
  simp only [lamportsAt, lenAt, ownerAt, keyAt, growth, layout, Bool.false_eq_true,
    if_false] at hlamports howner hlen hdata hfits
  have hlength : (b.account a).data.length ≤ MAX_ACCOUNT_DATA_LEN := h.length
  have hpost : (UInt64.ofNat (b.account a).data.length).toNat = (b.account a).data.length := by
    rw [UInt64.toNat_ofNat', Nat.mod_eq_of_lt]
    exact lt_of_le_of_lt hlength (by decide)
  obtain ⟨a', hrun, hsame⟩ := run_deserializeData features buffer (start + 88) h hdata
  refine ⟨a', ?_, hsame⟩
  have howned : b.getOwner a' = (b.account a).owner := (hsame.view _).owner
  have hgrown : ¬ ((b.account a).data.length - preLen > MAX_PERMITTED_DATA_INCREASE ∨
      (b.account a).data.length > MAX_PERMITTED_DATA_LENGTH) := by
    simp only [MAX_PERMITTED_DATA_LENGTH, MAX_ACCOUNT_DATA_LEN] at hlength ⊢
    omega
  simp only [deserializeAccountForAbiv1, run_bind]
  rw [howner, run_ofExcept_ok]
  simp only
  rw [hlamports, run_ofExcept_ok]
  simp only
  rw [← show b.getLamports a = (b.account a).lamports from rfl, run_updateLamports_self]
  simp only
  rw [hlen, run_ofExcept_ok]
  simp only [hpost, if_neg hgrown, run_bind]
  rw [show (b.account a).data.length = (b.getData a).length from rfl, hrun]
  simp only
  rw [← howned, run_updateOwner_self]
  simp only [run_pure, Result.ok.injEq, and_true, recordLen, dataAt, lenAt,
    lamportsAt, keyAt, areaLen, layout, Bool.false_eq_true, if_false]
  rw [satAdd_area hpre]
  split <;> omega

end Account

/-! ## Borrows -/

section Borrows

variable {ic : InstructionContext} {rent : Rent} {owner : Pubkey}

theorem tryBorrowInstructionAccount_ok (h : (ic.tryBorrowInstructionAccount rent index).run a = .ok b a') :
    ∃ ia, ic.instructionAccounts[index.toNat]? = some ia ∧ b = ic.borrowed rent ia ∧
      ia.indexInTransaction.toNat < a.len ∧ (a.slot ia.indexInTransaction).borrowCounter = 0 ∧
      a' = a.takeBorrow ia.indexInTransaction := by
  obtain ⟨e, he⟩ | ⟨ia, hia, hi, hfree, he⟩ := ic.tryBorrowInstructionAccount_cases rent index a
  · cases he.symm.trans h
  · cases he.symm.trans h
    exact ⟨ia, hia, rfl, hi, hfree, rfl⟩

/-- Dropping a borrow of an account that was free. -/
theorem SameAccounts.releaseBorrowMut (hi : i.toNat < a.len) (hfree : (a.slot i).borrowCounter = 0)
    (h : SameAccounts (a.takeBorrow i) a') : SameAccounts a (a'.releaseBorrowMut i) := by
  refine ⟨(len_modifySlot ..).trans (h.len.trans (a.len_takeBorrow i)), fun j => ?_, h.resizeDelta, h.lamportsDelta,
    borrowCounter_releaseBorrowMut a hi hfree h.len h.borrowCounter⟩
  obtain ⟨n, hn⟩ := a'.view_releaseBorrowMut i j
  rw [hn, ← a.view_takeBorrow i j]
  exact (h.view j).trans ⟨rfl, rfl, rfl, rfl, rfl, rfl⟩

theorem run_withBorrowed
    {body : BorrowedInstructionAccount → AccountsM α} (hia : ic.instructionAccounts[index.toNat]? = some ia)
    (hi : ia.indexInTransaction.toNat < a.len) (hfree : (a.slot ia.indexInTransaction).borrowCounter = 0)
    (hbody : ∃ a', (body (ic.borrowed rent ia)).run (a.takeBorrow ia.indexInTransaction) = .ok r a' ∧
      SameAccounts (a.takeBorrow ia.indexInTransaction) a') :
    ∃ a', (withBorrowed ic rent index body).run a = .ok r a' ∧ SameAccounts a a' := by
  obtain ⟨a', hrun, hsame⟩ := hbody
  have hborrow : (ic.tryBorrowInstructionAccount rent index).run a =
      .ok (ic.borrowed rent ia) (a.takeBorrow ia.indexInTransaction) := by
    simp only [tryBorrowInstructionAccount, instructionAccountAt, hia, run_bind, run_ofExcept_ok,
      run_tryBorrowMut a hi, if_pos hfree, run_pure, borrowed]
  refine ⟨a'.releaseBorrowMut ia.indexInTransaction, ?_, hsame.releaseBorrowMut hi hfree⟩
  simp only [withBorrowed, run_bind, hborrow, run_attempt, result, final, hrun]
  rfl

/-- The program account can be read: it is in range and not borrowed to write. -/
structure ProgramReadable (ic : InstructionContext) (a : TransactionAccounts) (owner : Pubkey) : Prop where
  index : ic.getIndexOfProgramAccountInTransaction = .ok ic.programAccountIndexInTx
  inRange : ic.programAccountIndexInTx.toNat < a.len
  counter : 0 ≤ (a.slot ic.programAccountIndexInTx).borrowCounter ∧
    (a.slot ic.programAccountIndexInTx).borrowCounter + 1 ≤ iMax 8
  owner : (a.view ic.programAccountIndexInTx).owner = owner

theorem ProgramReadable.congr (h : ProgramReadable ic a owner) (hsame : SameAccounts a a') :
    ProgramReadable ic a' owner :=
  ⟨h.index, hsame.len ▸ h.inRange, hsame.borrowCounter _ ▸ h.counter, (hsame.view _).owner.trans h.owner⟩

theorem SameAccounts.addReader_releaseBorrow (h0 : 0 ≤ (a.slot i).borrowCounter)
    (h1 : (a.slot i).borrowCounter + 1 ≤ iMax 8) : SameAccounts a ((a.addReader i).releaseBorrow i) := by
  rw [releaseBorrow, addReader, modifySlot_modifySlot]
  refine .modifySlot (fun _ => .refl _) fun _ => ?_
  simp only [Function.comp_apply, BorrowCounter.releaseBorrow]
  rw [iSatSub_eq ⟨by simp only [iMin]; omega, by omega⟩]
  omega

theorem run_getProgramOwner (h : ProgramReadable ic a owner) :
    ∃ a', ic.getProgramOwner.run a = .ok owner a' ∧ SameAccounts a a' := by
  have howner : ((a.addReader ic.programAccountIndexInTx).view ic.programAccountIndexInTx).owner = owner :=
    (congrArg TransactionAccountView.owner (view_modifySlot_eq a (fun _ => rfl) _)).trans h.owner
  refine ⟨_, ?_, .addReader_releaseBorrow h.counter.1 h.counter.2⟩
  simp only [getProgramOwner, run_bind, h.index, run_ofExcept_ok,
    run_tryBorrow a h.inRange, if_pos h.counter, run_get, run_set, run_pure, howner]

theorem getProgramOwner_ok (h : ic.getProgramOwner.run a = .ok owner a') :
    ProgramReadable ic a owner ∧ SameAccounts a a' := by
  simp only [getProgramOwner] at h
  cases hindex : ic.getIndexOfProgramAccountInTransaction with
  | error e => simp [hindex] at h
  | ok index =>
    have : index = ic.programAccountIndexInTx := by
      simp only [getIndexOfProgramAccountInTransaction] at hindex
      split at hindex <;> cases hindex
      rfl
    subst this
    rw [hindex] at h
    obtain ⟨_, _, h₁, h⟩ := bind_inv h
    cases h₁
    obtain ⟨_, a1, h2, h⟩ := bind_inv h
    obtain ⟨e, he⟩ | ⟨hi, h0, h1, he⟩ := tryBorrow_cases a ic.programAccountIndexInTx
    · cases he.symm.trans h2
    cases he.symm.trans h2
    cases h
    exact ⟨⟨hindex, hi, ⟨h0, h1⟩, congrArg TransactionAccountView.owner
      (view_modifySlot_eq a (fun _ => rfl) _).symm⟩, .addReader_releaseBorrow h0 h1⟩

end Borrows

/-! ## The loop -/

section Loop

variable {ic : InstructionContext} {rent : Rent} {l : Layout} {a : TransactionAccounts}

theorem Layout.recordStart_append (entries entries') :
    l.recordStart (entries ++ entries') = l.recordStart entries + (entries'.map l.recordLen).sum := by
  simp [recordStart, add_assoc]

/-- What the loop makes of an index and a recorded length. -/
def InstructionContext.entryOf (ic : InstructionContext) (item : UInt16 × Nat) : Option Nat :=
  match ic.isInstructionAccountDuplicate item.1 with
  | .ok none => some item.2
  | _ => none

/-- The loop leaves the accounts at the record of an item, and comes to its end. -/
def ReadsAt (ic : InstructionContext) (rent : Rent) (l : Layout) (a : TransactionAccounts)
    (deserializeAccount : (preLen start : Nat) → BorrowedInstructionAccount → AccountsM Nat) (start : Nat)
    (item : UInt16 × Nat) : Prop :=
  (∃ position, ic.isInstructionAccountDuplicate item.1 = .ok (some position)) ∨
  ic.isInstructionAccountDuplicate item.1 = .ok none ∧ ∀ a1, SameAccounts a a1 →
    ∃ a2, (withBorrowed ic rent item.1 (deserializeAccount item.2 (start + 1))).run a1 =
      .ok (start + l.recordLen (some item.2)) a2 ∧ SameAccounts a1 a2

/-- Records that are each left as they are, one behind the other. -/
theorem run_deserializeAccounts
    (hdup : l.recordLen none = 1 + duplicateLen) (items) (entries)
    (hitems : ∀ k item, items[k]? = some item → ReadsAt ic rent l a deserializeAccount
      (l.recordStart (entries ++ (items.take k).map ic.entryOf)) item) (hsame : SameAccounts a a1) :
    ∃ a2, (deserializeAccounts ic rent duplicateLen deserializeAccount items (l.recordStart entries)).run a1 =
      .ok () a2 ∧ SameAccounts a a2 := by
  induction items generalizing entries a1 with
  | nil => exact ⟨a1, rfl, hsame⟩
  | cons item items ih =>
    have htail (k : Nat) (item' : UInt16 × Nat) (h : items[k]? = some item') :
        ReadsAt ic rent l a deserializeAccount
          (l.recordStart ((entries ++ [ic.entryOf item]) ++ (items.take k).map ic.entryOf)) item' := by
      simpa using hitems (k + 1) item' (by simpa using h)
    have hstart (n : Nat) (hn : l.recordLen (ic.entryOf item) = n) :
        l.recordStart entries + n = l.recordStart (entries ++ [ic.entryOf item]) := by
      simp [recordStart_append, hn]
    obtain ⟨index, preLen⟩ := item
    obtain ⟨position, hposition⟩ | ⟨hnone, hreads⟩ := by simpa using hitems 0 _ rfl
    · have hentry : ic.entryOf (index, preLen) = none := by simp [entryOf, hposition]
      simp only [deserializeAccounts, hposition]
      rw [add_assoc, hstart _ (by rw [hentry, hdup])]
      exact ih _ htail hsame
    · have hentry : ic.entryOf (index, preLen) = some preLen := by simp [entryOf, hnone]
      obtain ⟨a2, hrun, hsame2⟩ := hreads a1 hsame
      simp only [deserializeAccounts, hnone, run_bind, run_ofExcept_ok, hrun]
      rw [hstart _ (by rw [hentry])]
      exact ih _ htail (hsame.trans hsame2)

/-- The accounts of the instruction can be borrowed one after the other. -/
structure InstructionContext.Available (ic : InstructionContext) (a : TransactionAccounts) : Prop where
  resolved : ∀ index ∈ ic.indices, ∃ duplicate, ic.isInstructionAccountDuplicate index = .ok duplicate
  free : ∀ index ∈ ic.indices, ic.isInstructionAccountDuplicate index = .ok none →
    ∀ ia, ic.instructionAccounts[index.toNat]? = some ia →
      ia.indexInTransaction.toNat < a.len ∧ (a.slot ia.indexInTransaction).borrowCounter = 0

theorem exists_instructionAccount
    (h : ic.isInstructionAccountDuplicate index = .ok d) : ∃ ia, ic.instructionAccounts[index.toNat]? = some ia := by
  cases hia : ic.instructionAccounts[index.toNat]? with
  | some ia => exact ⟨ia, rfl⟩
  | none =>
    simp [isInstructionAccountDuplicate, getIndexOfInstructionAccountInTransaction, instructionAccountAt, hia] at h
    cases h

theorem InstructionContext.length_indices : ic.indices.length = ic.getNumberOfInstructionAccounts.toNat := by
  simp [indices]

theorem InstructionContext.getElem?_indices {index : UInt16} (h : ic.indices[k]? = some index) : index.toNat = k := by
  obtain ⟨hk, rfl⟩ := getElem?_eq_some_iff.mp h
  have hlt := ic.getNumberOfInstructionAccounts.toNat_lt
  rw [length_indices] at hk
  simp only [indices, List.getElem_map, List.getElem_range, UInt16.toNat_ofNat']
  omega

section Items

variable {j : Nat}

/-- What the loop goes through. -/
abbrev InstructionContext.items (ic : InstructionContext) (accountsMetadata : List SerializedAccountMetadata) :
    List (UInt16 × Nat) :=
  ic.indices.zip (accountsMetadata.map (·.originalDataLen))

theorem getElem?_items : (ic.items accountsMetadata)[j]? = some item ↔ ic.indices[j]? = some item.1 ∧
      ∃ m, accountsMetadata[j]? = some m ∧ m.originalDataLen = item.2 := by
  simp [List.getElem?_zip_eq_some]

/-- The items of the loop are the indices with their entries. -/
theorem take_items (h : accountsMetadata.length = ic.indices.length) (k : Nat) :
    ((ic.items accountsMetadata).take k).map ic.entryOf = (ic.indices.take k).map (ic.entry accountsMetadata) := by
  refine List.ext_getElem? fun j => ?_
  simp only [List.getElem?_map, List.getElem?_take]
  split
  · cases hj : ic.indices[j]? with
    | none =>
      have hlen : (ic.items accountsMetadata).length ≤ j := by
        simpa [h] using hj
      simp [List.getElem?_eq_none hlen]
    | some index =>
      have hjl : j < accountsMetadata.length := by
        rw [h]
        exact (getElem?_eq_some_iff.mp hj).1
      have hitem : (ic.items accountsMetadata)[j]? = some (index, accountsMetadata[j].originalDataLen) :=
        getElem?_items.mpr ⟨hj, _, List.getElem?_eq_getElem hjl, rfl⟩
      simp [hitem, entry, getElem?_indices hj, hjl]
      rfl
  · rfl

end Items

/-! ## The whole buffer -/

/-- What a buffer and the accounts need for the accounts to be read back: those of the
instruction are no longer than an account may be, and those of ABIv0 have kept
their length. -/
structure InstructionContext.Readable (ic : InstructionContext) (l : Layout) (buffer : List UInt8)
    (accountsMetadata : List SerializedAccountMetadata) (a : TransactionAccounts) : Prop
    extends ic.Holds l buffer accountsMetadata a, ic.Available a where
  bounded : BorrowedInstructionAccount.ResizeBounded a
  short : ∀ index ∈ ic.indices, ic.isInstructionAccountDuplicate index = .ok none →
    ∀ ia, ic.instructionAccounts[index.toNat]? = some ia →
      (a.view ia.indexInTransaction).data.length ≤ MAX_ACCOUNT_DATA_LEN
  recorded : ∀ index ∈ ic.indices, ic.isInstructionAccountDuplicate index = .ok none →
    ∀ m, accountsMetadata[index.toNat]? = some m → m.originalDataLen ≤ MAX_ACCOUNT_DATA_LEN
  kept : l.isLoaderV1 = true → ∀ index ∈ ic.indices, ic.isInstructionAccountDuplicate index = .ok none →
    ∀ ia, ic.instructionAccounts[index.toNat]? = some ia → ∀ m, accountsMetadata[index.toNat]? = some m →
      (a.view ia.indexInTransaction).data.length = m.originalDataLen

variable {ext : SerializeExternals} {features : InputFeatures}

/-- The loop leaves the account of every item. -/
theorem readsAt_item {isLoaderV1 : Bool} (h : ic.Readable (features.layout isLoaderV1) buffer accountsMetadata a)
    (haccount : ∀ {b a start preLen}, Restorable b a → preLen ≤ MAX_ACCOUNT_DATA_LEN →
      (isLoaderV1 = true → (b.getData a).length = preLen) →
      (features.layout isLoaderV1).Holds buffer start preLen (b.account a) →
      ∃ a', (deserializeAccount preLen (start + 1) b).run a =
        .ok (start + (features.layout isLoaderV1).recordLen (some preLen)) a' ∧ SameAccounts a a')
    (hitem : (ic.items accountsMetadata)[k]? = some item) :
    ReadsAt ic rent (features.layout isLoaderV1) a deserializeAccount
      ((features.layout isLoaderV1).recordStart (((ic.items accountsMetadata).take k).map ic.entryOf)) item := by
  obtain ⟨index, preLen⟩ := item
  obtain ⟨hindex, m, hm, rfl⟩ := getElem?_items.mp hitem
  obtain rfl := getElem?_indices hindex
  have hmem : index ∈ ic.indices := List.mem_of_getElem? hindex
  obtain ⟨d, hd⟩ := h.resolved index hmem
  cases d with
  | some position => exact .inl ⟨position, hd⟩
  | none =>
    refine .inr ⟨hd, fun a1 hsame => ?_⟩
    obtain ⟨ia, hia⟩ := exists_instructionAccount hd
    obtain ⟨hi, hfree⟩ := h.free index hmem hd ia hia
    have hi1 : ia.indexInTransaction.toNat < a1.len := hsame.len ▸ hi
    have hview : (a.view ia.indexInTransaction).Same
        ((ic.borrowed rent ia).account (a1.takeBorrow ia.indexInTransaction)) := by
      rw [account, view_takeBorrow]
      exact hsame.view _
    refine run_withBorrowed hia hi1 ((hsame.borrowCounter _).trans hfree) (haccount ⟨?_, ?_, ?_⟩ ?_ ?_ ?_)
    · rw [len_takeBorrow]
      exact hi1
    · exact ⟨hsame.resizeDelta ▸ h.bounded.1, hsame.resizeDelta ▸ h.bounded.2⟩
    · rw [getData, hview.data]
      exact h.short index hmem hd ia hia
    · exact h.recorded index hmem hd m hm
    · intro hv1
      rw [getData, hview.data]
      exact h.kept hv1 index hmem hd ia hia m hm
    · rw [take_items h.length]
      exact (h.account index hmem hd ia hia m hm).congr hview

/-- A buffer that holds the accounts of an instruction is deserialized without an
error and without a change. -/
theorem deserialize_holds (howner : ProgramReadable ic a owner)
    (h : ic.Readable (features.layout (owner = ext.bpfLoaderDeprecatedId)) buffer accountsMetadata a) :
    ∃ a', (deserializeParameters ext ic rent features buffer accountsMetadata).run a = .ok () a' ∧
      SameAccounts a a' := by
  obtain ⟨a1, hrun, hsame⟩ := run_getProgramOwner howner
  simp only [deserializeParameters, run_bind, hrun]
  by_cases hdep : owner = ext.bpfLoaderDeprecatedId
  · rw [if_pos hdep]
    simp only [hdep] at h
    exact run_deserializeAccounts rfl _ [] (fun k item hitem =>
      readsAt_item h (fun hr _ hlen => run_deserializeAccountForAbiv0 hr (hlen rfl)) hitem) hsame
  · rw [if_neg hdep]
    simp only [hdep] at h
    exact run_deserializeAccounts rfl _ [] (fun k item hitem =>
      readsAt_item h (fun hr hpre _ => run_deserializeAccountForAbiv1 hr hpre) hitem) hsame

end Loop

end Svm
