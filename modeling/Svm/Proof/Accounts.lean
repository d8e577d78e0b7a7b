import Svm.Framework.Total
import Svm.Impl.Transaction

/-!
# Slots, and what an operation on a borrowed account does

The first half is the reading of slots after writes. The second says once what
an operation of a `BorrowedInstructionAccount` can do: `Effect` lists the six
changes with the checks each one has passed, and `AccountOp.effect` shows that
every operation makes one of them, none when it fails (but for `set_state`,
which may fail after it has the slice). Lamport conservation, access control
and resize accounting are read off `Effect`, not off the operations.
-/

namespace Svm

open Machine Run EStateM TransactionAccounts List

/-! ## Views -/

namespace TransactionAccountView

variable (v : TransactionAccountView)

/-- The view with another payload and another published length. -/
def withData (p : Payload) (len : Nat) : TransactionAccountView :=
  { v with privateFields := { v.privateFields with payload := p } }.setLen len

@[simp] theorem setLamports_lamports (l) : (v.setLamports l).lamports = l := rfl
@[simp] theorem setLamports_data (l) : (v.setLamports l).data = v.data := rfl

@[simp] theorem setOwner_data (pk) : (v.setOwner pk).data = v.data := rfl
@[simp] theorem setOwner_lamports (pk) : (v.setOwner pk).lamports = v.lamports := rfl

@[simp] theorem setExecutable_data (e : Bool) : (v.setExecutable e).data = v.data := rfl
@[simp] theorem setExecutable_lamports (e : Bool) : (v.setExecutable e).lamports = v.lamports := rfl

@[simp] theorem withData_data (p) (n : Nat) : (v.withData p n).data = p.bytes := rfl
@[simp] theorem withData_lamports (p) (n : Nat) : (v.withData p n).lamports = v.lamports := rfl

theorem length_writes (writes : List (Nat × UInt8)) (bytes : List UInt8) :
    (writes.foldl (fun bytes (i, b) => bytes.set i b) bytes).length = bytes.length := by
  induction writes generalizing bytes with
  | nil => rfl
  | cons w writes ih => rw [foldl_cons, ih, length_set]

@[simp] theorem dataAsMutSlice_data : v.dataAsMutSlice.data = v.data := by
  unfold dataAsMutSlice; split <;> rfl

/-- What unsharing and writing through a slice leaves. -/
structure SliceWritten (v v' : TransactionAccountView) : Prop where
  eq : v' = v.withData v'.privateFields.payload v.publishedLen
  length : v'.data.length = v.data.length

theorem SliceWritten.refl : SliceWritten v v := ⟨rfl, rfl⟩

theorem SliceWritten.trans {v : TransactionAccountView} (h : SliceWritten v v')
    (h' : SliceWritten v' v'') : SliceWritten v v'' := by
  obtain ⟨e, l⟩ := h
  obtain ⟨e', l'⟩ := h'
  exact ⟨by rw [e', e]; rfl, l'.trans l⟩

theorem sliceWritten_reserve (n : Nat) : SliceWritten v (v.reserve n) := ⟨rfl, rfl⟩

theorem sliceWritten_dataAsMutSlice : SliceWritten v v.dataAsMutSlice := by
  unfold dataAsMutSlice
  split
  · exact ⟨rfl, rfl⟩
  · exact .refl v

theorem sliceWritten_writeSlice (writes) : SliceWritten v (v.writeSlice writes) :=
  ⟨rfl, length_writes writes v.data⟩

end TransactionAccountView

/-! ## Slots -/

namespace TransactionAccounts

variable (a : TransactionAccounts) (i j : UInt16)

def withLamportsDelta (delta : Int) : TransactionAccounts := { a with lamportsDelta := delta }

variable (v : TransactionAccountView)

/-- The account at `i` is now `v`, and has been touched. -/
def put : TransactionAccounts :=
  a.modifySlot i fun s => { s with view := v, touched := true }

theorem getElem?_slots {a : TransactionAccounts} {i : UInt16} (h : i.toNat < a.len) :
    a.slots[i.toNat]? = some (a.slot i) := by
  have : i.toNat < a.slots.length := h
  simp [slot, this]

@[simp] theorem len_modifySlot (f) : (a.modifySlot i f).len = a.len := by
  simp [modifySlot, len]

variable {i j}

theorem slot_modifySlot_self (h : i.toNat < a.len) (f) :
    (a.modifySlot i f).slot i = f (a.slot i) := by
  have : i.toNat < a.slots.length := h
  simp [modifySlot, slot, this]

theorem slot_modifySlot_ne (h : i ≠ j) (f) : (a.modifySlot i f).slot j = a.slot j := by
  have : i.toNat ≠ j.toNat := fun e => h (UInt16.toNat_inj.mp e)
  simp [modifySlot, slot, this]

/-- A write of a slot reads only that slot. -/
theorem modifySlot_congr (h : i.toNat < a.len → f (a.slot i) = g (a.slot i)) :
    a.modifySlot i f = a.modifySlot i g := by
  simp only [modifySlot, mk.injEq, and_true]
  refine ext_getElem? fun k => ?_
  rw [getElem?_modify, getElem?_modify]
  split
  · rename_i e
    subst e
    by_cases hi : i.toNat < a.len
    · simp [getElem?_slots hi, h hi]
    · have : a.slots[i.toNat]? = none := by simpa [len] using hi
      simp [this]
  · rfl

theorem modifySlot_modifySlot (f g) :
    (a.modifySlot i f).modifySlot i g = a.modifySlot i (g ∘ f) := by
  simp [modifySlot, modify_modify_eq]

theorem modifySlot_self (h : f (a.slot i) = a.slot i) : a.modifySlot i f = a := by
  rw [modifySlot_congr (g := id) a fun _ => h]
  simp [modifySlot]

theorem view_modifySlot_ne (h : i ≠ j) (f) : (a.modifySlot i f).view j = a.view j := by
  simp [view, slot_modifySlot_ne a h]

/-- A write that leaves the account leaves every account. -/
theorem view_modifySlot_eq (h : i.toNat < a.len → (f (a.slot i)).view = (a.slot i).view) (j) :
    (a.modifySlot i f).view j = a.view j := by
  by_cases hij : i = j
  · subst hij
    by_cases hi : i.toNat < a.len
    · simp [view, slot_modifySlot_self a hi, h hi]
    · have : a.slots.length ≤ i.toNat := by simpa [len] using hi
      simp [modifySlot, modify_eq_self this]
  · exact view_modifySlot_ne a hij f

@[simp] theorem len_put : (a.put i v).len = a.len := len_modifySlot ..

theorem view_put_self (h : i.toNat < a.len) (v) : (a.put i v).view i = v := by
  simp [put, view, slot_modifySlot_self a h]

theorem view_put_ne (h : i ≠ j) (v) : (a.put i v).view j = a.view j :=
  view_modifySlot_ne a h _

theorem canDataBeResized_ok (oldLen newLen : Nat) : a.canDataBeResized oldLen newLen = .ok () ↔
      newLen ≤ MAX_ACCOUNT_DATA_LEN ∧
      iSatAdd 64 a.resizeDelta (iSatSub 64 (asSigned 64 newLen) (asSigned 64 oldLen)) ≤
        MAX_ACCOUNT_DATA_GROWTH_PER_TRANSACTION := by
  simp only [canDataBeResized]
  split
  · simp only [reduceCtorEq, false_iff]; omega
  · split
    · simp only [reduceCtorEq, false_iff]; omega
    · simp only [true_iff]; omega

theorem run_touch (h : i.toNat < a.len) :
    (touch i).run a = .ok () (a.modifySlot i fun s => { s with touched := true }) := by
  simp [touch, h]

/-- Marking an account and then writing it. -/
theorem touched_modifyView (f) :
    (a.modifySlot i fun s => { s with touched := true }).modifyView i f = a.put i (f (a.view i)) := by
  rw [modifyView, modifySlot_modifySlot]
  exact modifySlot_congr a fun _ => rfl

theorem put_modifyView (f) :
    (a.put i v).modifyView i f = a.put i (f v) := by
  rw [modifyView, put, modifySlot_modifySlot]
  rfl

theorem modifyView_modifyView (f g) :
    (a.modifyView i f).modifyView i g = a.modifyView i (g ∘ f) := by
  simp only [modifyView, modifySlot_modifySlot]
  rfl

/-- Every account has the property. -/
def All (P : TransactionAccountView → Prop) (a : TransactionAccounts) : Prop := ∀ s ∈ a.slots, P s.view

theorem All.view {a : TransactionAccounts} (h : a.All P) (hi : i.toNat < a.len) : P (a.view i) :=
  h _ (mem_of_getElem? (getElem?_slots hi))

theorem All.put {a : TransactionAccounts} (h : a.All P) {v : TransactionAccountView} (hv : P v) :
    (a.put i v).All P := by
  intro s hs
  obtain ⟨k, hk⟩ := mem_iff_getElem?.mp hs
  simp only [TransactionAccounts.put, modifySlot, getElem?_modify] at hk
  split at hk
  · obtain ⟨s', -, rfl⟩ := Option.map_eq_some_iff.mp hk
    exact hv
  · obtain ⟨s', hs', rfl⟩ := Option.map_eq_some_iff.mp hk
    exact h _ (mem_of_getElem? hs')

theorem all_new (h : ∀ item ∈ accounts, ∀ idx, P (newSlot item idx).view) : (new accounts).All P := by
  intro s hs
  obtain ⟨⟨item, idx⟩, hmem, rfl⟩ := mem_map.mp hs
  exact h item (fst_mem_of_mem_zipIdx hmem) idx

/-! ### Borrows -/

variable (i) in
/-- The accounts while the one at `i`, which was free, is borrowed. -/
def takeBorrow : TransactionAccounts := a.modifySlot i fun s => { s with borrowCounter := -1 }

variable (i) in
/-- The accounts while the one at `i` is read. -/
def addReader : TransactionAccounts :=
  a.modifySlot i fun s => { s with borrowCounter := (a.slot i).borrowCounter + 1 }

@[simp] theorem view_takeBorrow (i j) : (a.takeBorrow i).view j = a.view j :=
  view_modifySlot_eq a (fun _ => rfl) j

@[simp] theorem len_takeBorrow (i) : (a.takeBorrow i).len = a.len := len_modifySlot ..

theorem run_tryBorrow (hi : i.toNat < a.len) : (tryBorrow i).run a =
    if 0 ≤ (a.slot i).borrowCounter ∧ (a.slot i).borrowCounter + 1 ≤ iMax 8 then .ok () (a.addReader i)
    else .error .AccountBorrowFailed a := by
  simp only [tryBorrow, run_bind, run_get, BorrowCounter.tryBorrow, BorrowCounter.isWriting, decide_eq_true_eq]
  have hmin : iMin 8 ≤ 0 := by decide
  split_ifs with hw hc hc
  · omega
  · rfl
  · rw [iCheckedAdd_eq ⟨by omega, hc.2⟩]
    rfl
  · rw [iCheckedAdd, if_neg fun h => hc ⟨Int.not_lt.mp hw, h.2⟩]
    rfl

theorem run_tryBorrowMut (hi : i.toNat < a.len) : (tryBorrowMut i).run a =
    if (a.slot i).borrowCounter = 0 then .ok () (a.takeBorrow i) else .error .AccountBorrowFailed a := by
  simp only [tryBorrowMut, run_bind, run_get, BorrowCounter.tryBorrowMut, BorrowCounter.isWriting,
    BorrowCounter.isReading, Bool.or_eq_true, decide_eq_true_eq]
  split_ifs with h h' h'
  · omega
  · rfl
  · rw [h']
    rfl
  · omega

variable (i) in
theorem tryBorrow_cases : (∃ e, (tryBorrow i).run a = .error e a) ∨
    i.toNat < a.len ∧ 0 ≤ (a.slot i).borrowCounter ∧ (a.slot i).borrowCounter + 1 ≤ iMax 8 ∧
      (tryBorrow i).run a = .ok () (a.addReader i) := by
  by_cases hi : i.toNat < a.len
  · rw [run_tryBorrow a hi]
    split_ifs with h
    · exact .inr ⟨hi, h.1, h.2, rfl⟩
    · exact .inl ⟨_, rfl⟩
  · exact .inl ⟨.MissingAccount, by simp [tryBorrow, hi]⟩

variable (i) in
theorem tryBorrowMut_cases : (∃ e, (tryBorrowMut i).run a = .error e a) ∨
    i.toNat < a.len ∧ (a.slot i).borrowCounter = 0 ∧ (tryBorrowMut i).run a = .ok () (a.takeBorrow i) := by
  by_cases hi : i.toNat < a.len
  · rw [run_tryBorrowMut a hi]
    split_ifs with h
    · exact .inr ⟨hi, h, rfl⟩
    · exact .inl ⟨_, rfl⟩
  · exact .inl ⟨.MissingAccount, by simp [tryBorrowMut, hi]⟩

theorem view_releaseBorrowMut (i j) : ∃ n, (a.releaseBorrowMut i).view j = (a.view j).setLen n := by
  by_cases hij : i = j
  · subst hij
    by_cases hi : i.toNat < a.len
    · refine ⟨(a.view i).data.length, ?_⟩
      simp [view, releaseBorrowMut, slot_modifySlot_self a hi]
    · exact ⟨_, view_modifySlot_eq a (fun h => absurd h hi) i⟩
  · exact ⟨_, view_modifySlot_ne a hij _⟩

/-- The counters once the borrow of an account that was free is dropped. -/
theorem borrowCounter_releaseBorrowMut {a' : TransactionAccounts} (hi : i.toNat < a.len)
    (hfree : (a.slot i).borrowCounter = 0) (hlen : a'.len = (a.takeBorrow i).len)
    (h : ∀ j, (a'.slot j).borrowCounter = ((a.takeBorrow i).slot j).borrowCounter) (j) :
    ((a'.releaseBorrowMut i).slot j).borrowCounter = (a.slot j).borrowCounter := by
  rw [len_takeBorrow] at hlen
  have hj := h j
  by_cases hij : i = j
  · subst hij
    rw [takeBorrow, slot_modifySlot_self a hi] at hj
    rw [releaseBorrowMut, slot_modifySlot_self a' (hlen ▸ hi), hfree, hj]
    rfl
  · rw [takeBorrow, slot_modifySlot_ne a hij] at hj
    rw [releaseBorrowMut, slot_modifySlot_ne a' hij, hj]

/-! ### Sums over the accounts -/

variable (m : TransactionAccountView → Nat)

/-- The sum of a measure over the accounts. -/
def sum (a : TransactionAccounts) : Int :=
  total (fun s : AccountSlot => m s.view) a.slots

/-- The measure of the accounts that no index reaches. -/
def tail (a : TransactionAccounts) : List Nat :=
  (a.slots.drop (2 ^ 16)).map fun s => m s.view

theorem sum_put (h : i.toNat < a.len) (v) :
    (a.put i v).sum m = a.sum m + (m v - m (a.view i)) :=
  total_modify (fun s : AccountSlot => m s.view) (fun s => { s with view := v, touched := true })
    (getElem?_slots h)

theorem sum_addResizeDelta_put (h : i.toNat < a.len) (v) (oldLen newLen : Nat) :
    ((a.addResizeDelta oldLen newLen).put i v).sum m = a.sum m + (m v - m (a.view i)) :=
  sum_put a m h v

theorem drop_modifySlot (f) :
    (a.modifySlot i f).slots.drop (2 ^ 16) = a.slots.drop (2 ^ 16) := by
  rw [modifySlot, drop_modify_of_lt _ _ _ _ i.toNat_lt]

theorem tail_modifySlot (f) : (a.modifySlot i f).tail m = a.tail m := by
  rw [tail, drop_modifySlot, tail]

/-- Two states of the accounts whose tails agree are less than 65536 times the bound
of the measure apart. -/
theorem sum_near {m : TransactionAccountView → Nat} {a a' : TransactionAccounts}
    (h : a.All fun v => m v ≤ B) (htail : a.tail m = a'.tail m) : a.sum m - a'.sum m ≤ 2 ^ 16 * B := by
  have := total_near (2 ^ 16) h htail
  exact_mod_cast this

/-- The sum over new accounts is the sum over the accounts they were loaded from, for
a measure that does not see the guest address. -/
theorem sum_new {m : TransactionAccountView → Nat}
    (h : ∀ item idx, m (newSlot item idx).view = m' item) (accounts) :
    (new accounts).sum m = total m' accounts := by
  have hslots (k : Nat) : total (fun s => m s.view)
      ((accounts.zipIdx k).map fun x => newSlot x.1 x.2) = total m' accounts := by
    induction accounts generalizing k with
    | nil => rfl
    | cons item accounts ih => simp [h, ih]
  exact hslots 0

theorem accountKey_eq (a : TransactionAccounts) (i) :
    a.accountKey i = if i.toNat < a.len then some (a.view i).key else none := by
  split
  · rename_i h
    rw [accountKey, getElem?_slots h]; rfl
  · rename_i h
    have : a.slots[i.toNat]? = none := by simpa [len] using h
    simp [accountKey, this]

end TransactionAccounts

/-- The borrow of an account of the instruction. -/
def InstructionContext.borrowed (ic : InstructionContext) (rent : Rent) (ia : InstructionAccount) :
    BorrowedInstructionAccount := ⟨rent, ia, ic.programAccountIndexInTx⟩

/-- What borrowing an instruction account comes to. -/
theorem InstructionContext.tryBorrowInstructionAccount_cases (ic : InstructionContext) (rent : Rent) (index)
    (a) : (∃ e, (ic.tryBorrowInstructionAccount rent index).run a = .error e a) ∨
    ∃ ia, ic.instructionAccounts[index.toNat]? = some ia ∧ ia.indexInTransaction.toNat < a.len ∧
      (a.slot ia.indexInTransaction).borrowCounter = 0 ∧ (ic.tryBorrowInstructionAccount rent index).run a =
        .ok (ic.borrowed rent ia) (a.takeBorrow ia.indexInTransaction) := by
  simp only [tryBorrowInstructionAccount, instructionAccountAt, run_bind]
  cases hia : ic.instructionAccounts[index.toNat]? with
  | none => exact .inl ⟨_, rfl⟩
  | some ia =>
    simp only [run_ofExcept_ok]
    obtain ⟨e, h⟩ | ⟨hi, hfree, h⟩ := tryBorrowMut_cases a ia.indexInTransaction
    · exact .inl ⟨e, by rw [h]⟩
    · exact .inr ⟨ia, rfl, hi, hfree, by rw [h]; rfl⟩

/-! ## The effect of an operation -/

namespace BorrowedInstructionAccount

variable (b : BorrowedInstructionAccount) (a : TransactionAccounts)

/-- The program owns the account and may write it: what every change but one of
lamports needs. -/
structure MayChange : Prop where
  writable : b.isWritable = true
  owned : b.isOwnedByCurrentProgram a = true

/-- The changes an operation on the borrowed account `b` can make to the accounts
`a`, each with what has been checked before it is made. -/
inductive Effect : TransactionAccounts → Prop
  | none : Effect a
  | lamports (l : UInt64) (hw : b.isWritable = true)
      (ho : b.isOwnedByCurrentProgram a = true ∨ b.getLamports a ≤ l) :
      Effect ((a.withLamportsDelta (a.lamportsDelta + ((l.toNat : Int) - (b.getLamports a).toNat))).put
        b.getIndexInTransaction ((b.account a).setLamports l))
  | owner (pk : Pubkey) (h : b.MayChange a) (hz : isZeroed (b.getData a) = true) :
      Effect (a.put b.getIndexInTransaction ((b.account a).setOwner pk))
  | executable (e : Bool) (h : b.MayChange a) :
      Effect (a.put b.getIndexInTransaction ((b.account a).setExecutable e))
  | bytes (v : TransactionAccountView) (h : b.MayChange a) (hv : (b.account a).SliceWritten v) :
      Effect (a.put b.getIndexInTransaction v)
  | resize (p : Payload) (h : b.MayChange a)
      (hp : a.canDataBeResized (b.getData a).length p.bytes.length = .ok ()) :
      Effect ((a.addResizeDelta (b.getData a).length p.bytes.length).put b.getIndexInTransaction
        ((b.account a).withData p p.bytes.length))

theorem canDataBeChanged_ok : b.canDataBeChanged a = .ok () ↔ b.MayChange a := by
  unfold canDataBeChanged
  constructor
  · intro h
    split at h
    · cases h
    · split at h
      · cases h
      · exact ⟨by simp_all, by simp_all⟩
  · rintro ⟨hw, ho⟩
    simp [hw, ho]

theorem canDataBeResized_ok (n : Nat) : b.canDataBeResized a n = .ok () ↔
      a.canDataBeResized (b.getData a).length n = .ok () ∧ b.MayChange a := by
  simp only [canDataBeResized, ← canDataBeChanged_ok]
  constructor
  · intro h
    split at h
    · cases h
    · obtain ⟨_, hr, hc⟩ := except_inv h
      exact ⟨hr, hc⟩
  · rintro ⟨hr, hc⟩
    have ho := ((canDataBeChanged_ok b a).mp hc).owned
    rw [if_neg (by simp [ho])]
    exact except_bind_ok.mpr ⟨(), hr, hc⟩

variable {b a}

/-- The accounts once the borrowed one is marked. -/
abbrev touched (b : BorrowedInstructionAccount) (a : TransactionAccounts) : TransactionAccounts :=
  a.modifySlot b.getIndexInTransaction fun s => { s with touched := true }

theorem run_touch (hi : b.getIndexInTransaction.toNat < a.len) : b.touch.run a = .ok () (b.touched a) :=
  TransactionAccounts.run_touch a hi

@[simp] theorem run_modifyAccount (f) :
    (b.modifyAccount f).run a = .ok () (a.modifyView b.getIndexInTransaction f) := rfl

@[simp] theorem run_updateAccountsResizeDelta (n : Nat) :
    (b.updateAccountsResizeDelta n).run a = .ok () (a.addResizeDelta (b.getData a).length n) := rfl

variable (v : TransactionAccountView)

/-- What `make_data_mut` does to an account. -/
def unshared : TransactionAccountView :=
  if v.isShared then v.reserve MAX_ACCOUNT_DATA_GROWTH_PER_INSTRUCTION else v

@[simp] theorem run_makeDataMut : b.makeDataMut.run a = .ok () (a.modifyView b.getIndexInTransaction unshared) := by
  simp only [makeDataMut, run_bind, run_get, run_ite, run_modifyAccount, run_pure]
  split
  · rename_i h
    have h : (a.slot b.getIndexInTransaction).view.isShared = true := h
    rw [modifyView, modifySlot_congr a fun _ => ?_, modifyView]
    simp [unshared, h]
  · rename_i h
    have h : ¬ (a.slot b.getIndexInTransaction).view.isShared = true := h
    rw [modifyView, modifySlot_self a]
    simp [unshared, h]

theorem sliceWritten_unshared : v.SliceWritten (unshared v) := by
  unfold unshared
  split
  · exact v.sliceWritten_reserve _
  · exact .refl v

theorem extendFromSlice_unshared (data) : ∃ g, (unshared v).extendFromSlice data =
      v.withData ⟨v.data ++ data, false, g⟩ (v.data ++ data).length := by
  unfold unshared
  split
  · exact ⟨_, rfl⟩
  · exact ⟨_, rfl⟩

/-- Marking an account leaves what it is. -/
theorem account_touched (hi : b.getIndexInTransaction.toNat < a.len) : b.account (b.touched a) = b.account a := by
  simp [account, view, slot_modifySlot_self a hi]

theorem touched_addResizeDelta (m n : Nat) (f) :
    ((b.touched a).addResizeDelta m n).modifyView b.getIndexInTransaction f =
      (a.addResizeDelta m n).put b.getIndexInTransaction (f (b.account a)) :=
  touched_modifyView (a.addResizeDelta m n) f

/-- What a run of an operation comes to: one of the effects, and none if it fails. -/
def Outcome (b : BorrowedInstructionAccount) (a : TransactionAccounts) :
    EStateM.Result InstructionError TransactionAccounts Unit → Prop
  | .ok _ a' => b.Effect a a'
  | .error _ a' => a' = a

section

variable (hi : b.getIndexInTransaction.toNat < a.len)

include hi

/-- `set_lamports`: it fails without a change, or the program may set the balance. -/
theorem run_setLamports (l) : (∃ e, (b.setLamports l).run a = .error e a) ∨
    (b.isOwnedByCurrentProgram a = true ∨ b.getLamports a ≤ l) ∧
      (b.getLamports a = l ∧ (b.setLamports l).run a = .ok () a ∨
      b.isWritable = true ∧ (b.setLamports l).run a = .ok ()
        ((a.withLamportsDelta (a.lamportsDelta + ((l.toNat : Int) - (b.getLamports a).toNat))).put
          b.getIndexInTransaction ((b.account a).setLamports l))) := by
  simp only [setLamports, run_bind, run_get]
  split_ifs with hs hw he
  · exact .inl ⟨_, rfl⟩
  · exact .inl ⟨_, rfl⟩
  · exact .inr ⟨.inr (UInt64.le_of_eq he), .inl ⟨he, rfl⟩⟩
  · simp only [addLamportsDelta, run_bind, run_get]
    have hl : iSatSub 128 l.toNat (b.getLamports a).toNat = l.toNat - (b.getLamports a).toNat := by
      have := l.toNat_lt
      have := (b.getLamports a).toNat_lt
      refine iSatSub_eq ⟨?_, ?_⟩ <;> simp only [iMin, iMax] <;> omega
    rw [hl]
    cases hd : iCheckedAdd 128 a.lamportsDelta (l.toNat - (b.getLamports a).toNat) with
    | none => exact .inl ⟨_, rfl⟩
    | some d =>
      obtain ⟨rfl, -⟩ := iCheckedAdd_eq_some.mp hd
      have ht := run_touch
        (a := a.withLamportsDelta (a.lamportsDelta + (l.toNat - (b.getLamports a).toNat))) hi
      rw [withLamportsDelta] at ht
      simp only [run_set, ht, run_modifyAccount, touched_modifyView]
      refine .inr ⟨?_, .inr ⟨by simpa using hw, rfl⟩⟩
      simp only [Bool.and_eq_true, Bool.not_eq_true', decide_eq_true_eq, not_and, UInt64.not_lt] at hs
      cases ho : b.isOwnedByCurrentProgram a
      · exact .inr (hs ho)
      · exact .inl rfl

theorem outcome_setLamports (l) : b.Outcome a ((b.setLamports l).run a) := by
  obtain ⟨e, h⟩ | ⟨ho, ⟨-, h⟩ | ⟨hw, h⟩⟩ := run_setLamports hi l <;> rw [h]
  · rfl
  · exact .none
  · exact .lamports l hw ho

theorem outcome_setOwner (pk) : b.Outcome a ((b.setOwner pk).run a) := by
  simp only [setOwner, run_bind, run_get, run_ite, run_touch hi, run_modifyAccount, touched_modifyView]
  split_ifs with ho hw hz he
  · rfl
  · rfl
  · rfl
  · exact .none
  · exact .owner pk ⟨by simpa using hw, by simpa using ho⟩ (by simpa using hz)

theorem outcome_setExecutable (e : Bool) : b.Outcome a ((b.setExecutable e).run a) := by
  simp only [setExecutable, run_bind, run_get, run_ite, run_touch hi, run_modifyAccount, touched_modifyView]
  split_ifs with hr ho hw he
  · rfl
  · rfl
  · rfl
  · exact .none
  · exact .executable e ⟨by simpa using hw, by simpa using ho⟩

theorem outcome_checkedAddLamports (l) : b.Outcome a ((b.checkedAddLamports l).run a) := by
  simp only [checkedAddLamports, run_bind, run_get]
  cases U64.checkedAdd (b.getLamports a) l with
  | none => rfl
  | some l => exact outcome_setLamports hi l

theorem outcome_checkedSubLamports (l) : b.Outcome a ((b.checkedSubLamports l).run a) := by
  simp only [checkedSubLamports, run_bind, run_get]
  split
  · exact outcome_setLamports hi _
  · rfl

theorem outcome_setDataFromSlice (data) : b.Outcome a ((b.setDataFromSlice data).run a) := by
  simp only [setDataFromSlice, run_bind, run_get]
  cases hr : b.canDataBeResized a data.length with
  | error e => rfl
  | ok _ =>
    obtain ⟨hr, hc⟩ := (canDataBeResized_ok b a _).mp hr
    simp only [run_ofExcept_ok, run_touch hi, run_updateAccountsResizeDelta, run_modifyAccount]
    rw [getData, account_touched hi, touched_addResizeDelta]
    exact .resize ⟨data, false, _⟩ hc hr

theorem outcome_setDataLength (n : Nat) : b.Outcome a ((b.setDataLength n).run a) := by
  simp only [setDataLength, run_bind, run_get]
  cases hr : b.canDataBeResized a n with
  | error e => rfl
  | ok _ =>
    obtain ⟨hr, hc⟩ := (canDataBeResized_ok b a _).mp hr
    simp only [run_ofExcept_ok, run_ite, run_bind, run_touch hi, run_updateAccountsResizeDelta, run_modifyAccount]
    split
    · exact .none
    · rw [getData, account_touched hi, touched_addResizeDelta]
      -- the resized bytes are `n` long
      have hn : ((b.account a).data.take n ++ replicate (n - (b.account a).data.length) 0).length = n := by
        simp only [length_append, length_take, length_replicate]
        omega
      have := Effect.resize ⟨_, false, (b.account a).privateFields.payload.generation + 1⟩ hc (hn.symm ▸ hr)
      rwa [show (Payload.bytes ⟨_, _, _⟩).length = n from hn] at this

theorem outcome_extendFromSlice (data) : b.Outcome a ((b.extendFromSlice data).run a) := by
  simp only [extendFromSlice, run_bind, run_get]
  cases hr : b.canDataBeResized a (satAdd 64 (b.getData a).length data.length) with
  | error e => rfl
  | ok _ =>
    obtain ⟨hr, hc⟩ := (canDataBeResized_ok b a _).mp hr
    simp only [run_ofExcept_ok, run_ite, run_bind, run_touch hi, run_updateAccountsResizeDelta, run_makeDataMut,
      run_modifyAccount, modifyView_modifyView]
    split
    · exact .none
    · rw [getData, account_touched hi, touched_addResizeDelta]
      -- the new length is within the limit, so the addition has not saturated
      have hn : satAdd 64 (b.getData a).length data.length = ((b.account a).data ++ data).length := by
        have := (TransactionAccounts.canDataBeResized_ok ..).mp hr |>.1
        simp only [satAdd, MAX_ACCOUNT_DATA_LEN, getData, length_append] at this ⊢
        omega
      rw [hn] at hr ⊢
      obtain ⟨g, hg⟩ := extendFromSlice_unshared (b.account a) data
      rw [Function.comp_apply, hg]
      exact .resize ⟨_, false, g⟩ hc hr

/-- `get_data_mut`: it fails without a change, or the program may change the account
and has the slice of its bytes. -/
theorem run_getDataMut : (∃ e, b.getDataMut.run a = .error e a) ∨
    b.MayChange a ∧ ∃ v, (b.account a).SliceWritten v ∧ v.data = (b.account a).data ∧
      b.getDataMut.run a = .ok () (a.put b.getIndexInTransaction v) := by
  simp only [getDataMut, run_bind, run_get]
  cases hc : b.canDataBeChanged a with
  | error e => exact .inl ⟨e, rfl⟩
  | ok _ =>
    refine .inr ⟨(canDataBeChanged_ok b a).mp hc, (unshared (b.account a)).dataAsMutSlice,
      (sliceWritten_unshared _).trans (TransactionAccountView.sliceWritten_dataAsMutSlice _), ?_, ?_⟩
    · rw [TransactionAccountView.dataAsMutSlice_data]
      unfold unshared
      split <;> rfl
    · simp only [run_ofExcept_ok, run_touch hi, run_makeDataMut, run_modifyAccount,
        touched_modifyView, put_modifyView]
      rfl

end

/-- Writes through the slice that `get_data_mut` returned are an effect. -/
theorem effect_writeSlice (h : b.MayChange a) {v : TransactionAccountView}
    (hv : (b.account a).SliceWritten v) (writes) :
    b.Effect a ((a.put b.getIndexInTransaction v).modifyView b.getIndexInTransaction (·.writeSlice writes)) := by
  rw [put_modifyView]
  exact .bytes _ h (hv.trans (v.sliceWritten_writeSlice writes))

theorem outcome_getDataMut (hi : b.getIndexInTransaction.toNat < a.len) (writes) :
    b.Outcome a ((AccountOp.run b (.getDataMut writes)).run a) := by
  simp only [AccountOp.run, run_bind]
  obtain ⟨e, he⟩ | ⟨hc, v, hv, -, he⟩ := run_getDataMut hi
  · rw [he]; rfl
  · rw [he]; exact effect_writeSlice hc hv writes

/-- `set_state` can fail with the slice in hand, and then it may have written. -/
theorem effect_setState (hi : b.getIndexInTransaction.toNat < a.len) (state) :
    b.Effect a (final (b.setState state) a) := by
  simp only [setState, final_bind]
  obtain ⟨e, he⟩ | ⟨hc, v, hv, -, he⟩ := run_getDataMut hi
  · rw [he]; exact .none
  · have hput : b.Effect a (a.put b.getIndexInTransaction v) := .bytes v hc hv
    rw [he]
    cases state.serializedSize with
    | none => exact hput
    | some n =>
      simp only [final_bind, run_get]
      split
      · exact hput
      · have hw := effect_writeSlice hc hv
          (state.serializeInto (b.getData (a.put b.getIndexInTransaction v))).1
        split <;> exact hw

end BorrowedInstructionAccount

open BorrowedInstructionAccount

section Operations

variable {b : BorrowedInstructionAccount} {a : TransactionAccounts}

variable (hi : b.getIndexInTransaction.toNat < a.len)

include hi

theorem AccountOp.outcome {op : AccountOp}
    (hop : ∀ state, op ≠ .setState state) : b.Outcome a ((op.run b).run a) := by
  cases op with
  | setOwner pubkey => exact outcome_setOwner hi pubkey
  | setLamports lamports => exact outcome_setLamports hi lamports
  | checkedAddLamports lamports => exact outcome_checkedAddLamports hi lamports
  | checkedSubLamports lamports => exact outcome_checkedSubLamports hi lamports
  | getDataMut writes => exact outcome_getDataMut hi writes
  | setDataFromSlice data => exact outcome_setDataFromSlice hi data
  | setDataLength newLength => exact outcome_setDataLength hi newLength
  | extendFromSlice data => exact outcome_extendFromSlice hi data
  | setState state => exact absurd rfl (hop state)
  | setExecutable isExecutable => exact outcome_setExecutable hi isExecutable

/-- Whether an operation fails or not, it has one of the effects. -/
theorem AccountOp.effect (op : AccountOp) : b.Effect a (final (op.run b) a) := by
  by_cases hop : ∀ state, op ≠ .setState state
  · have h := outcome hi hop
    simp only [final]
    cases hr : (op.run b).run a with
    | ok u a' => rw [hr] at h; exact h
    | error e a' => rw [hr] at h; cases h; exact .none
  · obtain ⟨state, rfl⟩ : ∃ state, op = .setState state := by simpa using hop
    exact effect_setState hi state

/-- An operation that fails has changed nothing, unless it is `set_state` with the
slice in hand. -/
theorem AccountOp.final_of_error {op : AccountOp} (he : result (op.run b) a = .error e)
    (hop : ∀ state, op = .setState state → result b.getDataMut a ≠ .ok ()) : final (op.run b) a = a := by
  by_cases hs : ∀ state, op ≠ .setState state
  · have h := outcome hi hs
    simp only [result, final] at he ⊢
    cases hr : (op.run b).run a with
    | ok u a' => simp [hr] at he
    | error e a' => rw [hr] at h; exact h
  · obtain ⟨state, rfl⟩ : ∃ state, op = .setState state := by simpa using hs
    have hg := hop state rfl
    simp only [AccountOp.run, BorrowedInstructionAccount.setState, final_bind]
    obtain ⟨e, he⟩ | ⟨-, v, -, -, he⟩ := run_getDataMut hi
    · rw [he]
    · exact absurd (by simp [result, he]) hg

namespace BorrowedInstructionAccount.Effect

omit hi

theorem len_eq (h : b.Effect a a') : a'.len = a.len := by
  cases h <;> first | rfl | exact len_put _ _

/-- Every other account is as it was. -/
theorem slot_ne (h : b.Effect a a') (hj : b.getIndexInTransaction ≠ j) : a'.slot j = a.slot j := by
  cases h <;> first | rfl | exact slot_modifySlot_ne _ hj _

theorem view_ne (h : b.Effect a a') (hj : b.getIndexInTransaction ≠ j) :
    a'.view j = a.view j := congrArg AccountSlot.view (h.slot_ne hj)

/-- No operation changes a key. -/
theorem accountKey_eq (hi : b.getIndexInTransaction.toNat < a.len) (h : b.Effect a a') (j) :
    a'.accountKey j = a.accountKey j := by
  have hkey : (a'.view j).key = (a.view j).key := by
    by_cases hj : b.getIndexInTransaction = j
    · subst hj
      cases h with
      | none => rfl
      | lamports l hw ho =>
        rw [view_put_self]
        · rfl
        · exact hi
      | owner pk h hz | executable e h => rw [view_put_self a hi]; rfl
      | bytes v h hv => rw [view_put_self a hi, hv.eq]; rfl
      | resize p h hp => rw [view_put_self (a.addResizeDelta _ _) hi]; rfl
    · rw [h.view_ne hj]
  rw [TransactionAccounts.accountKey_eq, TransactionAccounts.accountKey_eq, h.len_eq, hkey]

end BorrowedInstructionAccount.Effect

end Operations

end Svm
