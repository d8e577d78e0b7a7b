import Svm.Proof.Session

/-!
# Resize accounting

`resize_delta` is the exact change of the accounts' total length in every
session whose handler calls are made with at least the account's length
reserved (`ResizeInv.step`). Both ways an account grows keep it below the
transaction's limit: the setters check it, the handler takes what is left.
-/

namespace Svm

open Machine Run TransactionAccountView TransactionAccounts Session

namespace TransactionAccounts

/-- The lengths of all accounts together. -/
def totalLen (a : TransactionAccounts) : Int := a.sum fun v => v.data.length

end TransactionAccounts

theorem quietMeasure_length : QuietMeasure fun v => v.data.length := fun _ _ _ h => h

/-- The handler is called with at least the length of the region's account reserved. -/
def HandlerReserves : SessionOp → Session → Prop
  | .handle _ _ region reserved _ _ _, s =>
    ∀ i, region.accessViolationHandlerPayload = some i → (s.accounts.view i).data.length ≤ reserved.toNat
  | _, _ => True

/-- The lengths of a session that began with the accounts `init`. -/
structure ResizeInv (init : TransactionAccounts) (s : Session) : Prop where
  borrows : s.BorrowsInRange
  delta : s.accounts.resizeDelta = s.accounts.totalLen - init.totalLen
  le_limit : s.accounts.resizeDelta ≤ MAX_ACCOUNT_DATA_GROWTH_PER_TRANSACTION
  lengths : s.accounts.All fun v => v.data.length ≤ MAX_ACCOUNT_DATA_LEN
  lengths_init : init.All fun v => v.data.length ≤ MAX_ACCOUNT_DATA_LEN
  tail : s.accounts.tail (fun v => v.data.length) = init.tail fun v => v.data.length

namespace ResizeInv

variable {init : TransactionAccounts} {s : Session}

variable (h : ResizeInv init s)

include h

theorem delta_bound : -2 ^ 40 ≤ s.accounts.resizeDelta ∧ s.accounts.resizeDelta ≤ 2 ^ 40 := by
  have h1 := sum_near h.lengths h.tail
  have h2 := sum_near h.lengths_init h.tail.symm
  have hd := h.delta
  simp only [totalLen, MAX_ACCOUNT_DATA_LEN] at hd h1 h2
  omega

/-- Within the limits, the saturating update of the delta is exact. -/
theorem addResizeDelta_eq (ho : oldLen ≤ MAX_ACCOUNT_DATA_LEN) (hn : newLen ≤ MAX_ACCOUNT_DATA_LEN) :
    (s.accounts.addResizeDelta oldLen newLen).resizeDelta = s.accounts.resizeDelta + (newLen - oldLen) := by
  have hb := h.delta_bound
  simp only [MAX_ACCOUNT_DATA_LEN] at ho hn
  rw [addResizeDelta]
  rw [asSigned_eq (by omega), asSigned_eq (by omega), iSatSub_eq, iSatAdd_eq]
  all_goals refine ⟨?_, ?_⟩ <;> simp only [iMin, iMax] <;> omega

/-- An account within the limits gets a new length, within the limits too. -/
theorem resized (hi : i.toNat < s.accounts.len) (hlen : p.bytes.length ≤ MAX_ACCOUNT_DATA_LEN)
    (hlimit : s.accounts.resizeDelta + (p.bytes.length - (s.accounts.view i).data.length) ≤
      MAX_ACCOUNT_DATA_GROWTH_PER_TRANSACTION)
    (hq : Quiet ((s.accounts.addResizeDelta (s.accounts.view i).data.length p.bytes.length).put i
      ((s.accounts.view i).withData p p.bytes.length)) a') : a'.resizeDelta = a'.totalLen - init.totalLen ∧
    a'.resizeDelta ≤ MAX_ACCOUNT_DATA_GROWTH_PER_TRANSACTION ∧
    a'.All fun v => v.data.length ≤ MAX_ACCOUNT_DATA_LEN := by
  have hdelta := h.addResizeDelta_eq (h.lengths.view hi) hlen
  have hsum : a'.totalLen = s.accounts.totalLen + (p.bytes.length - (s.accounts.view i).data.length) := by
    refine (hq.sum_eq quietMeasure_length).trans ?_
    exact sum_addResizeDelta_put _ _ hi _ _ _
  have hd : a'.resizeDelta = s.accounts.resizeDelta + (p.bytes.length - (s.accounts.view i).data.length) :=
    hq.resizeDelta.trans hdelta
  refine ⟨?_, by omega, ?_⟩
  · rw [hd, h.delta]; omega
  · refine hq.all (fun s s' hs hle => ?_) (All.put h.lengths hlen)
    obtain ⟨p, n, e, l, -⟩ := hs
    rw [e]
    exact l.trans_le hle

/-- The length the handler gives an account: no less than it has, and within both
limits. -/
theorem handledLen_bounds (ho : oldLen ≤ MAX_ACCOUNT_DATA_LEN) (hr : oldLen ≤ reserved) :
    oldLen ≤ handledLen reserved oldLen s.accounts.resizeDelta ∧
    handledLen reserved oldLen s.accounts.resizeDelta ≤ MAX_ACCOUNT_DATA_LEN ∧
    s.accounts.resizeDelta + (handledLen reserved oldLen s.accounts.resizeDelta - oldLen) ≤
      MAX_ACCOUNT_DATA_GROWTH_PER_TRANSACTION := by
  have hb := h.delta_bound
  have hl := h.le_limit
  have hg : iSatSub 64 MAX_ACCOUNT_DATA_GROWTH_PER_TRANSACTION s.accounts.resizeDelta =
      MAX_ACCOUNT_DATA_GROWTH_PER_TRANSACTION - s.accounts.resizeDelta := by
    refine iSatSub_eq ⟨?_, ?_⟩ <;>
      simp only [iMin, iMax, MAX_ACCOUNT_DATA_GROWTH_PER_TRANSACTION, MAX_ACCOUNT_DATA_LEN] at hl ⊢ <;> omega
  simp only [handledLen, remainingAllowedGrowth, satAdd]
  simp only [MAX_ACCOUNT_DATA_LEN] at ho hl ⊢
  omega

theorem step (ext) (op) (hop : HandlerReserves op s) : ResizeInv init (s.step ext op) := by
  have hstep := step_accounts ext h.borrows op
  suffices hs : (s.step ext op).accounts.resizeDelta = (s.step ext op).accounts.totalLen - init.totalLen ∧
      (s.step ext op).accounts.resizeDelta ≤ MAX_ACCOUNT_DATA_GROWTH_PER_TRANSACTION ∧
      (s.step ext op).accounts.All fun v => v.data.length ≤ MAX_ACCOUNT_DATA_LEN from
    ⟨borrowsInRange_step ext h.borrows op, hs.1, hs.2.1, hs.2.2, h.lengths_init,
      (hstep.tail_eq quietMeasure_length).trans h.tail⟩
  generalize (s.step ext op).accounts = a' at hstep
  cases hstep with
  | quiet hq =>
    refine ⟨?_, hq.resizeDelta.trans_le h.le_limit, hq.all (fun s s' hs hle => ?_) h.lengths⟩
    · have : a'.totalLen = s.accounts.totalLen := hq.sum_eq quietMeasure_length
      rw [hq.resizeDelta, this, h.delta]
    · obtain ⟨p, n, e, l, -⟩ := hs
      rw [e]
      exact l.trans_le hle
  | effect b hb he =>
    have hi := h.borrows b hb
    have hlen : (b.account s.accounts).data.length ≤ MAX_ACCOUNT_DATA_LEN := h.lengths.view hi
    -- a write that leaves the length leaves the sum and the delta
    have hkeep {v : TransactionAccountView} (hv : v.data.length = (b.account s.accounts).data.length) :
        s.accounts.resizeDelta = (s.accounts.put b.getIndexInTransaction v).totalLen - init.totalLen ∧
        s.accounts.resizeDelta ≤ MAX_ACCOUNT_DATA_GROWTH_PER_TRANSACTION ∧
        (s.accounts.put b.getIndexInTransaction v).All fun v => v.data.length ≤ MAX_ACCOUNT_DATA_LEN := by
      refine ⟨?_, h.le_limit, h.lengths.put (hv.trans_le hlen)⟩
      have hsum : (s.accounts.put b.getIndexInTransaction v).totalLen =
          s.accounts.totalLen + (v.data.length - ((b.account s.accounts).data.length)) :=
        sum_put _ _ hi v
      rw [h.delta]; omega
    cases he with
    | none => exact ⟨h.delta, h.le_limit, h.lengths⟩
    | lamports l hw ho => exact hkeep (setLamports_data _ l ▸ rfl)
    | owner pk hc hz => exact hkeep (setOwner_data _ pk ▸ rfl)
    | executable e hc => exact hkeep (setExecutable_data _ e ▸ rfl)
    | bytes v hc hv => exact hkeep hv.length
    | resize p hc hp =>
      obtain ⟨hle, hlimit⟩ := (canDataBeResized_ok ..).mp hp
      refine h.resized hi hle ?_ (.refl _)
      exact (h.addResizeDelta_eq hlen hle).symm.trans_le hlimit
  | handled vasa dm region reserved accessType vmAddr len i hop' hpay hh =>
    subst hop'
    obtain ⟨hi, p, hp, hq⟩ := hh
    obtain ⟨-, hle, hlimit⟩ := h.handledLen_bounds (h.lengths.view hi) (hop i hpay)
    exact h.resized hi (hp ▸ hle) (hp ▸ hlimit) hq

end ResizeInv

/-- No handler call that reserves the account's length shortens an account. -/
theorem ResizeInv.handle_grows (h : ResizeInv init s) (ext) {len : UInt64}
    (hop : HandlerReserves (.handle vasa dm region reserved accessType vmAddr len) s) (j) :
    (s.accounts.view j).data.length ≤
      ((s.step ext (.handle vasa dm region reserved accessType vmAddr len)).accounts.view j).data.length := by
  have hstep := accessViolationHandler_accounts ext vasa dm s.accounts region reserved accessType vmAddr len
  show _ ≤ ((accessViolationHandler ext vasa dm s.accounts region reserved accessType vmAddr len).1.view j).data.length
  rcases hstep with hq | ⟨i, hi, hr, p, hp, hq⟩
  · exact (hq.length_view j).ge
  · rw [hq.length_view j]
    by_cases hj : i = j
    · subst hj
      rw [view_put_self (s.accounts.addResizeDelta _ _) hr, withData_data, hp]
      exact (h.handledLen_bounds (h.lengths.view hr) (hop i hi)).1
    · rw [view_put_ne _ hj]
      exact le_refl _

/-- Resize accounting: the delta is the exact change of the total length and stays
within the transaction's limit, every account stays within the account limit and,
with no borrow live, has its length published; and no handler call shortens one. -/
theorem resize_accounted (ext : Externals) (accounts : List (Pubkey × AccountSharedData)) (rent : Rent)
    (stackCapacity traceCapacity topLevel : Nat) (ops : List SessionOp)
    (hlen : ∀ account ∈ accounts, account.2.data.bytes.length ≤ MAX_ACCOUNT_DATA_LEN)
    (hops : Admitted (Session.step ext) HandlerReserves ops
      (.new (.new accounts rent stackCapacity traceCapacity topLevel))) :
    let s := Session.run ext ops (.new (.new accounts rent stackCapacity traceCapacity topLevel))
    s.accounts.resizeDelta =
      s.accounts.totalLen - total (fun account => account.2.data.bytes.length) accounts ∧
    s.accounts.resizeDelta ≤ MAX_ACCOUNT_DATA_GROWTH_PER_TRANSACTION ∧
    (∀ slot ∈ s.accounts.slots, slot.view.data.length ≤ MAX_ACCOUNT_DATA_LEN) ∧
    (s.borrows = [] → ∀ slot ∈ s.accounts.slots, slot.view.publishedLen = slot.view.data.length) ∧
    ∀ vasa dm region reserved accessType vmAddr len,
      HandlerReserves (.handle vasa dm region reserved accessType vmAddr len) s →
      ∀ j, (s.accounts.view j).data.length ≤
        ((s.step ext (.handle vasa dm region reserved accessType vmAddr len)).accounts.view j).data.length := by
  intro s
  have hnew : ResizeInv (.new accounts) (.new (.new accounts rent stackCapacity traceCapacity topLevel)) := by
    have hall : (new accounts).All fun v => v.data.length ≤ MAX_ACCOUNT_DATA_LEN :=
      all_new fun item hitem _ => hlen item hitem
    refine ⟨(wf_new accounts rent stackCapacity traceCapacity topLevel).borrows, ?_, ?_, hall, hall, rfl⟩
    · show 0 = (new accounts).totalLen - _
      omega
    · show 0 ≤ _
      decide
  have hinv : ResizeInv (.new accounts) s := runs_induction (fun op _ hop h => h.step ext op hop) hops hnew
  have hwf : s.Wf := (wf_new accounts rent stackCapacity traceCapacity topLevel).run ext ops
  have hinitial : (new accounts).totalLen =
      total (fun account => account.2.data.bytes.length) accounts :=
    sum_new (fun _ _ => rfl) accounts
  refine ⟨hinitial ▸ hinv.delta, hinv.le_limit, hinv.lengths, fun _ => hwf.synced, ?_⟩
  intro vasa dm region reserved accessType vmAddr len hop j
  exact hinv.handle_grows ext hop j

/-- One byte of account zero, grown by a handler call for a store behind it. -/
theorem resize_accounted_handle :
    let account : AccountSharedData :=
      { lamports := 1, data := ⟨[7], false, 0⟩, owner := .replicate 32 0, executable := false, rentEpoch := 0 }
    let accounts : List (Pubkey × AccountSharedData) := [(.replicate 32 1, account)]
    let rent : Rent := ⟨fun _ _ => true⟩
    let ext : Externals := ⟨.replicate 32 2, .replicate 32 3, fun _ _ => ([], .ok ()), fun _ _ => 0⟩
    let region : Sbpf.MemoryRegion := { Sbpf.MemoryRegion.new 0 1 true 0x400000000 with
      accessViolationHandlerPayload := some 0 }
    let ops : List SessionOp := [.handle true false region 4096 .Store 0x400000001 1]
    let s := run ext ops (.new (.new accounts rent 5 64 1))
    s.accounts.resizeDelta = s.accounts.totalLen - 1 := by
  intro account accounts rent ext region ops s
  refine (resize_accounted ext accounts rent 5 64 1 ops ?_ ⟨?_, trivial⟩).1
  · intro a ha
    rw [List.mem_singleton.mp ha]
    decide
  · rintro i ⟨⟩
    decide

end Svm
