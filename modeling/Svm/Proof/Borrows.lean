import Svm.Proof.Accounts

/-!
# Counting the guards of an account

`try_borrow` and `try_borrow_mut` return guards, and dropping a guard releases the
borrow. Over any sequence of these the counter of an account tells which guards of
it are live (`borrows_counted`).
-/

namespace Svm

open Machine Run TransactionAccounts List

/-- A guard of the account at an index. -/
inductive Guard where
  | AccountRef (index : UInt16)
  | AccountRefMut (index : UInt16)
  deriving DecidableEq

namespace Guard

def index : Guard → UInt16
  | AccountRef index | AccountRefMut index => index

def tryBorrow : Guard → AccountsM Unit
  | AccountRef index => TransactionAccounts.tryBorrow index
  | AccountRefMut index => tryBorrowMut index

def drop (a : TransactionAccounts) : Guard → TransactionAccounts
  | AccountRef index => a.releaseBorrow index
  | AccountRefMut index => a.releaseBorrowMut index

end Guard

inductive BorrowOp where
  | tryBorrow (guard : Guard)
  | drop (guard : Guard)

/-- The accounts, and the guards of them that are live. -/
structure BorrowState where
  accounts : TransactionAccounts
  live : List Guard

namespace BorrowState

def step : BorrowOp → BorrowState → BorrowState
  | .tryBorrow guard, s =>
    match guard.tryBorrow.run s.accounts with
    | .ok _ a => ⟨a, guard :: s.live⟩
    | .error _ a => ⟨a, s.live⟩
  | .drop guard, s => if guard ∈ s.live then ⟨guard.drop s.accounts, s.live.erase guard⟩ else s

/-- The number of shared guards of an account. -/
def shared (s : BorrowState) (i : UInt16) : Nat := s.live.count (.AccountRef i)

/-- The number of exclusive guards of an account. -/
def exclusive (s : BorrowState) (i : UInt16) : Nat := s.live.count (.AccountRefMut i)

def counter (s : BorrowState) (i : UInt16) : Int := (s.accounts.slot i).borrowCounter

end BorrowState

/-- What the counter of an account tells of its guards. -/
structure CountsGuards (s : BorrowState) (i : UInt16) : Prop where
  counter : s.counter i = if s.exclusive i = 1 then -1 else (s.shared i : Int)
  writing : s.counter i = -1 ↔ s.exclusive i = 1
  apart : s.shared i = 0 ∨ s.exclusive i = 0
  unique : s.exclusive i ≤ 1
  fails : (∃ e a, (tryBorrow i).run s.accounts = .error e a) ↔ s.exclusive i = 1 ∨ s.shared i = 127
  dropped : (∀ guard ∈ s.live, guard.index ≠ i) → s.counter i = 0

/-! ## Counters -/

/-- The counter of an account with `n` shared guards and `m` exclusive ones. -/
def Counts (c : Int) (n m : Nat) : Prop := m = 0 ∧ n ≤ 127 ∧ c = n ∨ m = 1 ∧ n = 0 ∧ c = -1

section Counts

theorem Counts.addReader (h : Counts c n m) (h0 : 0 ≤ c) (h1 : c + 1 ≤ iMax 8) : Counts (c + 1) (n + 1) m := by
  have : iMax 8 = 127 := rfl
  unfold Counts at *
  omega

theorem Counts.takeBorrow (h : Counts c n m) (h0 : c = 0) : Counts (-1) n (m + 1) := by
  unfold Counts at *
  omega

theorem Counts.releaseBorrow (h : Counts c n m) (hn : 0 < n) : Counts (BorrowCounter.releaseBorrow c) (n - 1) m := by
  have hmax : iMax 8 = 127 := rfl
  have hmin : iMin 8 = -128 := rfl
  unfold Counts at *
  rw [BorrowCounter.releaseBorrow, iSatSub_eq ⟨by omega, by omega⟩]
  omega

theorem Counts.releaseBorrowMut (h : Counts c n m) (hm : 0 < m) :
    Counts (BorrowCounter.releaseBorrowMut c) n (m - 1) := by
  have hmax : iMax 8 = 127 := rfl
  have hmin : iMin 8 = -128 := rfl
  unfold Counts at *
  rw [BorrowCounter.releaseBorrowMut, iSatAdd_eq ⟨by omega, by omega⟩]
  omega

end Counts

/-! ## Runs -/

namespace BorrowState

/-- The counters of `n` accounts count the guards, all of which are of these accounts. -/
structure Inv (n : Nat) (s : BorrowState) : Prop where
  len : s.accounts.len = n
  inRange : ∀ guard ∈ s.live, guard.index.toNat < n
  counts : ∀ i, i.toNat < n → Counts (s.counter i) (s.shared i) (s.exclusive i)

variable {s : BorrowState} {live : List Guard}

/-- A change of one slot and of the guards of its account. -/
theorem Inv.modifySlot (h : s.Inv n) (hi : i.toNat < n)
    (hlive : ∀ guard, guard.index ≠ i → live.count guard = s.live.count guard)
    (hcounts : Counts (f (s.accounts.slot i)).borrowCounter (live.count (.AccountRef i))
      (live.count (.AccountRefMut i))) : Inv n ⟨s.accounts.modifySlot i f, live⟩ := by
  refine ⟨(len_modifySlot ..).trans h.len, fun guard hguard => ?_, fun j hj => ?_⟩
  · by_cases hne : guard.index = i
    · rwa [hne]
    · rw [← count_pos_iff, hlive guard hne, count_pos_iff] at hguard
      exact h.inRange guard hguard
  · by_cases hne : j = i
    · subst hne
      rw [counter, slot_modifySlot_self _ (h.len ▸ hi)]
      exact hcounts
    · rw [counter, slot_modifySlot_ne _ (Ne.symm hne), shared, exclusive, hlive (.AccountRef j) hne,
        hlive (.AccountRefMut j) hne]
      exact h.counts j hj

theorem Inv.step (h : s.Inv n) (op) : (s.step op).Inv n := by
  have hother : ∀ guard guard' : Guard, guard'.index ≠ guard.index → guard' ≠ guard :=
    fun _ _ hne heq => hne (congrArg Guard.index heq)
  cases op with
  | tryBorrow guard =>
    have hcons : ∀ guard', guard'.index ≠ guard.index → (guard :: s.live).count guard' = s.live.count guard' :=
      fun guard' hne => count_cons_of_ne (hother guard guard' hne).symm
    cases guard with
    | AccountRef i =>
      rw [BorrowState.step, Guard.tryBorrow]
      obtain ⟨e, hrun⟩ | ⟨hi, h0, h1, hrun⟩ := tryBorrow_cases s.accounts i
      · rw [hrun]
        exact h
      · rw [hrun]
        rw [h.len] at hi
        refine h.modifySlot hi hcons ?_
        rw [count_cons_self]
        exact (h.counts i hi).addReader h0 h1
    | AccountRefMut i =>
      rw [BorrowState.step, Guard.tryBorrow]
      obtain ⟨e, hrun⟩ | ⟨hi, h0, hrun⟩ := tryBorrowMut_cases s.accounts i
      · rw [hrun]
        exact h
      · rw [hrun]
        rw [h.len] at hi
        refine h.modifySlot hi hcons ?_
        rw [count_cons_self]
        exact (h.counts i hi).takeBorrow h0
  | drop guard =>
    rw [BorrowState.step]
    split
    · rename_i hmem
      have hi := h.inRange guard hmem
      have hpos := count_pos_iff.mpr hmem
      have herase : ∀ guard', guard'.index ≠ guard.index →
          (s.live.erase guard).count guard' = s.live.count guard' :=
        fun guard' hne => count_erase_of_ne (hother guard guard' hne)
      cases guard with
      | AccountRef i =>
        refine h.modifySlot hi herase ?_
        rw [count_erase_self, count_erase_of_ne (by simp)]
        exact (h.counts i hi).releaseBorrow hpos
      | AccountRefMut i =>
        refine h.modifySlot hi herase ?_
        rw [count_erase_self, count_erase_of_ne (by simp)]
        exact (h.counts i hi).releaseBorrowMut hpos
    · exact h

theorem Inv.countsGuards (h : s.Inv n) (hi : i.toNat < n) : CountsGuards s i := by
  have hmax : iMax 8 = 127 := rfl
  have hc := h.counts i hi
  have hrun := run_tryBorrow s.accounts (h.len ▸ hi)
  rw [← counter] at hrun
  unfold Counts at hc
  refine ⟨?_, by omega, by omega, by omega, ?_, fun hdropped => ?_⟩
  · split <;> omega
  · rw [hrun]
    split
    · exact iff_of_false (by simp) (by omega)
    · exact iff_of_true ⟨_, _, rfl⟩ (by omega)
  · have hshared : s.shared i = 0 := count_eq_zero.mpr fun hmem => hdropped _ hmem rfl
    have hexclusive : s.exclusive i = 0 := count_eq_zero.mpr fun hmem => hdropped _ hmem rfl
    omega

end BorrowState

/-- The counters of the accounts tell the guards that are live, after any sequence of
borrows and drops. -/
theorem borrows_counted (accounts : List (Pubkey × AccountSharedData)) (ops : List BorrowOp) (i : UInt16)
    (hi : i.toNat < accounts.length) : CountsGuards (runs BorrowState.step ops ⟨.new accounts, []⟩) i := by
  have hnew : BorrowState.Inv accounts.length ⟨.new accounts, []⟩ := by
    have hlen : (TransactionAccounts.new accounts).len = accounts.length := by simp [len, TransactionAccounts.new]
    refine ⟨hlen, fun guard hguard => absurd hguard not_mem_nil, fun j hj => .inl ⟨rfl, Nat.zero_le _, ?_⟩⟩
    obtain ⟨⟨item, idx⟩, -, hslot⟩ := mem_map.mp (mem_of_getElem? (getElem?_slots (hlen ▸ hj)))
    rw [BorrowState.counter, ← hslot]
    rfl
  have hstep : ∀ op (s : BorrowState), s.Inv accounts.length → (s.step op).Inv accounts.length := fun op _ h => h.step op
  exact (runs_induction_all hstep ops hnew).countsGuards hi

/-- A shared guard that is dropped, and an exclusive one while which no other is given. -/
theorem borrows_counted_exclusive : CountsGuards (runs BorrowState.step [.tryBorrow (.AccountRef 0),
    .drop (.AccountRef 0), .tryBorrow (.AccountRefMut 0), .tryBorrow (.AccountRef 0)]
    ⟨.new [(.replicate 32 0, ⟨0, ⟨[], false, 0⟩, .replicate 32 0, false, 0⟩)], []⟩) 0 :=
  borrows_counted _ _ 0 (by decide)

end Svm
