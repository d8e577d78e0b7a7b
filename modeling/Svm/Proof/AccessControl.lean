import Svm.Proof.Session

/-!
# Account access control

Within one instruction, whatever its program does with the accounts it borrows:
an account the instruction may not write keeps every field; an account the
program does not own keeps its data, owner and executable flag, and loses no
lamports; and an owner changes only over zeroed data (`isZeroed_iff`: the test by
chunks is the test of every byte). `Respects` reads this off the effects of one
operation, `InstructionInv` carries it along a run.
-/

namespace Svm

open Machine Run TransactionAccounts Session

variable {ic : InstructionContext} {t : Nat} {op : SessionOp}

/-- The test by chunks and remainder is the test of every byte. -/
theorem isZeroed_iff (buf) : isZeroed buf = true ↔ ∀ byte ∈ buf, byte = 0 := by
  fun_induction isZeroed buf with
  | case1 buf h ih =>
    have hsplit : (∀ byte ∈ buf, byte = 0) ↔
        (∀ byte ∈ buf.take ZEROS_LEN, byte = 0) ∧ ∀ byte ∈ buf.drop ZEROS_LEN, byte = 0 := by
      rw [← List.forall_mem_append, List.take_append_drop]
    rw [Bool.and_eq_true, ih, beq_iff_eq, List.eq_replicate_iff, hsplit]
    simp [min_eq_left h]
  | case2 buf h =>
    rw [beq_iff_eq, List.eq_replicate_iff]
    simp

/-- No entry of the instruction lets it write the account. -/
def InstructionContext.NotWritable (ic : InstructionContext) (i : UInt16) : Prop :=
  ∀ account ∈ ic.instructionAccounts, account.indexInTransaction = i → account.isWritable = false

/-- What an instruction executing the program `programKey` may do to the accounts in
one step. -/
structure Respects (ic : InstructionContext) (programKey : Option Pubkey) (a a' : TransactionAccounts) : Prop where
  notWritable (i : UInt16) : ic.NotWritable i → a'.view i = a.view i
  notOwned (i : UInt16) : programKey ≠ some (a.view i).owner →
    (a'.view i).data = (a.view i).data ∧ (a'.view i).owner = (a.view i).owner ∧
    (a'.view i).executable = (a.view i).executable ∧ (a.view i).lamports ≤ (a'.view i).lamports
  owner (i : UInt16) : (a'.view i).owner ≠ (a.view i).owner → ∀ byte ∈ (a.view i).data, byte = 0

theorem Respects.of_views (h : ∀ i, a'.view i = a.view i) : Respects ic programKey a a' where
  notWritable i _ := h i
  notOwned i _ := by rw [h i]; exact ⟨rfl, rfl, rfl, UInt64.le_refl _⟩
  owner i hi := absurd (congrArg TransactionAccountView.owner (h i)) hi

/-! ## Operations -/

section Operations

variable {b : BorrowedInstructionAccount}

theorem isOwnedByCurrentProgram_iff : b.isOwnedByCurrentProgram a = true ↔
      a.accountKey b.indexInTransactionOfInstructionProgram = some (b.account a).owner := by
  unfold BorrowedInstructionAccount.isOwnedByCurrentProgram
  cases a.accountKey b.indexInTransactionOfInstructionProgram with
  | none => simp
  | some key => simp [BorrowedInstructionAccount.getOwner]

open BorrowedInstructionAccount in
/-- The borrowed account after an operation, where the operation changed anything. -/
theorem BorrowedInstructionAccount.Effect.account_cases (hi : b.getIndexInTransaction.toNat < a.len)
    (h : b.Effect a a') : a' = a ∨ b.isWritable = true ∧ ((∃ l, b.account a' = (b.account a).setLamports l ∧
        (b.isOwnedByCurrentProgram a = true ∨ b.getLamports a ≤ l)) ∨
       b.isOwnedByCurrentProgram a = true ∧ (b.account a').lamports = (b.account a).lamports ∧
        ((b.account a').owner ≠ (b.account a).owner →
          isZeroed (b.getData a) = true ∧ (b.account a').data = (b.account a).data)) := by
  cases h with
  | none => exact .inl rfl
  | lamports l hw ho =>
    refine .inr ⟨hw, .inl ⟨l, ?_, ho⟩⟩
    exact view_put_self (a.withLamportsDelta _) hi _
  | owner pk h hz =>
    refine .inr ⟨h.writable, .inr ⟨h.owned, ?_⟩⟩
    rw [account, view_put_self _ hi]
    exact ⟨rfl, fun _ => ⟨hz, rfl⟩⟩
  | executable e h =>
    refine .inr ⟨h.writable, .inr ⟨h.owned, ?_⟩⟩
    rw [account, view_put_self _ hi]
    exact ⟨rfl, fun hne => absurd rfl hne⟩
  | bytes v h hv =>
    refine .inr ⟨h.writable, .inr ⟨h.owned, ?_⟩⟩
    rw [account, view_put_self _ hi, hv.eq]
    exact ⟨rfl, fun hne => absurd rfl hne⟩
  | resize p h hp =>
    refine .inr ⟨h.writable, .inr ⟨h.owned, ?_⟩⟩
    rw [account, view_put_self (a.addResizeDelta _ _) hi]
    exact ⟨rfl, fun hne => absurd rfl hne⟩

/-- An operation on an account of the instruction respects it. -/
theorem BorrowedInstructionAccount.Effect.respects
    (hi : b.getIndexInTransaction.toNat < a.len) (hb : b.instructionAccount ∈ ic.instructionAccounts)
    (hkey : a.accountKey b.indexInTransactionOfInstructionProgram = programKey) (h : b.Effect a a') :
    Respects ic programKey a a' := by
  obtain rfl | ⟨hw, hcases⟩ := h.account_cases hi
  · exact .of_views fun _ => rfl
  have howned : b.isOwnedByCurrentProgram a = true ↔ programKey = some (b.account a).owner := by
    rw [isOwnedByCurrentProgram_iff, hkey]
  constructor
  · intro i hnot
    refine h.view_ne fun e => ?_
    have := hnot _ hb e
    rw [isWritable] at hw
    simp_all
  · intro i hnot
    by_cases hbi : b.getIndexInTransaction = i
    · subst hbi
      rcases hcases with ⟨l, hv, ho | hle⟩ | ⟨ho, -⟩
      · exact absurd (howned.mp ho) hnot
      · show (b.account a').data = _ ∧ (b.account a').owner = _ ∧ (b.account a').executable = _ ∧
          _ ≤ (b.account a').lamports
        rw [hv]
        exact ⟨rfl, rfl, rfl, hle⟩
      · exact absurd (howned.mp ho) hnot
    · rw [h.view_ne hbi]
      exact ⟨rfl, rfl, rfl, UInt64.le_refl _⟩
  · intro i hne
    by_cases hbi : b.getIndexInTransaction = i
    · subst hbi
      rcases hcases with ⟨l, hv, -⟩ | ⟨-, -, hz⟩
      · exact absurd (show (b.account a').owner = (b.account a).owner by rw [hv]; rfl) hne
      · exact (isZeroed_iff _).mp (hz hne).1
    · exact absurd (congrArg TransactionAccountView.owner (h.view_ne hbi)) hne

/-- An operation that changes an owner leaves the data. -/
theorem BorrowedInstructionAccount.Effect.data_of_owner (hi : b.getIndexInTransaction.toNat < a.len)
    (h : b.Effect a a') (hne : (a'.view i).owner ≠ (a.view i).owner) : (a'.view i).data = (a.view i).data := by
  by_cases hbi : b.getIndexInTransaction = i
  · subst hbi
    obtain rfl | ⟨-, ⟨l, hv, -⟩ | ⟨-, -, hz⟩⟩ := h.account_cases hi
    · rfl
    · show (b.account a').data = _
      rw [hv]
      rfl
    · exact (hz hne).2
  · rw [h.view_ne hbi]

end Operations

/-! ## Runs within an instruction -/

/-- The operations a program performs within the instruction at an index in the
trace: it borrows accounts through it, operates on them and gives them back. -/
def InInstruction (indexInTrace : Nat) : SessionOp → Prop
  | .borrow t _ => t = indexInTrace
  | .drop _ => True
  | .call _ _ => True
  | _ => False

/-- A session within the instruction `ic`, which began as `s0`. -/
structure InstructionInv (s0 : Session) (ic : InstructionContext) (s : Session) : Prop where
  wf : s.Wf
  ctx : s.ctx = { s0.ctx with accounts := s.accounts }
  borrows : ∀ b ∈ s.borrows, b.instructionAccount ∈ ic.instructionAccounts ∧
    b.indexInTransactionOfInstructionProgram = ic.programAccountIndexInTx
  keys (i : UInt16) : s.accounts.accountKey i = s0.accounts.accountKey i

/-- A step within the instruction leaves the views, or has an effect of a borrow. -/
theorem InstructionInv.step_cases (h : InstructionInv s0 ic s) (ext) (hop : InInstruction t op) :
    (∀ i, (s.step ext op).accounts.view i = s.accounts.view i) ∧ (s.step ext op).accounts.len = s.accounts.len ∨
    ∃ b ∈ s.borrows, b.Effect s.accounts (s.step ext op).accounts := by
  have hlen := (step_accounts ext h.wf.borrows op).len_eq
  cases op with
  | borrow t' k =>
    refine .inl ⟨fun i => ?_, hlen⟩
    rw [step]
    obtain hs | ⟨ic, account, -, -, -, hs⟩ := s.borrow_cases t' k
    · rw [hs]
    · rw [hs]; exact view_modifySlot_eq _ (fun _ => rfl) i
  | drop j =>
    refine .inl ⟨fun i => ?_, hlen⟩
    simp only [step]
    split
    · -- the published length is set to what it is
      refine view_modifySlot_eq _ (fun hi => ?_) i
      have hs : Synced (s.accounts.view _) := h.wf.synced.view hi
      exact congrArg (TransactionAccountView.setLen _) (Eq.symm hs)
    · rfl
  | call j op =>
    simp only [step]
    split
    · rename_i b hb
      have hb := List.mem_of_getElem? hb
      exact .inr ⟨b, hb, op.effect (h.wf.borrows b hb)⟩
    · exact .inl ⟨fun _ => rfl, rfl⟩
  | configure | push | pop | handle => exact hop.elim

theorem InstructionInv.respects (h : InstructionInv s0 ic s) (ext) (hop : InInstruction t op) :
    Respects ic (s0.accounts.accountKey ic.programAccountIndexInTx) s.accounts (s.step ext op).accounts := by
  obtain ⟨hviews, -⟩ | ⟨b, hb, he⟩ := h.step_cases ext hop
  · exact .of_views hviews
  · obtain ⟨hmem, hprogram⟩ := h.borrows b hb
    exact he.respects (h.wf.borrows b hb) hmem (by rw [hprogram, h.keys])

/-- A step within the instruction changes the context in its accounts only. -/
theorem InInstruction.step_ctx (hop : InInstruction t op) (ext) (s : Session) :
    (s.step ext op).ctx = { s.ctx with accounts := (s.step ext op).accounts } := by
  cases op with
  | borrow t' k =>
    rw [step]
    obtain hs | ⟨ic, account, -, -, -, hs⟩ := s.borrow_cases t' k <;> rw [hs] <;> rfl
  | drop j | call j op => simp only [step]; split <;> rfl
  | configure | push | pop | handle => exact hop.elim

theorem InstructionInv.step (ext)
    (hic : s0.ctx.getInstructionContextAtIndexInTrace t = .ok ic) (h : InstructionInv s0 ic s)
    (hop : InInstruction t op) : InstructionInv s0 ic (s.step ext op) := by
  refine ⟨h.wf.step ext op, ?_, ?_, fun i => ?_⟩
  · rw [hop.step_ctx ext s, h.ctx]
  · intro b hb
    cases op with
    | borrow t' k =>
      obtain rfl : t' = t := hop
      rw [step] at hb
      obtain hs | ⟨ic', account, hic', hk, -, hs⟩ := s.borrow_cases t' k
      · rw [hs] at hb; exact h.borrows b hb
      · -- the instruction is the one the run began in
        have hsame : s.ctx.getInstructionContextAtIndexInTrace t' =
            s0.ctx.getInstructionContextAtIndexInTrace t' := by rw [h.ctx]; rfl
        obtain rfl : ic' = ic := by
          rw [hsame, hic] at hic'
          exact (Except.ok.inj hic').symm
        rw [hs] at hb
        rcases List.mem_append.mp hb with hb | hb
        · exact h.borrows b hb
        · rw [List.mem_singleton.mp hb]
          exact ⟨List.mem_of_getElem? hk, rfl⟩
    | drop j =>
      simp only [step] at hb
      split at hb
      · exact h.borrows b (List.mem_of_mem_eraseIdx hb)
      · exact h.borrows b hb
    | call j op =>
      simp only [step] at hb
      split at hb <;> exact h.borrows b hb
    | configure | push | pop | handle => exact hop.elim
  · rw [← h.keys i]
    obtain ⟨hviews, hlen⟩ | ⟨b, hb, he⟩ := h.step_cases ext hop
    · rw [accountKey_eq, accountKey_eq, hlen, hviews]
    · exact he.accountKey_eq (h.wf.borrows b hb) i

/-- Access control: over any run within an instruction of any session. An account
the instruction may not write is as it was before the run; in each step an account
the program does not own keeps its data, owner and executable flag and loses no
lamports, and an owner changes only where every byte is zero; and an operation that
fails leaves the accounts as they are. -/
theorem access_controlled (ext : Externals) (accounts : List (Pubkey × AccountSharedData)) (rent : Rent)
    (stackCapacity traceCapacity topLevel : Nat) (before ops : List SessionOp) (t : Nat) (ic : InstructionContext)
    (hborrows : (Session.run ext before
      (.new (.new accounts rent stackCapacity traceCapacity topLevel))).borrows = [])
    (hic : TransactionContext.getInstructionContextAtIndexInTrace (Session.run ext before
      (.new (.new accounts rent stackCapacity traceCapacity topLevel))).ctx t = .ok ic)
    (hops : ∀ op ∈ ops, InInstruction t op) :
    let s₀ := Session.run ext before (.new (.new accounts rent stackCapacity traceCapacity topLevel))
    let s := s₀.run ext ops
    let programKey := s₀.accounts.accountKey ic.programAccountIndexInTx
    (∀ i, ic.NotWritable i → s.accounts.view i = s₀.accounts.view i) ∧
    (∀ op, InInstruction t op →
      let s' := s.step ext op
      ∀ i, (programKey ≠ some (s.accounts.view i).owner →
          (s'.accounts.view i).data = (s.accounts.view i).data ∧
          (s'.accounts.view i).owner = (s.accounts.view i).owner ∧
          (s'.accounts.view i).executable = (s.accounts.view i).executable ∧
          (s.accounts.view i).lamports ≤ (s'.accounts.view i).lamports) ∧
        ((s'.accounts.view i).owner ≠ (s.accounts.view i).owner →
          ∀ byte ∈ (s.accounts.view i).data, byte = 0)) ∧
    ∀ b ∈ s.borrows, ∀ op e, result (AccountOp.run b op) s.accounts = .error e →
      (∀ state, op = .setState state → result b.getDataMut s.accounts ≠ .ok ()) →
      final (AccountOp.run b op) s.accounts = s.accounts := by
  intro s₀ s programKey
  have h₀ : InstructionInv s₀ ic s₀ := by
    refine ⟨(wf_new accounts rent stackCapacity traceCapacity topLevel).run ext before, rfl, ?_,
      fun _ => rfl⟩
    intro b hb
    rw [hborrows] at hb
    cases hb
  have hrun : InstructionInv s₀ ic s ∧ ∀ i, ic.NotWritable i → s.accounts.view i = s₀.accounts.view i := by
    refine runs_induction (P := fun op _ => InInstruction t op)
      (I := fun s => InstructionInv s₀ ic s ∧ ∀ i, ic.NotWritable i → s.accounts.view i = s₀.accounts.view i)
      (fun op s hop h => ?_) ?_ ⟨h₀, fun _ _ => rfl⟩
    · exact ⟨h.1.step ext hic hop,
        fun i hi => ((h.1.respects ext hop).notWritable i hi).trans (h.2 i hi)⟩
    · exact admitted_of_forall hops
  obtain ⟨hinv, hread⟩ := hrun
  refine ⟨hread, ?_, ?_⟩
  · intro op hop s' i
    exact ⟨(hinv.respects ext hop).notOwned i, (hinv.respects ext hop).owner i⟩
  · intro b hb op e he hstate
    exact AccountOp.final_of_error (hinv.wf.borrows b hb) he hstate

/-- A program that is given one read-only account and tries to take its lamports. -/
theorem access_controlled_readonly :
    let account : AccountSharedData :=
      { lamports := 9, data := ⟨[7], false, 0⟩, owner := .replicate 32 1, executable := false, rentEpoch := 0 }
    let accounts : List (Pubkey × AccountSharedData) := [(.replicate 32 1, account)]
    let rent : Rent := ⟨fun _ _ => true⟩
    let ext : Externals := ⟨.replicate 32 2, .replicate 32 3, fun _ _ => ([], .ok ()), fun _ _ => 0⟩
    let before : List SessionOp := [.configure 0 0 [⟨0, true, false⟩] [0] [] none, .push]
    let s₀ := run ext before (.new (.new accounts rent 5 64 1))
    (s₀.run ext [.borrow 0 0, .call 0 (.setLamports 0), .drop 0]).accounts.view 0 = s₀.accounts.view 0 := by
  intro account accounts rent ext before s₀
  refine (access_controlled ext accounts rent 5 64 1 before [.borrow 0 0, .call 0 (.setLamports 0), .drop 0] 0
    ⟨0, 0, 65535, 0, [⟨0, true, false⟩], [0], []⟩ rfl rfl ?_).1 0 ?_
  · intro op hop
    simp only [List.mem_cons, List.not_mem_nil, or_false] at hop
    rcases hop with rfl | rfl | rfl
    · rfl
    · trivial
    · trivial
  · intro a ha _
    rw [List.mem_singleton.mp ha]

end Svm
