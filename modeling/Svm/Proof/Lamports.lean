import Svm.Proof.Session

/-!
# Lamport conservation

`lamports_delta` is the exact difference between the lamports the accounts have
and those they had at first, in every state of every session
(`LamportsInv.step`). It never overflows, because only accounts that a `u16`
index reaches can change; so a `pop` that succeeds, and a nested `push` that
passes its check, find the sum as it was.
-/

namespace Svm

open Machine Run TransactionContext EStateM TransactionAccountView

variable {ctx : TransactionContext} {init : TransactionAccounts} {s : Session}

namespace TransactionAccounts

/-- The lamports of all accounts together. -/
def totalLamports (a : TransactionAccounts) : Int := a.sum fun v => v.lamports.toNat

end TransactionAccounts

theorem quietMeasure_lamports : QuietMeasure fun v => v.lamports.toNat := fun _ _ _ _ => rfl

/-- The delta of a session that began with the accounts `init`. -/
structure LamportsInv (init : TransactionAccounts) (s : Session) : Prop where
  borrows : s.BorrowsInRange
  delta : s.accounts.lamportsDelta = s.accounts.totalLamports - init.totalLamports
  tail : s.accounts.tail (fun v => v.lamports.toNat) = init.tail fun v => v.lamports.toNat

open TransactionAccounts BorrowedInstructionAccount in
/-- An operation moves the delta by what it moves the sum. -/
theorem BorrowedInstructionAccount.Effect.lamports_eq {b : BorrowedInstructionAccount}
    (hi : b.getIndexInTransaction.toNat < a.len) (h : b.Effect a a') :
    a'.lamportsDelta - a.lamportsDelta = a'.totalLamports - a.totalLamports := by
  -- the sum reads the slots only, and one of them is written
  have hsum (v : TransactionAccountView) : (a.put b.getIndexInTransaction v).totalLamports =
      a.totalLamports + (v.lamports.toNat - ((b.account a).lamports.toNat)) :=
    sum_put a (fun v => v.lamports.toNat) hi v
  have hsame {v : TransactionAccountView} (hv : v.lamports = (b.account a).lamports) :
      a.lamportsDelta - a.lamportsDelta =
        (a.put b.getIndexInTransaction v).totalLamports - a.totalLamports := by
    rw [hsum, hv]; omega
  cases h with
  | none => omega
  | lamports l hw ho =>
    show a.lamportsDelta + (l.toNat - ((b.account a).lamports.toNat)) - a.lamportsDelta =
      (a.put b.getIndexInTransaction ((b.account a).setLamports l)).totalLamports - a.totalLamports
    rw [hsum, setLamports_lamports]; omega
  | owner pk h hz => exact hsame (setOwner_lamports _ pk)
  | executable e h => exact hsame (setExecutable_lamports _ e)
  | bytes v h hv => exact hsame (by rw [hv.eq]; rfl)
  | resize p h hp => exact hsame (withData_lamports _ p _)

theorem LamportsInv.step (h : LamportsInv init s) (ext)
    (op) : LamportsInv init (s.step ext op) := by
  have hstep := Session.step_accounts ext h.borrows op
  refine ⟨Session.borrowsInRange_step ext h.borrows op, ?_, (hstep.tail_eq quietMeasure_lamports).trans h.tail⟩
  have hdelta := h.delta
  cases hstep with
  | quiet hq =>
    have : (Session.step ext op s).accounts.totalLamports = s.accounts.totalLamports :=
      hq.sum_eq quietMeasure_lamports
    rw [hq.lamportsDelta, this, hdelta]
  | effect b hb he =>
    have := he.lamports_eq (h.borrows b hb)
    omega
  | handled vasa dm region reserved accessType vmAddr len i _ _ hh =>
    obtain ⟨hi, p, -, hq⟩ := hh
    have hsum : (Session.step ext op s).accounts.totalLamports = s.accounts.totalLamports := by
      refine (hq.sum_eq quietMeasure_lamports).trans ?_
      rw [TransactionAccounts.sum_addResizeDelta_put _ _ hi, withData_lamports]
      show s.accounts.totalLamports + _ = s.accounts.totalLamports
      omega
    rw [hq.lamportsDelta, hsum]
    exact hdelta

theorem LamportsInv.new (ctx) (h : ctx.accounts.lamportsDelta = 0) :
    LamportsInv ctx.accounts (.new ctx) :=
  ⟨fun b hb => by simp [Session.new] at hb, by simp [Session.new, Session.accounts, h], rfl⟩

/-- The delta stays far inside an `i128`. -/
theorem LamportsInv.delta_bound (h : LamportsInv init s) :
    -2 ^ 80 ≤ s.accounts.lamportsDelta ∧ s.accounts.lamportsDelta ≤ 2 ^ 80 := by
  have hle (v : TransactionAccountView) : v.lamports.toNat ≤ 2 ^ 64 := v.lamports.toNat_lt.le
  have hall (a : TransactionAccounts) : a.All fun v => v.lamports.toNat ≤ 2 ^ 64 := fun s _ => hle s.view
  have h1 := TransactionAccounts.sum_near (hall _) h.tail
  have h2 := TransactionAccounts.sum_near (hall _) h.tail.symm
  have hd := h.delta
  simp only [TransactionAccounts.totalLamports] at hd
  omega

/-- No balance a setter can ask for overflows the delta. -/
theorem LamportsInv.run_addLamportsDelta (h : LamportsInv init s) (new old : UInt64) :
    result (TransactionAccounts.addLamportsDelta (iSatSub 128 new.toNat old.toNat)) s.accounts = .ok () := by
  have hb := h.delta_bound
  have hn := new.toNat_lt
  have ho := old.toNat_lt
  have hs : iSatSub 128 new.toNat old.toNat = new.toNat - old.toNat := by
    refine iSatSub_eq ⟨?_, ?_⟩ <;> simp only [iMin, iMax] <;> omega
  have hc : InRange 128 (s.accounts.lamportsDelta + (new.toNat - old.toNat)) := by
    refine ⟨?_, ?_⟩ <;> simp only [iMin, iMax] <;> omega
  simp [result, TransactionAccounts.addLamportsDelta, hs, iCheckedAdd_eq hc]

/-- The check of `pop` reports whether the delta is zero. -/
theorem detectUnbalancedInstruction_eq (h : result detectUnbalancedInstruction ctx = .ok unbalanced) :
    unbalanced = decide (ctx.accounts.lamportsDelta ≠ 0) := by
  obtain ⟨e, he⟩ | ⟨i, he⟩ := detectUnbalancedInstruction_cases ctx
  · rw [result, he] at h
    cases h
  · rw [result, he] at h
    exact (Except.ok.inj h).symm

/-- A `pop` succeeds only if the delta is zero. -/
theorem lamportsDelta_of_pop (h : result pop ctx = .ok ()) : ctx.accounts.lamportsDelta = 0 := by
  have h := result_ok.mp h
  simp only [pop, run_bind, run_get, run_ite, run_attempt] at h
  split at h
  · cases h
  cases hd : result detectUnbalancedInstruction ctx with
  | error e => rw [hd] at h; cases h
  | ok unbalanced =>
    have hu := detectUnbalancedInstruction_eq hd
    cases unbalanced with
    | false => simpa using hu.symm
    | true => rw [hd] at h; cases h

theorem lamportsDelta_of_push {ext : Externals} (hs : ctx.instructionStack ≠ [])
    (h : (push ext).run ctx ≠ .error .UnbalancedInstruction ctx) : ctx.accounts.lamportsDelta = 0 := by
  by_contra hd
  refine h ?_
  simp [push, hs, hd]

/-- Lamport conservation: whatever a session does, the delta is the exact change of
the sum; no change of a balance overflows it; and where `pop` succeeds, or a nested
`push` is not stopped by its check, the sum is the initial one. -/
theorem lamports_conserved (ext : Externals) (accounts : List (Pubkey × AccountSharedData)) (rent : Rent)
    (stackCapacity traceCapacity topLevel : Nat) (ops : List SessionOp) :
    let ctx₀ := TransactionContext.new accounts rent stackCapacity traceCapacity topLevel
    let s := Session.run ext ops (.new ctx₀)
    let initial := total (fun account => account.2.lamports.toNat) accounts
    s.accounts.lamportsDelta = s.accounts.totalLamports - initial ∧
    (∀ new old : UInt64,
      result (TransactionAccounts.addLamportsDelta (iSatSub 128 new.toNat old.toNat)) s.accounts = .ok ()) ∧
    (result pop s.ctx = .ok () →
      (final pop s.ctx).accounts.totalLamports = initial) ∧
    (s.ctx.instructionStack ≠ [] →
      (push ext).run s.ctx ≠ .error .UnbalancedInstruction s.ctx →
      (final (push ext) s.ctx).accounts.totalLamports = initial) := by
  intro ctx₀ s initial
  have hinv : LamportsInv ctx₀.accounts s :=
    runs_induction_all (fun op _ h => h.step ext op) ops (.new ctx₀ rfl)
  have hinitial : ctx₀.accounts.totalLamports = initial := TransactionAccounts.sum_new (fun _ _ => rfl) accounts
  have hdelta : s.ctx.accounts.lamportsDelta = s.ctx.accounts.totalLamports - initial := by
    rw [← hinitial]; exact hinv.delta
  refine ⟨hdelta, hinv.run_addLamportsDelta, fun hpop => ?_, fun hstack hpush => ?_⟩
  · have hzero := lamportsDelta_of_pop hpop
    have hsame : (final pop s.ctx).accounts.totalLamports = s.ctx.accounts.totalLamports :=
      (quiet_pop s.ctx).sum_eq quietMeasure_lamports
    omega
  · have hzero := lamportsDelta_of_push hstack hpush
    have hsame : (final (push ext) s.ctx).accounts.totalLamports =
        s.ctx.accounts.totalLamports := (quiet_push ext s.ctx).sum_eq quietMeasure_lamports
    omega

end Svm
