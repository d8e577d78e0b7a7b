import Svm.Proof.Accounts
import Svm.Spec.Session

/-!
# What a step of a session does to the accounts

`Session.step_accounts`: a step is `Quiet` (it moves borrow counters, touched
flags and published lengths, and may write the instructions sysvar in place),
or has an `Effect` of a live borrow, or is the handler resizing an account
(`Handled`). Every invariant of sessions is proved of these three.
-/

namespace Svm

open Machine Run Sbpf TransactionAccounts EStateM TransactionAccountView

variable {a : TransactionAccounts}

/-! ## Quiet changes -/

/-- The account keeps its owner, lamports, flags and length; its published length
stays or becomes that length. -/
def QuietSlot (s s' : AccountSlot) : Prop :=
  ∃ p n, s'.view = s.view.withData p n ∧ p.bytes.length = s.view.data.length ∧
    (n = s.view.publishedLen ∨ n = s.view.data.length)

/-- Both deltas stay, and every account is quiet. -/
structure Quiet (a a' : TransactionAccounts) : Prop where
  slots : List.Forall₂ QuietSlot a.slots a'.slots
  resizeDelta : a'.resizeDelta = a.resizeDelta
  lamportsDelta : a'.lamportsDelta = a.lamportsDelta

theorem QuietSlot.refl (s) : QuietSlot s s := ⟨_, _, rfl, rfl, .inl rfl⟩

theorem QuietSlot.trans (h : QuietSlot s s') (h' : QuietSlot s' s'') : QuietSlot s s'' := by
  obtain ⟨p, n, e, l, hn⟩ := h
  obtain ⟨p', n', e', l', hn'⟩ := h'
  have hd : s'.view.data.length = s.view.data.length := by rw [e]; exact l
  have hp : s'.view.publishedLen = n := by rw [e]; rfl
  refine ⟨p', n', by rw [e', e]; rfl, l'.trans hd, ?_⟩
  rw [hd, hp] at hn'
  rcases hn' with rfl | rfl
  · exact hn
  · exact .inr rfl

theorem Quiet.refl (a) : Quiet a a :=
  ⟨List.forall₂_same.mpr fun s _ => .refl s, rfl, rfl⟩

theorem forall₂_quietSlot_trans (h : List.Forall₂ QuietSlot l l')
    (h' : List.Forall₂ QuietSlot l' l'') : List.Forall₂ QuietSlot l l'' := by
  induction h generalizing l'' with
  | nil => exact h'
  | cons hq _ ih =>
    cases h' with
    | cons hq' h' => exact .cons (hq.trans hq') (ih h')

theorem Quiet.trans (h : Quiet a a') (h' : Quiet a' a'') : Quiet a a'' :=
  ⟨forall₂_quietSlot_trans h.slots h'.slots, h'.resizeDelta.trans h.resizeDelta,
    h'.lamportsDelta.trans h.lamportsDelta⟩

theorem quiet_modifySlot (h : i.toNat < a.len → QuietSlot (a.slot i) (f (a.slot i))) :
    Quiet a (a.modifySlot i f) := by
  have hslots : ∀ l k, (∀ s, l[k]? = some s → QuietSlot s (f s)) →
      List.Forall₂ QuietSlot l (l.modify k f) := by
    intro l
    induction l with
    | nil => simp
    | cons s l ih =>
      intro k hk
      cases k with
      | zero => exact .cons (hk s rfl) (List.forall₂_same.mpr fun s _ => .refl s)
      | succ k => exact .cons (.refl s) (ih k fun s hs => hk s (by simpa using hs))
  refine ⟨hslots _ _ fun s hs => ?_, rfl, rfl⟩
  have hi : i.toNat < a.len := (getElem?_eq_some_iff.mp hs).1
  rw [getElem?_slots hi] at hs
  cases hs
  exact h hi

/-- Two writes of one slot differ quietly if what they write does. -/
theorem quiet_modifySlot₂ (h : QuietSlot (f (a.slot i)) (g (a.slot i))) :
    Quiet (a.modifySlot i f) (a.modifySlot i g) := by
  have hg : a.modifySlot i g = (a.modifySlot i f).modifySlot i fun _ => g (a.slot i) := by
    rw [modifySlot_modifySlot]
    exact modifySlot_congr a fun _ => rfl
  rw [hg]
  refine quiet_modifySlot fun hi => ?_
  rwa [slot_modifySlot_self a (by simpa using hi)]

/-- A slot whose account had its slice written. -/
theorem quietSlot_of_sliceWritten (h : s.view.SliceWritten s'.view) : QuietSlot s s' :=
  ⟨_, _, h.eq, h.length, .inl rfl⟩

theorem quiet_releaseBorrowMut (a) (i) : Quiet a (a.releaseBorrowMut i) :=
  quiet_modifySlot fun _ => ⟨_, _, rfl, rfl, .inr rfl⟩

theorem quiet_takeBorrow (a) (i) : Quiet a (a.takeBorrow i) :=
  quiet_modifySlot fun _ => ⟨_, _, rfl, rfl, .inl rfl⟩

theorem quiet_tryBorrowMut (a) (i) : Quiet a (final (tryBorrowMut i) a) := by
  obtain ⟨e, h⟩ | ⟨-, -, h⟩ := tryBorrowMut_cases a i
  · simp only [final, h]; exact .refl a
  · simp only [final, h]; exact quiet_takeBorrow a i

theorem quiet_storeCurrentIndex (ext) (a) (i n) :
    Quiet a (final (TransactionContext.storeCurrentIndex ext i n) a) := by
  refine final_bind_keeps (quiet_tryBorrowMut a i) fun _ a' h => ?_
  simp only [final_bind, run_get]
  split
  · exact h.trans (quiet_releaseBorrowMut a' i)
  · simp only [final_bind, final_ofExcept]
    refine (h.trans ?_).trans (quiet_releaseBorrowMut _ i)
    exact quiet_modifySlot fun _ => quietSlot_of_sliceWritten
      ((sliceWritten_dataAsMutSlice _).trans (sliceWritten_writeSlice _ _))

theorem checkNotBorrowed_cases (a) (i) :
    (∃ e, (TransactionContext.checkNotBorrowed i).run a = .error e a) ∨
    (TransactionContext.checkNotBorrowed i).run a = .ok () ((a.takeBorrow i).releaseBorrowMut i) := by
  simp only [TransactionContext.checkNotBorrowed, run_bind, run_attempt, result, final]
  obtain ⟨e, h⟩ | ⟨-, -, h⟩ := tryBorrowMut_cases a i
  · rw [h]
    cases e <;> exact .inl ⟨_, rfl⟩
  · rw [h]
    exact .inr rfl

/-! ## Configuring, pushing and popping -/

/-- A program of the context that is quiet on the accounts. -/
def QuietProgram {α : Type} (x : TransactionM α) : Prop :=
  ∀ ctx : TransactionContext, Quiet ctx.accounts (final x ctx).accounts

namespace QuietProgram

theorem bind {f : α → TransactionM β} (hx : QuietProgram x)
    (hf : ∀ r, QuietProgram (f r)) : QuietProgram (x >>= f) := fun ctx =>
  final_bind_keeps (P := fun ctx' => Quiet ctx.accounts ctx'.accounts) (hx ctx)
    fun r ctx' h => h.trans (hf r ctx')

theorem pure (r : α) : QuietProgram (Pure.pure r) := fun _ => .refl _

theorem throw (e) : QuietProgram (α := α) (throw e) := fun _ => .refl _

theorem ofExcept (x : Except InstructionError α) : QuietProgram (ofExcept x) := fun ctx => by
  rw [final_ofExcept]; exact .refl _

theorem get : QuietProgram MonadState.get := fun _ => .refl _

theorem modify {f : TransactionContext → TransactionContext} (hf : ∀ ctx, (f ctx).accounts = ctx.accounts) :
    QuietProgram (modifyGet fun ctx => ((), f ctx)) := fun ctx => by
  show Quiet ctx.accounts (f ctx).accounts
  rw [hf]; exact .refl _

theorem ite (c : Prop) [Decidable c] (hx : QuietProgram x) (hy : QuietProgram y) :
    QuietProgram (if c then x else y) := by
  split
  · exact hx
  · exact hy

theorem onAccounts {x : AccountsM α} (hx : ∀ a, Quiet a (final x a)) : QuietProgram (onAccounts x) :=
  fun ctx => by
    rw [Svm.onAccounts, final_zoom]
    exact hx ctx.accounts

theorem attempt (hx : QuietProgram x) : QuietProgram (attempt x) := fun ctx => by
  simpa only [final, run_attempt] using hx ctx

end QuietProgram

open TransactionContext

theorem quiet_configureInstructionAtIndex (index : Nat) (program) (accounts)
    (map) (data) (caller) :
    QuietProgram (configureInstructionAtIndex index program accounts map data caller) := by
  refine .bind .get fun ctx => .ite _ ?_ (.throw _)
  cases caller with
  | none => exact .modify fun _ => rfl
  | some caller => exact .bind (.modify fun _ => rfl) fun _ => .modify fun _ => rfl

theorem quiet_nextIndexInTrace : QuietProgram nextIndexInTrace :=
  .bind .get fun _ => .ite _ (.bind (.modify fun _ => rfl) fun _ => .pure _)
    (.bind (.modify fun _ => rfl) fun _ => .pure _)

theorem quiet_push (ext) : QuietProgram (push ext) := by
  refine .bind .get fun ctx => .ite _ (.throw _) (.ite _ (.throw _) (.bind (.modify fun _ => rfl) fun _ => ?_))
  refine .ite _ (.throw _) (.bind quiet_nextIndexInTrace fun index => .ite _ (.throw _) ?_)
  refine .bind (.modify fun _ => rfl) fun _ => .bind .get fun ctx => ?_
  cases ctx.findIndexOfAccount ext.instructionsId with
  | none => exact .pure _
  | some i => exact .onAccounts fun a => quiet_storeCurrentIndex ext a i _

/-- The program's account is borrowed for a moment, and the delta read. -/
theorem detectUnbalancedInstruction_cases (ctx) :
    (∃ e, detectUnbalancedInstruction.run ctx = .error e ctx) ∨
    ∃ i, detectUnbalancedInstruction.run ctx = .ok (decide (ctx.accounts.lamportsDelta ≠ 0))
      { ctx with accounts := (ctx.accounts.takeBorrow i).releaseBorrowMut i } := by
  simp only [detectUnbalancedInstruction, run_bind, run_get]
  cases ctx.getCurrentInstructionContext with
  | error e => exact .inl ⟨e, rfl⟩
  | ok ic =>
    simp only [run_ofExcept_ok]
    cases ic.getIndexOfProgramAccountInTransaction with
    | error e => exact .inl ⟨e, rfl⟩
    | ok i =>
      simp only [run_ofExcept_ok]
      obtain ⟨e, h⟩ | h := checkNotBorrowed_cases ctx.accounts i
      all_goals simp only [onAccounts, zoom, EStateM.run] at h ⊢
      · exact .inl ⟨e, by rw [h]⟩
      · exact .inr ⟨i, by rw [h]; rfl⟩

theorem quiet_detectUnbalancedInstruction : QuietProgram detectUnbalancedInstruction := by
  intro ctx
  obtain ⟨e, h⟩ | ⟨i, h⟩ := detectUnbalancedInstruction_cases ctx
  · rw [final, h]
    exact .refl _
  · rw [final, h]
    exact (quiet_takeBorrow _ i).trans (quiet_releaseBorrowMut _ i)

theorem quiet_pop : QuietProgram pop := by
  refine .bind .get fun ctx => .ite _ (.throw _) (.bind (.attempt quiet_detectUnbalancedInstruction) fun r => ?_)
  · refine .bind (.modify fun ctx => ?_) fun _ => .bind (.ofExcept _) fun _ => .ite _ (.throw _) (.pure _)
    simp only [popStack]
    split <;> rfl

/-! ## The handler -/

/-- The length the handler gives an account of length `oldLen`. -/
def handledLen (reserved oldLen : Nat) (resizeDelta : Int) : Nat :=
  min (min reserved MAX_ACCOUNT_DATA_LEN)
    (satAdd 64 oldLen (remainingAllowedGrowth resizeDelta))

/-- The handler has resized the account `i`; what it did besides is quiet. -/
structure Handled (a : TransactionAccounts) (i : UInt16) (reserved : Nat) (a' : TransactionAccounts) : Prop where
  inRange : i.toNat < a.len
  resized : ∃ p : Payload, p.bytes.length = handledLen reserved (a.view i).data.length a.resizeDelta ∧
    Quiet ((a.addResizeDelta (a.view i).data.length p.bytes.length).put i
      ((a.view i).withData p p.bytes.length)) a'

theorem Handled.trans_quiet (h : Handled a i reserved a') (h' : Quiet a' a'') : Handled a i reserved a'' := by
  obtain ⟨hi, p, hp, hq⟩ := h
  exact ⟨hi, p, hp, hq.trans h'⟩

/-- The account is borrowed and marked, as the handler has it. -/
abbrev borrowedAndTouched (a : TransactionAccounts) (i : UInt16) : TransactionAccounts :=
  a.modifySlot i fun s => { s with borrowCounter := -1, touched := true }

theorem run_tryBorrowMut_touch (a) (i) :
    (∃ e a', (do tryBorrowMut i; touch i : AccountsM Unit).run a = .error e a') ∨ i.toNat < a.len ∧
      (do tryBorrowMut i; touch i : AccountsM Unit).run a = .ok () (borrowedAndTouched a i) := by
  simp only [run_bind]
  obtain ⟨e, h⟩ | ⟨hi, -, h⟩ := tryBorrowMut_cases a i
  · exact .inl ⟨e, a, by rw [h]⟩
  · refine .inr ⟨hi, ?_⟩
    simp only [h]
    rw [run_touch _ (by simpa using hi), takeBorrow, modifySlot_modifySlot]
    rfl

theorem reallocAccount_accounts (hr : i.toNat < a.len) (requested reserved : Nat) (region) :
    let a' := (reallocAccount i requested reserved (borrowedAndTouched a i) region).1
    Quiet a a' ∨ Handled a i reserved a' := by
  intro a'
  have hv : (borrowedAndTouched a i).view i = a.view i := by
    simp [view, slot_modifySlot_self a hr]
  simp only [a', reallocAccount, hv]
  split
  · right
    let n := handledLen reserved (a.view i).data.length a.resizeDelta
    let p : Payload := ((a.view i).resize n 0).privateFields.payload
    have hp : p.bytes.length = n := by
      show ((a.view i).data.take n ++ List.replicate (n - (a.view i).data.length) 0).length = n
      simp only [List.length_append, List.length_take, List.length_replicate]
      omega
    refine ⟨hr, p, hp, ?_⟩
    -- both sides write the slot `i` of the same accounts
    rw [hp]
    show Quiet _ (((a.addResizeDelta _ n).modifySlot i _).modifyView i (·.resize n 0))
    rw [modifyView, modifySlot_modifySlot]
    exact quiet_modifySlot₂ ⟨p, n, rfl, rfl, .inl rfl⟩
  · exact .inl (quiet_modifySlot fun _ => ⟨_, _, rfl, rfl, .inl rfl⟩)

theorem accessViolationHandler_accounts (ext) (vasa dm : Bool) (a)
    (region) (reserved) (accessType) (vmAddr len) :
    let a' := (accessViolationHandler ext vasa dm a region reserved accessType vmAddr len).1
    Quiet a a' ∨ ∃ i, region.accessViolationHandlerPayload = some i ∧ Handled a i reserved.toNat a' := by
  intro a'
  simp only [a', accessViolationHandler]
  split
  · exact .inl (.refl a)
  split
  · exact .inl (.refl a)
  rename_i i hi
  split
  · exact .inl (.refl a)
  obtain ⟨e, a1, he⟩ | ⟨hr, he⟩ := run_tryBorrowMut_touch a i
  · rw [he]; exact .inl (.refl a)
  rw [he]
  simp only
  have hrealloc := reallocAccount_accounts hr (U64.satSub (U64.satAdd vmAddr len) region.vmAddr).toNat
    reserved.toNat region
  generalize reallocAccount i _ _ _ region = r at hrealloc
  -- what follows the reallocation is quiet
  have hthen : Quiet r.1 (releaseBorrowMut
      (if vasa = true ∧ dm = true then unshareAccount ext i r.1 r.2 else (r.1, r.2)).1 i) := by
    refine .trans ?_ (quiet_releaseBorrowMut _ i)
    split
    · exact quiet_modifySlot fun _ => quietSlot_of_sliceWritten
        (sliceWritten_dataAsMutSlice _)
    · exact .refl _
  rcases hrealloc with h | h
  · exact .inl (h.trans hthen)
  · exact .inr ⟨i, hi, h.trans_quiet hthen⟩

/-! ## Quiet changes and measures -/

/-- A measure that the bytes of an account do not enter, but for their number. -/
def QuietMeasure (m : TransactionAccountView → Nat) : Prop :=
  ∀ v p n, p.bytes.length = v.data.length → m (v.withData p n) = m v

namespace Quiet

variable (h : Quiet a a')

include h

theorem len_eq : a'.len = a.len := h.slots.length_eq.symm

theorem slot (j) : QuietSlot (a.slot j) (a'.slot j) := by
  have hs := h.slots
  simp only [TransactionAccounts.slot]
  generalize j.toNat = k
  generalize a.slots = l, a'.slots = l' at hs
  induction hs generalizing k with
  | nil => exact .refl _
  | cons hq _ ih =>
    cases k with
    | zero => exact hq
    | succ k => exact ih k

theorem length_view (j) : (a'.view j).data.length = (a.view j).data.length := by
  obtain ⟨p, n, e, l, -⟩ := h.slot j
  simp only [view, e]
  exact l

theorem map_eq (hm : QuietMeasure m) : a'.slots.map (fun s => m s.view) = a.slots.map fun s => m s.view := by
  have hs := h.slots
  generalize a.slots = l, a'.slots = l' at hs
  induction hs with
  | nil => rfl
  | cons hq _ ih =>
    obtain ⟨p, n, e, l, -⟩ := hq
    rw [List.map_cons, List.map_cons, ih, e, hm _ _ _ l]

theorem sum_eq (hm : QuietMeasure m) :
    a'.sum m = a.sum m := total_congr (h.map_eq hm)

theorem tail_eq (hm : QuietMeasure m) : a'.tail m = a.tail m := by
  have := congrArg (List.drop (2 ^ 16)) (h.map_eq hm)
  rwa [← List.map_drop, ← List.map_drop] at this

theorem all (hP : ∀ s s', QuietSlot s s' → P s.view → P s'.view) (ha : a.All P) : a'.All P := by
  have hs := h.slots
  unfold TransactionAccounts.All at ha ⊢
  generalize a.slots = l, a'.slots = l' at hs ha
  induction hs with
  | nil => exact ha
  | cons hq _ ih =>
    intro s hs
    rcases List.mem_cons.mp hs with rfl | hs
    · exact hP _ _ hq (ha _ List.mem_cons_self)
    · exact ih (fun s hs => ha s (List.mem_cons_of_mem _ hs)) s hs

end Quiet

/-- The length published to programs is the length of the payload. -/
def Synced (v : TransactionAccountView) : Prop := v.publishedLen = v.data.length

theorem synced_quietSlot (h : QuietSlot s s') (hs : Synced s.view) : Synced s'.view := by
  obtain ⟨p, n, e, l, hn⟩ := h
  have hs : s.view.publishedLen = s.view.data.length := hs
  rw [e]
  show n = p.bytes.length
  rcases hn with rfl | rfl <;> omega

namespace Session

variable {s : Session}

/-- Every live borrow is of an account of the transaction. -/
def BorrowsInRange (s : Session) : Prop :=
  ∀ b ∈ s.borrows, b.getIndexInTransaction.toNat < s.accounts.len

/-- What a step does to the accounts. -/
inductive AccountsStep (s : Session) (op : SessionOp) (a' : TransactionAccounts) : Prop
  | quiet (h : Quiet s.accounts a')
  | effect (b : BorrowedInstructionAccount) (hb : b ∈ s.borrows) (h : b.Effect s.accounts a')
  | handled (vasa dm : Bool) (region : MemoryRegion) (reserved : UInt64) (accessType : AccessType)
      (vmAddr len : UInt64) (i : UInt16) (hop : op = .handle vasa dm region reserved accessType vmAddr len)
      (hi : region.accessViolationHandlerPayload = some i) (h : Handled s.accounts i reserved.toNat a')

theorem borrow_cases (s : Session) (t : Nat) (k) :
    s.borrow t k = s ∨ ∃ ic account, s.ctx.getInstructionContextAtIndexInTrace t = .ok ic ∧
      ic.instructionAccounts[k.toNat]? = some account ∧ account.indexInTransaction.toNat < s.accounts.len ∧
      s.borrow t k = { s.withAccounts (s.accounts.takeBorrow account.indexInTransaction) with
          borrows := s.borrows ++ [ic.borrowed s.ctx.rent account] } := by
  unfold borrow
  cases hic : s.ctx.getInstructionContextAtIndexInTrace t with
  | error e => exact .inl rfl
  | ok ic =>
    obtain ⟨e, h⟩ | ⟨account, hk, hi, -, h⟩ := ic.tryBorrowInstructionAccount_cases s.ctx.rent k s.accounts
    · simp only [h]; exact .inl rfl
    · simp only [h]; exact .inr ⟨ic, account, rfl, hk, hi, rfl⟩

theorem step_accounts (ext) (hs : s.BorrowsInRange) (op) :
    AccountsStep s op (step ext op s).accounts := by
  cases op with
  | configure index program accounts map data caller =>
    exact .quiet (quiet_configureInstructionAtIndex index program accounts map data caller s.ctx)
  | push => exact .quiet (quiet_push ext s.ctx)
  | pop => exact .quiet (quiet_pop s.ctx)
  | borrow t k =>
    rw [step]
    obtain h | ⟨ic, account, -, -, -, h⟩ := s.borrow_cases t k
    · rw [h]; exact .quiet (.refl _)
    · rw [h]; exact .quiet (quiet_takeBorrow ..)
  | drop j =>
    simp only [step]
    split
    · exact .quiet (quiet_releaseBorrowMut _ _)
    · exact .quiet (.refl _)
  | call j op =>
    simp only [step]
    split
    · rename_i b hb
      have hb := List.mem_of_getElem? hb
      exact .effect b hb (op.effect (hs b hb))
    · exact .quiet (.refl _)
  | handle vasa dm region reserved accessType vmAddr len =>
    obtain h | ⟨i, hi, h⟩ :=
      accessViolationHandler_accounts ext vasa dm s.accounts region reserved accessType vmAddr len
    · exact .quiet h
    · exact .handled vasa dm region reserved accessType vmAddr len i rfl hi h

theorem AccountsStep.len_eq (h : AccountsStep s op a') : a'.len = s.accounts.len := by
  cases h with
  | quiet h | effect b _ h => exact h.len_eq
  | handled vasa dm region reserved accessType vmAddr len i _ _ h =>
    obtain ⟨-, p, -, hq⟩ := h
    exact hq.len_eq.trans (len_put _ _)

/-- No step touches an account that no index reaches. -/
theorem AccountsStep.tail_eq (h : AccountsStep s op a') (hm : QuietMeasure m) : a'.tail m = s.accounts.tail m := by
  cases h with
  | quiet h => exact h.tail_eq hm
  | effect b _ h =>
    cases h <;> first | rfl | exact tail_modifySlot _ _ _
  | handled vasa dm region reserved accessType vmAddr len i _ _ h =>
    obtain ⟨-, p, -, hq⟩ := h
    exact (hq.tail_eq hm).trans (tail_modifySlot _ _ _)

theorem borrowsInRange_step (ext) (hs : s.BorrowsInRange) (op) :
    (step ext op s).BorrowsInRange := by
  intro b hb
  rw [(step_accounts ext hs op).len_eq]
  cases op with
  | borrow t k =>
    rw [step] at hb
    obtain h | ⟨ic, account, -, -, hi, h⟩ := s.borrow_cases t k
    · rw [h] at hb; exact hs b hb
    · rw [h] at hb
      simp only [List.mem_append, List.mem_singleton] at hb
      rcases hb with hb | rfl
      · exact hs b hb
      · exact hi
  | drop j =>
    simp only [step] at hb
    split at hb
    · exact hs b (List.mem_of_mem_eraseIdx hb)
    · exact hs b hb
  | call j op =>
    simp only [step] at hb
    split at hb <;> exact hs b hb
  | configure index program accounts map data caller | push | pop
  | handle vasa dm region reserved accessType vmAddr len => exact hs b hb

/-- What holds in every session: the borrows are of accounts, and every published
length is the payload's. -/
structure Wf (s : Session) : Prop where
  borrows : s.BorrowsInRange
  synced : s.accounts.All Synced

theorem Wf.step (h : s.Wf) (ext) (op) : (s.step ext op).Wf := by
  refine ⟨borrowsInRange_step ext h.borrows op, ?_⟩
  have hstep := step_accounts ext h.borrows op
  generalize (Session.step ext op s).accounts = a' at hstep
  cases hstep with
  | quiet hq => exact hq.all (fun _ _ => synced_quietSlot) h.synced
  | effect b hb he =>
    have hsync : Synced (b.account s.accounts) := h.synced.view (h.borrows b hb)
    cases he with
    | none => exact h.synced
    | lamports l hw ho => exact All.put h.synced hsync
    | owner pk hc hz | executable e hc => exact h.synced.put hsync
    | bytes v hc hv =>
      refine h.synced.put ?_
      have : (b.account s.accounts).publishedLen = (b.account s.accounts).data.length := hsync
      have : v.publishedLen = (b.account s.accounts).publishedLen := by rw [hv.eq]; rfl
      have := hv.length
      show v.publishedLen = v.data.length
      omega
    | resize p hc hp =>
      exact All.put h.synced rfl
  | handled vasa dm region reserved accessType vmAddr len i _ _ hh =>
    obtain ⟨-, p, -, hq⟩ := hh
    refine hq.all (fun _ _ => synced_quietSlot) ?_
    exact All.put h.synced rfl

theorem wf_new (accounts) (rent : Rent)
    (stackCapacity traceCapacity topLevel : Nat) :
    (Session.new (.new accounts rent stackCapacity traceCapacity topLevel)).Wf :=
  ⟨fun b hb => by simp [Session.new] at hb, all_new fun _ _ _ => rfl⟩

theorem Wf.run (h : s.Wf) (ext) (ops) : (s.run ext ops).Wf :=
  runs_induction_all (fun op _ h => h.step ext op) ops h

end Session

end Svm
