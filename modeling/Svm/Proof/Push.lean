import Svm.Proof.Session
import Svm.Spec.ProcessInstruction
import Svm.Spec.Trace

/-!
# Pushes and pops, with their failures

Every way a push of the transaction context can end, with the context it then
leaves (`push_outcome`), the checks that the invoke context makes before it
pushes (`InvokeContext.push_cases`), and what a pop leaves of the context and
of the data of the accounts (`final_pop`).
-/

namespace Svm

open Machine Run EStateM TransactionAccounts TransactionContext

namespace TransactionContext

variable (ctx : TransactionContext)

theorem getCurrentInstructionContext_eq : ctx.getCurrentInstructionContext =
      ctx.getInstructionContextAtNestingLevel (ctx.instructionStack.length - 1) := by
  simp only [getCurrentInstructionContext, getCurrentInstructionIndex,
    getInstructionContextAtNestingLevel, List.getLast?_eq_getElem?]
  cases ctx.instructionStack[ctx.instructionStack.length - 1]? <;> rfl

/-- The reserved frame has the height of the stack as its nesting level. -/
def leveled : TransactionContext :=
  { ctx with
    instructionTrace := ctx.instructionTrace.modify (ctx.instructionTrace.length - 1)
      ({ · with nestingLevel := .ofNat ctx.getInstructionStackHeight }) }

/-- The frame of the next instruction is taken. -/
def taken : TransactionContext :=
  if ctx.instructionStack = [] then
    { ctx with nextTopLevelInstructionIndex := satAdd 64 ctx.nextTopLevelInstructionIndex 1 }
  else
    { ctx with
      transactionFrame := { ctx.transactionFrame with
        numberOfCpisInTrace := satSucc16 ctx.transactionFrame.numberOfCpisInTrace }
      instructionTrace := ctx.instructionTrace ++ [default] }

/-- An instruction is on top of the stack. -/
def stacked (index : Nat) : TransactionContext :=
  { ctx with
    transactionFrame := { ctx.transactionFrame with currentExecutingInstruction := .ofNat index }
    instructionStack := ctx.instructionStack ++ [index] }

/-- The context of an instruction that was pushed, before the sysvar is told. -/
def entered : TransactionContext := ctx.leveled.taken.stacked ctx.nextInvocation.index

/-- How a push ends. -/
inductive PushOutcome (ext : Externals) : EStateM.Result InstructionError TransactionContext Unit → Prop
  | unbalanced (nested : ctx.instructionStack ≠ []) (delta : ctx.accounts.lamportsDelta ≠ 0) :
      PushOutcome ext (.error .UnbalancedInstruction ctx)
  | traceFull (full : ctx.instructionTraceCapacity ≤ ctx.numberOfCalledInstructionsInTrace) :
      PushOutcome ext (.error .MaxInstructionTraceLengthExceeded ctx.leveled)
  | tooDeep (room : ctx.numberOfCalledInstructionsInTrace < ctx.instructionTraceCapacity)
      (deep : ctx.instructionStackCapacity ≤ ctx.getInstructionStackHeight) :
      PushOutcome ext (.error .CallDepth ctx.leveled.taken)
  | noSysvar (room : ctx.numberOfCalledInstructionsInTrace < ctx.instructionTraceCapacity)
      (shallow : ctx.getInstructionStackHeight < ctx.instructionStackCapacity)
      (sysvar : ctx.findIndexOfAccount ext.instructionsId = none) :
      PushOutcome ext (.ok () ctx.entered)
  | stored (room : ctx.numberOfCalledInstructionsInTrace < ctx.instructionTraceCapacity)
      (shallow : ctx.getInstructionStackHeight < ctx.instructionStackCapacity) {index : UInt16}
      (sysvar : ctx.findIndexOfAccount ext.instructionsId = some index) {a : TransactionAccounts}
      (stores : (storeCurrentIndex ext index (.ofNat ctx.topLevelIndex)).run ctx.accounts = .ok () a) :
      PushOutcome ext (.ok () { ctx.entered with accounts := a })
  | notStored (room : ctx.numberOfCalledInstructionsInTrace < ctx.instructionTraceCapacity)
      (shallow : ctx.getInstructionStackHeight < ctx.instructionStackCapacity) {index : UInt16}
      (sysvar : ctx.findIndexOfAccount ext.instructionsId = some index) {e : InstructionError}
      {a : TransactionAccounts}
      (fails : (storeCurrentIndex ext index (.ofNat ctx.topLevelIndex)).run ctx.accounts = .error e a) :
      PushOutcome ext (.error e { ctx.entered with accounts := a })

@[simp] theorem leveled_instructionStack : ctx.leveled.instructionStack = ctx.instructionStack := rfl

@[simp] theorem taken_instructionStack : ctx.taken.instructionStack = ctx.instructionStack := by
  unfold taken
  split <;> rfl

@[simp] theorem taken_instructionStackCapacity : ctx.taken.instructionStackCapacity = ctx.instructionStackCapacity := by
  unfold taken
  split <;> rfl

@[simp] theorem taken_accounts : ctx.taken.accounts = ctx.accounts := by
  unfold taken
  split <;> rfl

theorem entered_instructionStack : ctx.entered.instructionStack = ctx.instructionStack ++ [ctx.nextInvocation.index] :=
  congrArg (· ++ [ctx.nextInvocation.index]) ctx.leveled.taken_instructionStack

@[simp] theorem entered_accounts : ctx.entered.accounts = ctx.accounts := ctx.leveled.taken_accounts

@[simp] theorem leveled_getInstructionTraceLength :
    ctx.leveled.getInstructionTraceLength = ctx.getInstructionTraceLength := by
  simp [getInstructionTraceLength, leveled]

@[simp] theorem leveled_nextInvocation : ctx.leveled.nextInvocation = ctx.nextInvocation := by
  simp only [nextInvocation, leveled_getInstructionTraceLength]
  rfl

theorem run_nextIndexInTrace :
    nextIndexInTrace.run ctx = .ok (ctx.nextInvocation.index, ctx.topLevelIndex) ctx.taken := by
  simp only [nextIndexInTrace, nextInvocation, topLevelIndex, taken, run_bind, run_get, List.isEmpty_iff]
  split
  · rfl
  · rfl

variable {ctx} in
theorem push_outcome (ext) (htrace : ctx.instructionTrace ≠ []) :
    ctx.PushOutcome ext ((push ext).run ctx) := by
  simp only [push, run_bind, run_get, run_ite, run_modify]
  split
  · rename_i h
    exact .unbalanced (by simpa using h.1) h.2
  split
  · rename_i h
    exact absurd (by simpa using h) htrace
  split
  · rename_i h
    exact .traceFull h
  rename_i hroom
  rw [run_nextIndexInTrace]
  dsimp only
  split
  · rename_i h
    exact .tooDeep (not_le.mp hroom) h
  rename_i hshallow
  have hroom := not_le.mp hroom
  have hshallow := not_le.mp hshallow
  have hfind : (ctx.leveled.taken.stacked ctx.nextInvocation.index).findIndexOfAccount ext.instructionsId =
      ctx.findIndexOfAccount ext.instructionsId := by
    show (ctx.leveled.taken.accounts.accountKeys.findIdx? _).map _ = _
    rw [taken_accounts]
    rfl
  change PushOutcome ctx ext (EStateM.run _ (ctx.leveled.taken.stacked ctx.leveled.nextInvocation.index))
  rw [← leveled_nextInvocation] at hfind
  erw [hfind]
  rw [leveled_nextInvocation, ← entered]
  cases hsysvar : ctx.findIndexOfAccount ext.instructionsId with
  | none => exact .noSysvar hroom hshallow hsysvar
  | some index =>
    change PushOutcome ctx ext ((onAccounts (storeCurrentIndex ext index (.ofNat ctx.topLevelIndex))).run ctx.entered)
    dsimp only [onAccounts, zoom, run]
    rw [entered_accounts]
    cases hstore : storeCurrentIndex ext index (.ofNat ctx.topLevelIndex) ctx.accounts with
    | ok u a => exact .stored hroom hshallow hsysvar hstore
    | error e a => exact .notStored hroom hshallow hsysvar hstore

end TransactionContext

/-- A push that the invoke context refuses changes nothing; else it is a push of the
transaction context, with one more syscall context. -/
theorem InvokeContext.push_cases (ext) (s) :
    ¬ Admits s.transactionContext ∧ (∃ e, (push ext).run s = .error e s) ∨
    Admits s.transactionContext ∧ (push ext).run s =
      (onTransaction (TransactionContext.push ext)).run { s with syscallContext := s.syscallContext ++ [none] } := by
  simp only [push, run_bind, run_get]
  cases hic : s.transactionContext.getNextInstructionContext with
  | error e =>
    refine .inl ⟨?_, e, rfl⟩
    rintro ⟨ic, _, hic', -⟩
    rw [hic] at hic'
    cases hic'
  | ok ic =>
    simp only [run_ofExcept_ok]
    cases hkey : s.transactionContext.getProgramKey ic with
    | error e =>
      refine .inl ⟨?_, _, rfl⟩
      rintro ⟨_, _, hic', hkey', -⟩
      rw [hic] at hic'
      cases hic'
      rw [hkey] at hkey'
      cases hkey'
    | ok programId =>
      dsimp only
      split
      · rename_i hreenters
        obtain ⟨-, hcontains, hlast⟩ := hreenters
        refine .inl ⟨?_, _, rfl⟩
        rintro ⟨_, _, hic', hkey', hadmits⟩
        rw [hic] at hic'
        cases hic'
        rw [hkey] at hkey'
        cases hkey'
        obtain ⟨level, hlevel, hexecutes⟩ := List.any_eq_true.mp hcontains
        rw [hadmits ⟨level, List.mem_range.mp hlevel, hexecutes⟩] at hlast
        cases hlast
      · rename_i hadmits
        refine .inr ⟨⟨ic, programId, hic, hkey, ?_⟩, rfl⟩
        rintro ⟨level, hlevel, hexecutes⟩
        by_contra hlast
        exact hadmits ⟨by omega, List.any_eq_true.mpr ⟨level, List.mem_range.mpr hlevel, hexecutes⟩,
          by simpa using hlast⟩

/-! ## The data of the accounts -/

theorem Quiet.accountKeys_eq (h : Quiet a a') : a'.accountKeys = a.accountKeys := by
  have hs := h.slots
  simp only [accountKeys]
  generalize a.slots = l, a'.slots = l' at hs
  induction hs with
  | nil => rfl
  | cons hq _ ih =>
    obtain ⟨p, n, e, -, -⟩ := hq
    rw [List.map_cons, ih, e]
    rfl

namespace TransactionAccounts

theorem data_releaseBorrowMut (a : TransactionAccounts) (i j) :
    ((a.releaseBorrowMut i).view j).data = (a.view j).data := by
  obtain ⟨n, hn⟩ := a.view_releaseBorrowMut i j
  rw [hn]
  rfl

end TransactionAccounts

/-- What the sysvar account holds once it was told an index, and the others. -/
theorem data_storeCurrentIndex {ext : Externals} (h : (storeCurrentIndex ext index n).run a = .ok () a') :
    ∃ writes, ext.storeCurrentIndexChecked (a.view index).data n = (writes, .ok ()) ∧
      (a'.view index).data = writes.foldl (fun bytes (i, b) => bytes.set i b) (a.view index).data ∧
      ∀ j, index ≠ j → (a'.view j).data = (a.view j).data := by
  obtain ⟨_, a1, hborrow, h⟩ := bind_inv h
  obtain ⟨e, he⟩ | ⟨hlt, -, he⟩ := tryBorrowMut_cases a index
  · cases he.symm.trans hborrow
  cases he.symm.trans hborrow
  rw [run_get_bind] at h
  split at h
  · cases h
  simp only [view_takeBorrow] at h
  obtain ⟨hresult, rfl⟩ := run_ofExcept_eq_ok.mp h
  refine ⟨_, Prod.ext rfl hresult, ?_, fun j hj => ?_⟩
  · rw [data_releaseBorrowMut, modifyView, view, slot_modifySlot_self _ (by simpa using hlt), ← view_takeBorrow a index]
    show List.foldl _ (TransactionAccountView.dataAsMutSlice _).data _ = _
    rw [TransactionAccountView.dataAsMutSlice_data]
    rfl
  · rw [data_releaseBorrowMut, modifyView, view_modifySlot_ne _ hj, view_takeBorrow]

/-! ## Pops -/

/-- A pop always takes the current instruction off the stack. -/
theorem final_pop_eq (hstack : ctx.instructionStack ≠ []) : final pop ctx =
      popStack (final detectUnbalancedInstruction ctx) := by
  simp only [final, pop, run_bind, run_get, List.isEmpty_iff, hstack, if_false, run_attempt]
  cases result detectUnbalancedInstruction ctx with
  | error e => rfl
  | ok unbalanced => cases unbalanced <;> rfl

/-- What a pop leaves: only the accounts, the stack and the current instruction
change, and of the accounts no data. -/
theorem final_pop (ctx) : ∃ a current, final pop ctx = { ctx with
        accounts := a
        instructionStack := ctx.instructionStack.dropLast
        transactionFrame := { ctx.transactionFrame with currentExecutingInstruction := current } } ∧
      (∀ index, ctx.instructionStack.dropLast.getLast? = some index → current = .ofNat index) ∧
      a.accountKeys = ctx.accounts.accountKeys ∧ ∀ j, (a.view j).data = (ctx.accounts.view j).data := by
  by_cases hstack : ctx.instructionStack = []
  · refine ⟨ctx.accounts, ctx.transactionFrame.currentExecutingInstruction, ?_, by simp [hstack], rfl, fun _ => rfl⟩
    have hfinal : final pop ctx = ctx := by simp [final, pop, hstack]
    rw [hfinal, hstack, List.dropLast_nil, ← hstack]
  rw [final_pop_eq hstack]
  obtain ⟨a, hfinal, hkeys, hdata⟩ : ∃ a, final detectUnbalancedInstruction ctx = { ctx with accounts := a } ∧
      a.accountKeys = ctx.accounts.accountKeys ∧ ∀ j, (a.view j).data = (ctx.accounts.view j).data := by
    obtain ⟨e, h⟩ | ⟨i, h⟩ := detectUnbalancedInstruction_cases ctx
    · exact ⟨ctx.accounts, by rw [final, h], rfl, fun _ => rfl⟩
    · refine ⟨_, by rw [final, h], ((quiet_takeBorrow _ i).trans (quiet_releaseBorrowMut _ i)).accountKeys_eq, fun j => ?_⟩
      rw [data_releaseBorrowMut, view_takeBorrow]
  rw [hfinal]
  simp only [popStack]
  split
  · rename_i index hlast
    refine ⟨a, .ofNat index, rfl, fun index' hindex => ?_, hkeys, hdata⟩
    rw [hlast] at hindex
    cases hindex
    rfl
  · rename_i hlast
    refine ⟨a, _, rfl, fun index' hindex => ?_, hkeys, hdata⟩
    rw [hlast] at hindex
    cases hindex

theorem InvokeContext.final_pop_transactionContext (s) :
    (final pop s).transactionContext = final TransactionContext.pop s.transactionContext := by
  simp [pop, final_bind, onTransaction, final_zoom]

end Svm
