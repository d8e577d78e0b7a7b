import Svm.Framework.Stack
import Svm.Proof.Trace
import Svm.Spec.Reentrancy

/-!
# Only self-recursion

A step changes the programs on the stack as `StackChange` allows (`StackStep.change`):
a program is pushed only if it is not on the stack or on top of it. So the positions of
a program are contiguous in every reachable state, and a program that called another one
does not run again before that call has returned (`only_self_recursion`).
-/

namespace Svm

open Run TransactionContext InvokeContext SelfCall
open List hiding getElem?_eq_some_iff isEmpty_iff

variable {s : InvokeContext}

/-! ## The programs of frames -/

section Programs

variable {ctx : TransactionContext}

/-- The program of a frame. -/
def programOfFrame (keys : List Pubkey) (programAccountIndexInTx : UInt16) : Option Pubkey :=
  if programAccountIndexInTx = 65535 then none else keys[programAccountIndexInTx.toNat]?

theorem programAt_eq (ctx : TransactionContext) (i : Nat) :
    ctx.programAt i = (ctx.instructionTrace[i]?.map InstructionFrame.programAccountIndexInTx).bind
      (programOfFrame ctx.accounts.accountKeys) := by
  rw [programAt, getInstructionContextAtIndexInTrace]
  cases ctx.instructionTrace[i]? with
  | none => rfl
  | some frame =>
    simp only [getProgramKey, InstructionContext.getIndexOfProgramAccountInTransaction, Option.map_some,
      Option.bind_some, programOfFrame]
    split
    · rfl
    · show Except.toOption (ctx.getKeyOfAccountAtIndex frame.programAccountIndexInTx) = _
      rw [getKeyOfAccountAtIndex, TransactionAccounts.accountKey, TransactionAccounts.accountKeys, getElem?_map]
      cases ctx.accounts.slots[frame.programAccountIndexInTx.toNat]? <;> rfl

/-- The frames of `ctx` have the same programs in `ctx'`. -/
structure KeepsPrograms (ctx ctx' : TransactionContext) : Prop where
  keys : ctx'.accounts.accountKeys = ctx.accounts.accountKeys
  length : ctx.instructionTrace.length ≤ ctx'.instructionTrace.length
  frame : ∀ i < ctx.instructionTrace.length,
    ctx'.instructionTrace[i]?.map InstructionFrame.programAccountIndexInTx =
      ctx.instructionTrace[i]?.map InstructionFrame.programAccountIndexInTx

theorem KeepsPrograms.programAt (h : KeepsPrograms ctx ctx') (hi : i < ctx.instructionTrace.length) :
    ctx'.programAt i = ctx.programAt i := by
  rw [programAt_eq, programAt_eq, h.keys, h.frame i hi]

theorem KeepsPrograms.trans (h : KeepsPrograms ctx ctx') (h' : KeepsPrograms ctx' ctx'') :
    KeepsPrograms ctx ctx'' :=
  ⟨h'.keys.trans h.keys, h.length.trans h'.length,
    fun i hi => (h'.frame i (hi.trans_le h.length)).trans (h.frame i hi)⟩

theorem keepsPrograms_leveled (ctx) : KeepsPrograms ctx ctx.leveled := by
  refine ⟨rfl, by simp [leveled], fun i _ => ?_⟩
  simp only [leveled, getElem?_modify]
  cases ctx.instructionTrace[i]? with
  | none => rfl
  | some frame => by_cases hi : ctx.instructionTrace.length - 1 = i <;> simp [hi]

theorem keepsPrograms_taken (ctx) : KeepsPrograms ctx ctx.taken := by
  refine ⟨by rw [taken_accounts], ?_, fun i hi => ?_⟩
  · unfold taken
    split
    · exact le_rfl
    · simp
  · unfold taken
    split
    · rfl
    · rw [getElem?_append_left hi]

/-! ## The stack -/

/-- The instructions on the stack are in the trace, and only an instruction that is
alone on the stack can be in the reserved frame. -/
structure Placed (ctx : TransactionContext) : Prop where
  trace : ctx.instructionTrace ≠ []
  below : ∀ i ∈ ctx.instructionStack, i < ctx.instructionTrace.length
  alone : ∀ i ∈ ctx.instructionStack, i + 1 = ctx.instructionTrace.length → ctx.instructionStack = [i]

/-- A change that leaves the stack and the programs of the frames. -/
theorem Placed.keeps (h : Placed ctx) (hkeeps : KeepsPrograms ctx ctx') (hstack : ctx'.instructionStack = ctx.instructionStack) :
    Placed ctx' ∧ ctx'.programs = ctx.programs := by
  refine ⟨⟨?_, ?_, ?_⟩, ?_⟩
  · have hpos := length_pos_iff.mpr h.trace
    exact length_pos_iff.mp (hpos.trans_le hkeeps.length)
  · intro i hi
    exact (h.below i (hstack ▸ hi)).trans_le hkeeps.length
  · intro i hi hlast
    rw [hstack] at hi ⊢
    have hlt := h.below i hi
    have hlength := hkeeps.length
    exact h.alone i hi (by omega)
  · rw [programs, hstack]
    exact map_congr_left fun i hi => hkeeps.programAt (h.below i hi)

theorem programs_getElem? {key : Pubkey} : executes ctx key (ctx.getInstructionContextAtNestingLevel level) = true ↔
      ctx.programs[level]? = some (some key) := by
  rw [programs, getElem?_map, getInstructionContextAtNestingLevel]
  cases ctx.instructionStack[level]? with
  | none => simp [executes]
  | some i =>
    simp only [Option.map_some, programAt, executes]
    cases ctx.getInstructionContextAtIndexInTrace i with
    | error e => simp
    | ok ic =>
      dsimp only
      cases ctx.getProgramKey ic with
      | error e | ok k => simp [Except.toOption]

theorem programs_getLast? {key : Pubkey} : executes ctx key ctx.getCurrentInstructionContext = true ↔
      ctx.programs.getLast? = some (some key) := by
  rw [getCurrentInstructionContext_eq, programs_getElem?, getLast?_eq_getElem?, programs, length_map]

theorem getNextInstructionContext_ok (h : ctx.getNextInstructionContext = .ok ic) :
    ctx.getInstructionContextAtIndexInTrace ctx.nextInvocation.index = .ok ic := by
  simp only [getNextInstructionContext, List.isEmpty_iff] at h
  rw [nextInvocation]
  split at h
  · rename_i hstack
    rw [if_pos hstack]
    exact h
  · rename_i hstack
    split at h
    · cases h
    · rw [if_neg hstack]
      exact h

/-- The invoke context admits a program that is not on the stack, or on top of it. -/
theorem programs_of_admits (h : InvokeContext.Admits ctx) :
    ∃ key, ctx.nextInvocation.index < ctx.instructionTrace.length ∧
      ctx.programAt ctx.nextInvocation.index = some key ∧
      (some key ∈ ctx.programs → ctx.programs.getLast? = some (some key)) := by
  obtain ⟨ic, key, hnext, hkey, hguard⟩ := h
  have hic := getNextInstructionContext_ok hnext
  refine ⟨key, ?_, ?_, fun hmem => ?_⟩
  · rw [getInstructionContextAtIndexInTrace] at hic
    split at hic
    · cases hic
    · rename_i hframe
      exact (getElem?_eq_some_iff.mp hframe).1
  · rw [programAt, hic]
    simp only [hkey]
    rfl
  · obtain ⟨level, hlevel⟩ := mem_iff_getElem?.mp hmem
    have hlt := (getElem?_eq_some_iff.mp hlevel).1
    rw [programs, length_map] at hlt
    exact programs_getLast?.mp (hguard ⟨level, hlt, programs_getElem?.mpr hlevel⟩)

/-! ## Steps -/

/-- The stack is placed, and its programs changed as a stack may. -/
def Changes (ctx ctx' : TransactionContext) : Prop := Placed ctx' ∧ StackChange ctx.programs ctx'.programs

theorem Placed.changes_of_keeps (h : Placed ctx) (hkeeps : KeepsPrograms ctx ctx')
    (hstack : ctx'.instructionStack = ctx.instructionStack) : Changes ctx ctx' := by
  obtain ⟨hplaced, hprograms⟩ := h.keeps hkeeps hstack
  exact ⟨hplaced, by rw [hprograms]; exact .same _⟩

/-- The next instruction is put on the stack. -/
theorem Placed.changes_entered (h : Placed ctx) (hadmits : InvokeContext.Admits ctx)
    (hkeys : a.accountKeys = ctx.accounts.accountKeys) : Changes ctx { ctx.entered with accounts := a } := by
  obtain ⟨key, hlt, hkey, hguard⟩ := programs_of_admits hadmits
  have hkeeps : KeepsPrograms ctx { ctx.entered with accounts := a } := by
    have htaken := (keepsPrograms_leveled ctx).trans (keepsPrograms_taken _)
    exact ⟨hkeys, htaken.length, htaken.frame⟩
  have hstack : { ctx.entered with accounts := a }.instructionStack =
      ctx.instructionStack ++ [ctx.nextInvocation.index] := ctx.entered_instructionStack
  have hlength : { ctx.entered with accounts := a }.instructionTrace.length =
      if ctx.instructionStack = [] then ctx.instructionTrace.length else ctx.instructionTrace.length + 1 := by
    show ctx.leveled.taken.instructionTrace.length = _
    rw [taken, leveled_instructionStack]
    split
    · simp [leveled]
    · simp [leveled]
  refine ⟨⟨?_, ?_, ?_⟩, ?_⟩
  · exact length_pos_iff.mp ((length_pos_iff.mpr h.trace).trans_le hkeeps.length)
  · intro i hi
    rw [hstack, mem_append, mem_singleton] at hi
    rcases hi with hi | rfl
    · exact (h.below i hi).trans_le hkeeps.length
    · exact hlt.trans_le hkeeps.length
  · intro i hi hlast
    rw [hlength] at hlast
    rw [hstack, mem_append, mem_singleton] at hi
    rw [hstack]
    split_ifs at hlast with hempty
    · rw [hempty] at hi ⊢
      rcases hi with hi | rfl
      · cases hi
      · rfl
    · -- Another frame was reserved, so none of the stack is in it.
      rcases hi with hi | rfl
      · have := h.below i hi
        omega
      · omega
  · have hprograms : { ctx.entered with accounts := a }.programs = ctx.programs ++ [some key] := by
      rw [programs, hstack, map_append, map_singleton, hkeeps.programAt hlt, hkey]
      congr 1
      exact map_congr_left fun i hi => hkeeps.programAt (h.below i hi)
    rw [hprograms]
    exact .push _ _ hguard

theorem Placed.changes_push (ext) (h : Placed s.transactionContext) :
    Changes s.transactionContext (final (InvokeContext.push ext) s).transactionContext := by
  obtain ⟨-, e, hrun⟩ | ⟨hadmits, hrun⟩ := push_cases ext s
  · rw [final, hrun]
    exact ⟨h, .same _⟩
  have hkeys := (quiet_push ext s.transactionContext).accountKeys_eq
  have houtcome := TransactionContext.push_outcome ext h.trace
  have hfinal : (final (InvokeContext.push ext) s).transactionContext =
      final (TransactionContext.push ext) s.transactionContext := by
    rw [final, hrun, ← final, onTransaction, final_zoom]
  rw [hfinal]
  rw [final] at hkeys ⊢
  cases hpush : (TransactionContext.push ext).run s.transactionContext with
  | ok u ctx' =>
    rw [hpush] at houtcome hkeys
    cases houtcome with
    | noSysvar | stored => exact h.changes_entered hadmits hkeys
  | error e ctx' =>
    rw [hpush] at houtcome hkeys
    cases houtcome with
    | unbalanced => exact ⟨h, .same _⟩
    | traceFull => exact h.changes_of_keeps (keepsPrograms_leveled _) rfl
    | tooDeep =>
      exact h.changes_of_keeps ((keepsPrograms_leveled _).trans (keepsPrograms_taken _)) (taken_instructionStack _)
    | notStored => exact h.changes_entered hadmits hkeys

theorem Placed.changes_pop (h : Placed s.transactionContext) :
    Changes s.transactionContext (final InvokeContext.pop s).transactionContext := by
  obtain ⟨a, current, hpop, -, hkeys, -⟩ := final_pop s.transactionContext
  rw [final_pop_transactionContext, hpop]
  have hmem : ∀ i ∈ s.transactionContext.instructionStack.dropLast, i ∈ s.transactionContext.instructionStack :=
    fun i hi => (dropLast_sublist _).mem hi
  refine ⟨⟨h.trace, fun i hi => h.below i (hmem i hi), fun i hi hlast => ?_⟩, ?_⟩
  · have hi : i ∈ s.transactionContext.instructionStack.dropLast := hi
    rw [h.alone i (hmem i hi) hlast] at hi
    cases hi
  · have hprograms : (final TransactionContext.pop s.transactionContext).programs =
        s.transactionContext.programs.dropLast := by
      rw [hpop, programs, programs, ← map_dropLast]
      exact map_congr_left fun i hi => KeepsPrograms.programAt ⟨hkeys, le_rfl, fun _ _ => rfl⟩ (h.below i (hmem i hi))
    rw [← hpop, hprograms]
    exact .pop _

/-- A call is configured in the reserved frame, which is on the stack only if it is
alone there. -/
theorem Placed.changes_configured (h : Placed ctx) (hprepared : PreparedCall ctx ctx' c index) :
    Changes ctx ctx' := by
  obtain ⟨total, cpiScratchpad, f, rfl, -⟩ := hprepared
  have hlength : (ctx.instructionTrace.modify ctx.getInstructionTraceLength f).length = ctx.instructionTrace.length :=
    length_modify ..
  have hplaced : Placed (ctx.withCall c total cpiScratchpad f) := by
    refine ⟨?_, ?_, ?_⟩
    · exact length_pos_iff.mp (hlength ▸ length_pos_iff.mpr h.trace)
    · rw [withCall, hlength]
      exact h.below
    · rw [withCall, hlength]
      exact h.alone
  refine ⟨hplaced, ?_⟩
  by_cases hreserved : ctx.getInstructionTraceLength ∈ ctx.instructionStack
  · have hlast : ctx.getInstructionTraceLength + 1 = ctx.instructionTrace.length :=
      Nat.sub_add_cancel (length_pos_iff.mpr h.trace)
    rw [programs, programs, withCall, h.alone _ hreserved hlast]
    exact .replace _ _
  · have hprograms : (ctx.withCall c total cpiScratchpad f).programs = ctx.programs := by
      refine map_congr_left fun i hi => ?_
      have hne : ctx.getInstructionTraceLength ≠ i := fun heq => hreserved (heq ▸ hi)
      rw [programAt_eq, programAt_eq, withCall, getElem?_modify_ne _ _ hne]
    rw [hprograms]
    exact .same _

theorem Placed.changes_prepare (h : Placed s.transactionContext) (instruction)
    (signers) : Changes s.transactionContext
      (final (prepareNextCpiInstruction instruction signers) s).transactionContext := by
  rw [final]
  cases hrun : (prepareNextCpiInstruction instruction signers).run s with
  | ok u s' =>
    obtain ⟨_, _, _, _, -, -, hprepared⟩ := prepareNextCpiInstruction_ok hrun
    exact h.changes_configured hprepared
  | error fault s' =>
    rw [prepareNextCpiInstruction_error h.trace hrun]
    exact ⟨h, .same _⟩

end Programs

/-- What a step does to the programs on the stack. -/
theorem StackStep.change {ext : Externals} (hstep : StackStep ext s s')
    (h : Placed s.transactionContext) : Changes s.transactionContext s'.transactionContext := by
  cases hstep with
  | operate op =>
    cases op with
    | prepare instruction signers => exact h.changes_prepare instruction signers
    | push =>
      rw [TraceOp.run, final_mapError]
      exact h.changes_push ext
    | pop =>
      rw [TraceOp.run, final_mapError]
      exact h.changes_pop
  | work _ _ _ _ _ keys =>
    exact h.changes_of_keeps ⟨keys, le_rfl, fun _ _ => rfl⟩ rfl

/-! ## Runs -/

theorem placed_start {message : SVMMessage} {accounts : List (Pubkey × AccountSharedData)} {rent : Rent}
    {start : InvokeContext} (h : (prepareTopLevelInstructions message).run
      ⟨.new accounts rent stackCapacity traceCapacity n, []⟩ = .ok () start) :
    Placed start.transactionContext ∧ start.transactionContext.programs = [] := by
  have hprepared := prepareTopLevelFrom_ok h
  have hstack : start.transactionContext.instructionStack = [] := by
    obtain ⟨trace, heq⟩ := hprepared.rest
    rw [heq]
    rfl
  refine ⟨⟨?_, ?_, ?_⟩, by rw [programs, hstack]; rfl⟩
  · refine length_pos_iff.mp ?_
    rw [hprepared.trace]
    simp only [new, length_replicate, Machine.satAdd]
    omega
  · simp [hstack]
  · simp [hstack]

section Runs

variable {ext : Externals} {message : SVMMessage} {accounts : List (Pubkey × AccountSharedData)} {rent : Rent}

theorem StackReachable.contiguous (h : StackReachable ext message accounts rent stackCapacity traceCapacity s) :
    Placed s.transactionContext ∧ Contiguous s.transactionContext.programs := by
  obtain ⟨start, hstart, hrun⟩ := h
  induction hrun with
  | refl =>
    obtain ⟨hplaced, hprograms⟩ := placed_start hstart
    exact ⟨hplaced, hprograms ▸ contiguous_of_length_le_one (Nat.zero_le 1)⟩
  | tail _ hstep ih =>
    obtain ⟨hplaced, hchange⟩ := hstep.change ih.1
    exact ⟨hplaced, hchange.contiguous ih.2⟩

theorem RunsAbove.steps (h : RunsAbove ext position s s') : Relation.ReflTransGen (StackStep ext) s s' := by
  induction h with
  | refl => exact .refl
  | tail _ hstep ih => exact ih.tail hstep.1

/-- What lies at or under a position stays while the position is not left. -/
theorem RunsAbove.getElem? (h : RunsAbove ext position s s') (hposition : 0 < position)
    (hplaced : Placed s.transactionContext) (hheight : position < s.transactionContext.getInstructionStackHeight) :
    Placed s'.transactionContext ∧ position < s'.transactionContext.getInstructionStackHeight ∧
      ∀ j ≤ position, s'.transactionContext.programs[j]? = s.transactionContext.programs[j]? := by
  induction h with
  | refl => exact ⟨hplaced, hheight, fun _ _ => rfl⟩
  | @tail s1 s2 _ hstep ih =>
    obtain ⟨hplaced1, hheight1, hsame⟩ := ih
    obtain ⟨hplaced2, hchange⟩ := hstep.1.change hplaced1
    have hlength (c : TransactionContext) : c.programs.length = c.getInstructionStackHeight := length_map _
    refine ⟨hplaced2, hstep.2, fun j hj => ?_⟩
    rw [hchange.getElem?_eq hposition (by rw [hlength]; exact hheight1) (by rw [hlength]; exact hstep.2) hj, hsame j hj]

/-- The positions of a program on the stack are contiguous, whatever pushes and pops were
made. So a program that called another one does not run again above that call as long
as the call has not returned. -/
theorem only_self_recursion (hreach : StackReachable ext message accounts rent stackCapacity traceCapacity s) :
    (∀ key i j k, i ≤ j → j ≤ k → s.Runs i key → s.Runs k key → s.Runs j key) ∧
    ∀ position caller callee, s.Runs position caller → s.Runs (position + 1) callee → callee ≠ caller →
      ∀ s', RunsAbove ext (position + 1) s s' → ∀ k > position, ¬ s'.Runs k caller := by
  obtain ⟨hplaced, hcontiguous⟩ := hreach.contiguous
  refine ⟨fun key => hcontiguous (some key), ?_⟩
  intro position caller callee hcaller hcallee hne s' hruns k hk hagain
  have hheight : position + 1 < s.transactionContext.getInstructionStackHeight := by
    have hlt := (getElem?_eq_some_iff.mp hcallee).1
    rwa [programs, length_map] at hlt
  obtain ⟨-, -, hsame⟩ := hruns.getElem? (Nat.succ_pos position) hplaced hheight
  have hreach' : StackReachable ext message accounts rent stackCapacity traceCapacity s' := by
    obtain ⟨start, hstart, hrun⟩ := hreach
    exact ⟨start, hstart, hrun.trans hruns.steps⟩
  have hcaller' : s'.Runs position caller := (hsame position (Nat.le_succ _)).trans hcaller
  have hcallee' : s'.Runs (position + 1) callee := (hsame (position + 1) le_rfl).trans hcallee
  -- The caller would run on both sides of the callee.
  have hbetween := hreach'.contiguous.2 (some caller) position (position + 1) k (Nat.le_succ _) hk hcaller' hagain
  rw [InvokeContext.Runs, hbetween] at hcallee'
  cases hcallee'
  exact hne rfl

end Runs

/-! ## A program that calls another one -/

namespace OtherCall

def accounts : List (Pubkey × AccountSharedData) :=
  [(key 1, SelfCall.account), (key 2, SelfCall.account)]

/-- One instruction of the first program, with the second one as its account. -/
def message : SVMMessage := { SelfCall.message with instructions := [⟨0, [1], []⟩] }

def start : InvokeContext :=
  final (prepareTopLevelInstructions message) ⟨.new accounts SelfCall.rent 5 64 1, []⟩

/-- The operations up to the call. -/
def ops : List TraceOp := [.push, .prepare ⟨key 2, [], []⟩ [], .push]

def called : InvokeContext := ops.foldl (fun s op => final (op.run ext) s) start

end OtherCall

/-- The first program has called the second one, and does not run above it. -/
theorem only_self_recursion_called : OtherCall.called.Runs 0 (SelfCall.key 1) ∧
    OtherCall.called.Runs 1 (SelfCall.key 2) ∧
    ∀ s', RunsAbove SelfCall.ext 1 OtherCall.called s' → ∀ k > 0, ¬ s'.Runs k (SelfCall.key 1) := by
  have hreach : StackReachable ext OtherCall.message OtherCall.accounts rent 5 64 OtherCall.called :=
    ⟨OtherCall.start, rfl, ((Relation.ReflTransGen.single (.operate .push _)).tail
      (.operate (.prepare ⟨key 2, [], []⟩ []) _)).tail (.operate .push _)⟩
  have hcaller : OtherCall.called.Runs 0 (key 1) := rfl
  have hcallee : OtherCall.called.Runs 1 (key 2) := rfl
  exact ⟨hcaller, hcallee, (only_self_recursion hreach).2 0 _ _ hcaller hcallee (by decide)⟩

end Svm
