import Svm.Proof.Push
import Svm.Spec.Calls

/-!
# What a call does to the trace

What is left of the instruction trace and stack by a successful push
(`Pushed`), and by preparing a cross-program invocation (`PreparedCall`) or the
instructions of a message (`PreparedTopLevel`).
-/

namespace Svm

open Run TransactionContext InvokeContext EStateM
open List hiding isEmpty_iff

variable {ext : Externals} {ctx ctx' : TransactionContext} {s s' : InvokeContext}

/-- What a successful push leaves: the frame that the stack gets is the next of the
message or the reserved one, and in that case another is reserved. -/
structure Pushed (ctx ctx' : TransactionContext) : Prop where
  keys : ctx'.accounts.accountKeys = ctx.accounts.accountKeys
  instructionAccounts : ctx'.instructionAccounts = ctx.instructionAccounts
  deduplicationMaps : ctx'.deduplicationMaps = ctx.deduplicationMaps
  instructionData : ctx'.instructionData = ctx.instructionData
  stack : ctx'.instructionStack = ctx.instructionStack ++
    [if ctx.instructionStack = [] then ctx.nextTopLevelInstructionIndex else ctx.instructionTrace.length - 1]
  trace : ∃ level, ctx'.instructionTrace =
    ctx.instructionTrace.modify (ctx.instructionTrace.length - 1) ({ · with nestingLevel := level }) ++
      if ctx.instructionStack = [] then [] else [default]

theorem push_ok (h : (TransactionContext.push ext).run ctx = .ok () ctx') : Pushed ctx ctx' := by
  have hkeys : ctx'.accounts.accountKeys = ctx.accounts.accountKeys := by
    have hq := quiet_push ext ctx
    rw [final, h] at hq
    exact hq.accountKeys_eq
  by_cases htrace : ctx.instructionTrace = []
  · simp [TransactionContext.push] at h
    split at h <;> cases h
  have houtcome := push_outcome ext htrace
  obtain ⟨a, rfl⟩ : ∃ a, ctx' = { ctx.entered with accounts := a } := by
    rw [h] at houtcome
    cases houtcome with
    | noSysvar | stored => exact ⟨_, rfl⟩
  have hleveled : ctx.leveled.instructionStack = ctx.instructionStack := rfl
  by_cases hstack : ctx.instructionStack = []
  · refine ⟨hkeys, ?_, ?_, ?_, ?_, .ofNat ctx.getInstructionStackHeight, ?_⟩ <;>
      simp only [entered, taken, nextInvocation, hleveled, hstack, if_true, append_nil] <;> rfl
  · refine ⟨hkeys, ?_, ?_, ?_, ?_, .ofNat ctx.getInstructionStackHeight, ?_⟩ <;>
      simp only [entered, taken, nextInvocation, hleveled, hstack, if_false] <;> rfl

theorem InvokeContext.push_run (h : (push ext).run s = .ok () s') :
    (TransactionContext.push ext).run s.transactionContext = .ok () s'.transactionContext := by
  obtain ⟨-, e, he⟩ | ⟨-, heq⟩ := push_cases ext s
  · cases h.symm.trans he
  · rw [h] at heq
    obtain ⟨ctx, hpush, rfl⟩ := run_zoom_ok.mp heq.symm
    exact hpush

theorem InvokeContext.push_ok (h : (push ext).run s = .ok () s') :
    Pushed s.transactionContext s'.transactionContext := Svm.push_ok (push_run h)

/-- A call is configured in the reserved frame, by `f`. -/
def TransactionContext.withCall (ctx : TransactionContext) (c : Configuration) (total : UInt16)
    (cpiScratchpad : VmSlice) (f : InstructionFrame → InstructionFrame) : TransactionContext :=
  { ctx with
    transactionFrame := { ctx.transactionFrame with
      totalNumberOfInstructionsInTrace := total
      cpiScratchpad := cpiScratchpad }
    instructionTrace := ctx.instructionTrace.modify ctx.getInstructionTraceLength f
    deduplicationMaps := ctx.deduplicationMaps ++ [c.table]
    instructionAccounts := ctx.instructionAccounts ++ [c.accounts]
    instructionData := ctx.instructionData ++ [c.data] }

/-- What preparing a call of a caller leaves. -/
def PreparedCall (ctx ctx' : TransactionContext) (c : Configuration) (caller : UInt16) : Prop :=
  ∃ total cpiScratchpad f, ctx' = ctx.withCall c total cpiScratchpad f ∧
    ∀ frame, (f frame).programAccountIndexInTx = c.program ∧ (f frame).indexOfCallerInstruction = caller

theorem configure_call (h : (configureInstructionAtIndex ctx.getInstructionTraceLength c.program c.accounts c.table
      c.data (some caller)).run ctx = .ok () ctx') : PreparedCall ctx ctx' c caller := by
  simp only [configureInstructionAtIndex, run_bind, run_get, run_ite, run_modify, modify_modify_eq] at h
  split at h
  · injection h with _ h
    exact ⟨_, _, _, h.symm, fun _ => ⟨rfl, rfl⟩⟩
  · cases h

theorem prepareNextCpiInstruction_ok (h : (prepareNextCpiInstruction instruction signers).run s = .ok () s') :
    ∃ program accounts table caller, resolveCpi s.transactionContext instruction signers = .ok (program, accounts, table) ∧
      s.transactionContext.instructionStack.getLast? = some caller ∧
      PreparedCall s.transactionContext s'.transactionContext ⟨program, accounts, table, instruction.data⟩
        (.ofNat caller) := by
  simp only [prepareNextCpiInstruction, run] at h
  split at h
  · cases h
  rename_i program accounts table hresolve
  split at h
  · cases h
  rename_i caller hcaller
  split at h
  · rename_i hconfigure
    cases h
    obtain ⟨ctx, hctx, rfl⟩ := run_zoom_ok.mp hconfigure
    refine ⟨program, accounts, table, caller, hresolve, ?_, configure_call hctx⟩
    simp only [getCurrentInstructionIndex] at hcaller
    split at hcaller
    · rename_i hlast
      cases hcaller
      exact hlast
    · cases hcaller
  · cases h

/-- A call that is refused changes nothing. -/
theorem prepareNextCpiInstruction_error (htrace : s.transactionContext.instructionTrace ≠ [])
    (h : (prepareNextCpiInstruction instruction signers).run s = .error fault s') : s' = s := by
  simp only [prepareNextCpiInstruction, run] at h
  split at h
  · cases h; rfl
  split at h
  · cases h; rfl
  split at h
  · cases h
  · rename_i hconfigure
    have hlt : s.transactionContext.getInstructionTraceLength < s.transactionContext.instructionTrace.length :=
      Nat.sub_lt (length_pos_iff.mpr htrace) one_pos
    -- the reserved frame is always there to be configured
    simp only [onTransaction, zoom, configureInstructionAtIndex, run_bind, run_get, hlt] at hconfigure
    cases hconfigure

/-- What `prepare_top_level_instructions` leaves, from the instruction at `index` on. -/
structure PreparedTopLevel (message : SVMMessage) (index : Nat) (instructions : List SVMInstruction)
    (ctx ctx' : TransactionContext) : Prop where
  rest : ∃ trace, ctx' = { ctx with
    instructionTrace := trace
    deduplicationMaps := ctx.deduplicationMaps ++ instructions.map fun i => (resolveTopLevel message i).1
    instructionAccounts := ctx.instructionAccounts ++ instructions.map fun i => (resolveTopLevel message i).2
    instructionData := ctx.instructionData ++ instructions.map (·.data) }
  trace : ctx'.instructionTrace.length = ctx.instructionTrace.length
  frame : ∀ i frame, ctx.instructionTrace[i]? = some frame → ∃ frame' : InstructionFrame,
    ctx'.instructionTrace[i]? = some frame' ∧ frame'.nestingLevel = frame.nestingLevel ∧
    frame'.indexOfCallerInstruction = frame.indexOfCallerInstruction ∧
    (i < index → frame'.programAccountIndexInTx = frame.programAccountIndexInTx)
  program : ∀ i instruction, instructions[i]? = some instruction → ∃ frame : InstructionFrame,
    ctx'.instructionTrace[index + i]? = some frame ∧
    frame.programAccountIndexInTx = .ofNat instruction.programIdIndex.toNat

theorem prepareTopLevelFrom_ok (h : (prepareTopLevelFrom message index instructions).run s = .ok () s') :
    PreparedTopLevel message index instructions s.transactionContext s'.transactionContext := by
  induction instructions generalizing index s with
  | nil =>
    cases h
    exact ⟨⟨s'.transactionContext.instructionTrace, by simp⟩, rfl, fun _ frame hframe => ⟨frame, hframe, rfl, rfl, fun _ => rfl⟩, by simp⟩
  | cons instruction instructions ih =>
    simp only [prepareTopLevelFrom, run_bind, run_get] at h
    split at h
    · rename_i s1 hconfigure
      obtain ⟨ctx, hctx, rfl⟩ := run_zoom_ok.mp hconfigure
      have hrest := ih h
      simp only [configureInstructionAtIndex, run_bind, run_get] at hctx
      split at hctx
      · rename_i hlt
        cases hctx
        obtain ⟨trace, heq⟩ := hrest.rest
        refine ⟨⟨trace, by rw [heq]; simp⟩, hrest.trace.trans (length_modify ..), fun i frame hframe => ?_, fun i => ?_⟩
        · obtain ⟨frame', hframe', hlevel, hcaller, hprogram⟩ := hrest.frame i _ (by rw [getElem?_modify, hframe]; rfl)
          refine ⟨frame', hframe', hlevel.trans ?_, hcaller.trans ?_, fun hi => (hprogram (by omega)).trans ?_⟩
          · split <;> rfl
          · split <;> rfl
          · exact congrArg InstructionFrame.programAccountIndexInTx (if_neg (by omega))
        · cases i with
          | zero =>
            rintro _ ⟨⟩
            obtain ⟨frame, hframe, -, -, hprogram⟩ := hrest.frame index _ (by
              rw [getElem?_modify_eq, getElem?_eq_getElem hlt]
              rfl)
            exact ⟨frame, hframe, hprogram (Nat.lt_succ_self _)⟩
          | succ i =>
            intro instruction' hi
            rw [← Nat.add_assoc, Nat.add_right_comm]
            exact hrest.program i instruction' hi
      · cases hctx
    · cases h

/-! ## The instructions of the trace -/

/-- An instruction of the message has the accounts and the map that it resolves to. -/
theorem PreparedTopLevel.context {accounts : List (Pubkey × AccountSharedData)} {rent : Rent}
    (hn : message.instructions.length + 1 < 2 ^ 64) (h : PreparedTopLevel message 0 message.instructions
      (.new accounts rent stackCapacity traceCapacity message.instructions.length) ctx)
    (hi : message.instructions[i]? = some instruction) : ∃ ic, ctx.getInstructionContextAtIndexInTrace i = .ok ic ∧
      ic.instructionAccounts = (resolveTopLevel message instruction).2 ∧
      ic.dedupMap = (resolveTopLevel message instruction).1 := by
  obtain ⟨hlt, -⟩ := List.getElem?_eq_some_iff.mp hi
  have htrace := h.trace
  rw [new, length_replicate, Machine.satAdd_eq (by omega)] at htrace
  obtain ⟨trace, rfl⟩ := h.rest
  rw [getInstructionContextAtIndexInTrace, getElem?_eq_getElem (by omega)]
  refine ⟨_, rfl, ?_, ?_⟩ <;> simp only [new, nil_append, getElem?_map, hi] <;> rfl

/-- Every frame but the reserved one has its accounts, map and data. -/
structure Aligned (ctx : TransactionContext) : Prop where
  trace : ctx.instructionTrace.length = ctx.instructionAccounts.length + 1
  maps : ctx.deduplicationMaps.length = ctx.instructionAccounts.length
  data : ctx.instructionData.length = ctx.instructionAccounts.length

theorem Aligned.congr (h : Aligned ctx) (htrace : ctx'.instructionTrace.length = ctx.instructionTrace.length)
    (haccounts : ctx'.instructionAccounts = ctx.instructionAccounts)
    (hmaps : ctx'.deduplicationMaps = ctx.deduplicationMaps) (hdata : ctx'.instructionData = ctx.instructionData) :
    Aligned ctx' :=
  ⟨by rw [htrace, haccounts, h.trace], by rw [hmaps, haccounts, h.maps], by rw [hdata, haccounts, h.data]⟩

/-- A push changes no instruction but the reserved one. -/
theorem Pushed.context (h : Pushed ctx ctx') (hi : i < ctx.instructionTrace.length - 1) :
    ctx'.getInstructionContextAtIndexInTrace i = ctx.getInstructionContextAtIndexInTrace i := by
  obtain ⟨level, htrace⟩ := h.trace
  have hframe : ctx'.instructionTrace[i]? = ctx.instructionTrace[i]? := by
    rw [htrace, getElem?_append_left (by rw [length_modify]; omega), getElem?_modify_ne _ _ (by omega)]
  simp [getInstructionContextAtIndexInTrace, hframe, h.instructionAccounts, h.deduplicationMaps, h.instructionData]

/-- A call: an instruction was configured in the reserved frame of `ctx`, and pushed. -/
structure Called (ctx ctx' : TransactionContext) (callee : InstructionContext) : Prop where
  aligned : Aligned ctx'
  keys : ctx'.accounts.accountKeys = ctx.accounts.accountKeys
  length : ctx'.instructionAccounts.length = ctx.instructionAccounts.length + 1
  stack : ctx'.instructionStack = ctx.instructionStack ++ [ctx.instructionAccounts.length]
  context : ∀ i < ctx.instructionAccounts.length,
    ctx'.getInstructionContextAtIndexInTrace i = ctx.getInstructionContextAtIndexInTrace i
  callee : ctx'.getInstructionContextAtIndexInTrace ctx.instructionAccounts.length = .ok callee

section PreparedCall

variable {c : Configuration} (ha : Aligned ctx) (hc : PreparedCall ctx ctx1 c caller)

include ha hc

/-- The frame of the instruction is the last one. -/
theorem PreparedCall.reserved : ctx1.instructionTrace.length = ctx.instructionAccounts.length + 1 ∧
    ∃ frame, ctx1.instructionTrace[ctx.instructionAccounts.length]? = some frame ∧
      frame.programAccountIndexInTx = c.program := by
  obtain ⟨_, _, f, rfl, hf⟩ := hc
  have htrace := ha.trace
  have hframe := getElem?_eq_getElem (l := ctx.instructionTrace) (i := ctx.instructionAccounts.length) (by omega)
  simp only [withCall, length_modify, getInstructionTraceLength, htrace, Nat.add_sub_cancel, getElem?_modify_eq, hframe]
  exact ⟨trivial, _, rfl, (hf _).1⟩

/-- The other instructions stay. -/
theorem PreparedCall.context (hi : i < ctx.instructionAccounts.length) :
    ctx1.getInstructionContextAtIndexInTrace i = ctx.getInstructionContextAtIndexInTrace i := by
  obtain ⟨_, _, f, rfl, -⟩ := hc
  have hne : ctx.getInstructionTraceLength ≠ i := by rw [getInstructionTraceLength, ha.trace]; omega
  simp only [getInstructionContextAtIndexInTrace, withCall, getElem?_modify_ne _ _ hne, getElem?_append_left hi,
    getElem?_append_left (ha.maps ▸ hi), getElem?_append_left (ha.data ▸ hi)]

theorem PreparedCall.called (hstack : ctx.instructionStack ≠ []) (hp : Pushed ctx1 ctx') :
    ∃ callee, Called ctx ctx' callee ∧ callee.programAccountIndexInTx = c.program ∧
      callee.instructionAccounts = c.accounts ∧ callee.dedupMap = c.table := by
  obtain ⟨hlen, frame, hframe, hprogram⟩ := hc.reserved ha
  have hcontext {i : Nat} (hi : i < _) := hc.context ha (i := i) hi
  obtain ⟨_, _, f, rfl, -⟩ := hc
  obtain ⟨level, hlevel⟩ := hp.trace
  have hpushed := hp.stack
  rw [show (ctx.withCall ..).instructionStack = ctx.instructionStack from rfl, if_neg hstack, hlen,
    Nat.add_sub_cancel] at hlevel hpushed
  have haccounts : ctx'.instructionAccounts = ctx.instructionAccounts ++ [c.accounts] := hp.instructionAccounts
  have hmaps : ctx'.deduplicationMaps = ctx.deduplicationMaps ++ [c.table] := hp.deduplicationMaps
  have hdata : ctx'.instructionData = ctx.instructionData ++ [c.data] := hp.instructionData
  obtain ⟨callee, hcallee, hfields⟩ : ∃ callee,
      ctx'.getInstructionContextAtIndexInTrace ctx.instructionAccounts.length = .ok callee ∧
      callee.programAccountIndexInTx = c.program ∧ callee.instructionAccounts = c.accounts ∧
      callee.dedupMap = c.table := by
    rw [getInstructionContextAtIndexInTrace, hlevel, getElem?_append_left (by rw [length_modify]; omega),
      getElem?_modify_eq, hframe]
    refine ⟨_, rfl, hprogram, ?_, ?_⟩
    · rw [haccounts]
      simp
    · rw [hmaps, ← ha.maps]
      simp
  refine ⟨callee, ⟨⟨?_, ?_, ?_⟩, hp.keys, ?_, hpushed, fun i hi => ?_, hcallee⟩, hfields⟩
  · rw [hlevel, length_append, length_modify, hlen, haccounts, length_append]
    rfl
  · rw [hmaps, haccounts, length_append, length_append, ha.maps]
    rfl
  · rw [hdata, haccounts, length_append, length_append, ha.data]
    rfl
  · rw [haccounts, length_append]; rfl
  · rw [hp.context (by omega), hcontext hi]

end PreparedCall

end Svm
