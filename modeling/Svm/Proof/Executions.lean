import Svm.Proof.AccessControl
import Svm.Proof.Ledger
import Svm.Proof.Privileges
import Svm.Spec.Overlay

/-!
# Executions of the runtime

A run of the invoke context in which the instructions leave the accounts that they may not
write (`LawfulStep`) is an execution by the rules of `MessageStep` (`lawful_run_executes`):
each of its steps is some steps of an execution (`LawfulStep.executes`).
-/

namespace Svm

open Run TransactionContext InvokeContext Relation
open List hiding getElem?_eq_some_iff

/-- An execution of the message, over accounts with the keys. -/
abbrev Executes (message : SVMMessage) (sysvarInstructionsId : Pubkey) (keys : List Pubkey) :
    MessageState → MessageState → Prop :=
  ReflTransGen (MessageStep message fun i => keys[i]? = some sysvarInstructionsId)

variable {message : SVMMessage} {id : Pubkey} {keys : List Pubkey} {stack : List (List InstructionAccount)}
  {a a' : TransactionAccounts} {ic : InstructionContext} {ctx ctx' : TransactionContext}

/-! ## Contents -/

/-- The contents of the accounts that an index reaches. -/
def TransactionAccounts.contents (a : TransactionAccounts) (i : Nat) : AccountFields :=
  if i < 65536 then a.fieldsAt (.ofNat i) else Account.default.fields

theorem contents_congr (h : ∀ i, a'.fieldsAt i = a.fieldsAt i) : a'.contents = a.contents := by
  funext i
  rw [TransactionAccounts.contents, h]
  rfl

/-- The accounts that change are written one after the other. -/
theorem executes_write {current l : List InstructionAccount} {f f' : Nat → AccountFields} (hl : l ⊆ current)
    (h : ∀ i, f' i = f i ∨ ∃ x ∈ l, x.isWritable = true ∧ i = x.indexInTransaction.toNat) :
    Executes message id keys ⟨current :: stack, f⟩ ⟨current :: stack, f'⟩ := by
  induction l generalizing f with
  | nil =>
    obtain rfl : f' = f := funext fun i => by simpa using h i
    exact .refl
  | cons x l ih =>
    obtain ⟨hx, hl⟩ := cons_subset.mp hl
    by_cases hw : x.isWritable = true
    · refine .head (.write (f' x.indexInTransaction.toNat) hx hw) (ih hl fun i => ?_)
      by_cases hi : i = x.indexInTransaction.toNat
      · exact .inl (by rw [if_pos hi, hi])
      · simpa [hi] using h i
    · exact ih hl fun i => by simpa [hw] using h i

theorem executes_work (h : ∀ i, ic.NotWritable i → a'.fieldsAt i = a.fieldsAt i) :
    Executes message id keys ⟨ic.instructionAccounts :: stack, a.contents⟩
      ⟨ic.instructionAccounts :: stack, a'.contents⟩ := by
  refine executes_write (Subset.refl _) fun i => ?_
  unfold TransactionAccounts.contents
  split
  · rename_i hi
    by_cases hnot : ic.NotWritable (.ofNat i)
    · exact .inl (h _ hnot)
    · simp only [InstructionContext.NotWritable, not_forall, Bool.not_eq_false] at hnot
      obtain ⟨x, hx, hindex, hw⟩ := hnot
      exact .inr ⟨x, hx, hw, by rw [hindex, UInt16.toNat_ofNat_of_lt' hi]⟩
  · exact .inl rfl

/-- A push writes to the instructions sysvar at most. -/
theorem executes_push {ext : Externals} (message) (hkeys : ctx.accounts.accountKeys = keys) (hlen : keys.length ≤ 65536)
    (htrace : ctx.instructionTrace ≠ []) (h : (TransactionContext.push ext).run ctx = .ok () ctx') (stack) :
    Executes message ext.instructionsId keys ⟨stack, ctx.accounts.contents⟩ ⟨stack, ctx'.accounts.contents⟩ := by
  have houtcome := push_outcome ext htrace
  rw [h] at houtcome
  cases houtcome with
  | noSysvar => rw [entered_accounts]
  | @stored _ _ index found a stores =>
    have hquiet : Quiet ctx.accounts a := by
      have hquiet := quiet_storeCurrentIndex ext ctx.accounts index (.ofNat ctx.topLevelIndex)
      rwa [final, stores] at hquiet
    obtain ⟨-, -, -, hothers⟩ := data_storeCurrentIndex stores
    have hcontents : a.contents = fun i => if i = index.toNat then
        { ctx.accounts.contents i with data := (a.view index).data } else ctx.accounts.contents i := by
      funext i
      unfold TransactionAccounts.contents
      by_cases hi : i < 65536
      · rw [if_pos hi, if_pos hi, hquiet.fieldsAt]
        split
        · rename_i hindex
          rw [hindex, UInt16.ofNat_toNat]
        · rename_i hindex
          rw [hothers _ fun e => hindex (by rw [e, UInt16.toNat_ofNat_of_lt' hi])]
          rfl
      · have := index.toNat_lt
        rw [if_neg hi, if_neg hi, if_neg (by omega)]
    dsimp only
    rw [hcontents]
    subst hkeys
    exact .single (.storeCurrentIndex _ (findIndexOfAccount_key hlen found))

/-! ## The stack -/

/-- The accounts of the instructions on the stack. -/
def TransactionContext.levels (ctx : TransactionContext) : List (List InstructionAccount) :=
  ctx.instructionStack.map fun i => ctx.instructionAccounts[i]?.getD []

def TransactionContext.messageState (ctx : TransactionContext) : MessageState :=
  ⟨ctx.levels.reverse, ctx.accounts.contents⟩

theorem accounts_of_context (h : ctx.getInstructionContextAtIndexInTrace i = .ok ic) :
    ctx.instructionAccounts[i]?.getD [] = ic.instructionAccounts := by
  rw [getInstructionContextAtIndexInTrace] at h
  split at h
  · cases h
  · cases h
    rfl

theorem levels_getElem? (h : ctx.getInstructionContextAtNestingLevel k = .ok ic) :
    ctx.levels[k]? = some ic.instructionAccounts := by
  rw [getInstructionContextAtNestingLevel] at h
  split at h
  · rename_i hindex
    rw [levels, getElem?_map, hindex, Option.map_some, accounts_of_context h]
  · cases h

theorem reverse_eq_cons {l : List α} (h : l[l.length - 1]? = some x) : l.reverse = x :: l.dropLast.reverse := by
  rw [← getLast?_eq_getElem?] at h
  obtain ⟨ys, rfl⟩ := getLast?_eq_some_iff.mp h
  simp

/-- What a call passes on. -/
theorem Passes.messageStep (h : Passes ext keys call instruction caller callee)
    (hcaller : l[l.length - 1]? = some caller.instructionAccounts) (contents) :
    MessageStep message sysvar ⟨l.reverse, contents⟩ ⟨(l ++ [callee.instructionAccounts]).reverse, contents⟩ := by
  rw [reverse_append, reverse_eq_cons hcaller]
  refine .call fun x hx => ?_
  obtain ⟨y, hy, hyx⟩ := h.account x hx
  exact ⟨y, hy, hyx, h.writable x hx y hy hyx⟩

/-! ## Steps -/

/-- A step of calls that list at most `u16::MAX` accounts, in which the current instruction
leaves the accounts that it may not write. -/
structure LawfulStep (ext : CallExternals) (n : Nat) (s s' : CallState) : Prop where
  step : CallStep ext n s s'
  short : ∀ call ∈ s'.calls, call.Short
  work : s'.calls = s.calls → ∀ i,
    (∀ ic, s.ctx.getCurrentInstructionContext = .ok ic → ic.NotWritable i) →
      s'.ctx.accounts.fieldsAt i = s.ctx.accounts.fieldsAt i

/-- Work that the access control lets through is lawful. -/
theorem LawfulStep.of_respects (hstep : CallStep ext n s s') (hshort : ∀ call ∈ s'.calls, call.Short)
    (hic : s.ctx.getCurrentInstructionContext = .ok ic) (h : Respects ic program s.ctx.accounts s'.ctx.accounts) :
    LawfulStep ext n s s' :=
  ⟨hstep, hshort, fun _ i hi => congrArg TransactionAccountView.fields (h.notWritable i (hi ic hic))⟩

section Steps

variable {ext : CallExternals} {s s' : CallState} {prepared pushed : InvokeContext} (hlen : keys.length ≤ 65536)
  (h : CallInv ext message keys s.ctx s.calls)

include hlen h

theorem executes_call {call : Call} {c : Configuration} (hstack : s.ctx.instructionStack ≠ [])
    (hc : PreparedCall s.ctx prepared.transactionContext c index)
    (hpush : (InvokeContext.push ext.toExternals).run prepared = .ok () pushed)
    (h' : CallInv ext message keys pushed.transactionContext (s.calls ++ [call]))
    (hshort : ∀ call' ∈ s.calls ++ [call], call'.Short) :
    Executes message ext.instructionsId keys s.ctx.messageState pushed.transactionContext.messageState := by
  have htrace := (hc.reserved h.aligned).1
  have hdepth : s.ctx.levels.length = s.calls.length := by rw [levels, length_map, h.depth]
  obtain ⟨k, hk⟩ : ∃ k, s.calls.length = k + 1 := by
    have := length_pos_iff.mpr hstack
    exact ⟨s.calls.length - 1, by rw [h.depth]; omega⟩
  obtain ⟨call', instruction, caller, callee, -, -, hcaller, hcallee, -, hpasses⟩ :=
    h'.level (k + 1) (by rw [length_append, hk]; exact Nat.lt_succ_self _)
      fun call' hcall' => hshort call' (mem_of_mem_take hcall')
  have hcaller := levels_getElem? hcaller
  have hcallee := levels_getElem? hcallee
  have hp := InvokeContext.push_ok hpush
  obtain ⟨_, _, f, heq, -⟩ := hc
  have haccounts : prepared.transactionContext.accounts = s.ctx.accounts := by rw [heq]; rfl
  obtain ⟨x, hx⟩ : ∃ x, pushed.transactionContext.levels = s.ctx.levels ++ [x] := by
    rw [levels, hp.stack, hp.instructionAccounts, map_append, heq]
    refine ⟨_, congrArg (· ++ _) (map_congr_left fun i hi => ?_)⟩
    rw [withCall, getElem?_append_left (h.stack i hi)]
  rw [hx, getElem?_append_left (by omega)] at hcaller
  rw [hx, getElem?_append_right (by omega), hdepth, hk, Nat.sub_self] at hcallee
  cases hcallee
  have hpushed := executes_push message (haccounts ▸ h.sameKeys) hlen (ne_nil_of_length_eq_add_one htrace)
    (InvokeContext.push_run hpush) pushed.transactionContext.levels.reverse
  rw [haccounts] at hpushed
  refine .head ?_ hpushed
  rw [hx]
  exact hpasses.messageStep (by rw [hdepth, hk]; exact hcaller) _

theorem LawfulStep.executes (hstep : LawfulStep ext message.instructions.length s s') :
    Executes message ext.instructionsId keys s.ctx.messageState s'.ctx.messageState := by
  have h' := h.step hlen hstep.step
  obtain ⟨hstep, hshort, hwork⟩ := hstep
  have htrace : s.ctx.instructionTrace ≠ [] := ne_nil_of_length_eq_add_one h.aligned.trace
  cases hstep with
  | enter idle next pushed =>
    obtain ⟨ic, hic, -, instruction, hmem, haccounts⟩ := h.topLevel _ next
    have hp := InvokeContext.push_ok pushed
    have hpushed := executes_push message h.sameKeys hlen htrace (InvokeContext.push_run pushed) [ic.instructionAccounts]
    rw [messageState, messageState, levels, levels, hp.stack, hp.instructionAccounts, idle, if_pos rfl, nil_append,
      map_singleton, accounts_of_context hic]
    refine .head ?_ hpushed
    rw [haccounts]
    exact .enter hmem
  | cpi prepares pushed | native _ prepares pushed =>
    obtain ⟨_, _, _, _, -, hcaller, hc⟩ := prepareNextCpiInstruction_ok prepares
    exact executes_call hlen h (ne_nil_of_mem (mem_of_getLast? hcaller)) hc pushed h' hshort
  | refused refuses => rw [prepareNextCpiInstruction_error htrace refuses]
  | leave =>
    simp only [CallState.ctx, final_pop_transactionContext]
    obtain ⟨a, _, hpop, -, -, hdata⟩ := final_pop s.ctx
    have hcontents : (final TransactionContext.pop s.ctx).accounts.contents = s.ctx.accounts.contents := by
      refine contents_congr fun i => ?_
      rw [(quiet_pop s.ctx).fieldsAt, hpop, hdata]
      rfl
    have hlevels : (final TransactionContext.pop s.ctx).levels = s.ctx.levels.dropLast := by
      rw [hpop]
      exact map_dropLast
    rw [messageState, messageState, hlevels, hcontents]
    cases hlast : s.ctx.levels[s.ctx.levels.length - 1]? with
    | none =>
      rw [← getLast?_eq_getElem?, getLast?_eq_none_iff] at hlast
      rw [hlast]
      exact .refl
    | some x =>
      rw [reverse_eq_cons hlast]
      exact .single .leave
  | work accounts returnDataBytes transactionFrame syscallContext hkeys =>
    have hwork := hwork rfl
    cases hcurrent : s.ctx.getCurrentInstructionContext with
    | error e =>
      have hcontents := contents_congr fun i => hwork i fun ic hic => by rw [hcurrent] at hic; cases hic
      rw [messageState, messageState, hcontents]
      exact .refl
    | ok ic =>
      have hlast := levels_getElem? ((getCurrentInstructionContext_eq _).symm.trans hcurrent)
      rw [← length_map, ← levels] at hlast
      show Executes _ _ _ ⟨s.ctx.levels.reverse, _⟩ ⟨s.ctx.levels.reverse, _⟩
      rw [reverse_eq_cons hlast]
      refine executes_work fun i hi => hwork i fun ic' hic => ?_
      rw [hcurrent] at hic
      cases hic
      exact hi

end Steps

/-- A lawful run of the instructions of a message is an execution of it. -/
theorem lawful_run_executes {ext : CallExternals} {accounts : List (Pubkey × AccountSharedData)} {rent : Rent}
    {start : InvokeContext} {s : CallState} (hn : message.instructions.length + 1 < 2 ^ 64)
    (haccounts : accounts.length ≤ 65536)
    (htop : ∀ instruction ∈ message.instructions, instruction.accounts.length ≤ 65535)
    (hstart : (prepareTopLevelInstructions message).run
      ⟨.new accounts rent stackCapacity traceCapacity message.instructions.length, []⟩ = .ok () start)
    (hrun : ReflTransGen (LawfulStep ext message.instructions.length) ⟨start, []⟩ s) :
    Executes message ext.instructionsId (accounts.map (·.1)) ⟨[], (TransactionAccounts.new accounts).contents⟩
      s.ctx.messageState := by
  induction hrun with
  | refl =>
    obtain ⟨trace, heq⟩ := (prepareTopLevelFrom_ok hstart).rest
    rw [CallState.ctx, heq]
    exact .refl
  | tail hrun hstep ih =>
    have hreach : CallReachable ext message accounts rent stackCapacity traceCapacity _ :=
      ⟨start, hstart, ReflTransGen.mono (fun _ _ => LawfulStep.step) _ _ hrun⟩
    exact ih.trans (hstep.executes (by rwa [length_map]) (hreach.inv hn haccounts htop))

end Svm
