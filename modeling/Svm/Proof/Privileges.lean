import Svm.Proof.Calls
import Svm.Proof.CpiAccounts

/-!
# No privilege escalation

Along any chain of calls, an instruction passes on no privilege it does not
have. `Passes.of_resolved` is one call, from what the two passes over its metas
compute; `CallInv` carries it along a run, for every level of the stack.
-/

namespace Svm

open FirstIndex Run TransactionContext InvokeContext
open List hiding getElem?_eq_some_iff

variable {ctx : TransactionContext} {t : UInt16} {signers : List Pubkey}

/-! ## One call -/

theorem findIndexOfAccount_key (hlen : ctx.accounts.accountKeys.length ≤ 65536)
    (h : ctx.findIndexOfAccount key = some t) : ctx.accounts.accountKeys[t.toNat]? = some key := by
  simp only [findIndexOfAccount, Option.map_eq_some_iff] at h
  obtain ⟨p, hp, rfl⟩ := h
  obtain ⟨hlt, hkey, -⟩ := findIdx?_eq_some_iff_getElem.mp hp
  rw [UInt16.toNat_ofNat', Nat.mod_eq_of_lt (by omega), getElem?_eq_getElem hlt]
  exact congrArg some (beq_iff_eq.mp hkey)

/-- Metas that name an account of the transaction are those with its key. -/
theorem names_eq (hlen : ctx.accounts.accountKeys.length ≤ 65536)
    (h : ctx.findIndexOfAccount key = some t) (m) : Names ctx t m = (m.pubkey == key) := by
  rw [Names, Bool.eq_iff_iff, beq_iff_eq, beq_iff_eq]
  constructor
  · intro hm
    exact Option.some.inj ((findIndexOfAccount_key hlen hm).symm.trans (findIndexOfAccount_key hlen h))
  · rintro rfl
    exact h

/-- The map of an instruction records its accounts, and all entries of one account
are equal. -/
structure Tracked (ic : InstructionContext) : Prop where
  records : Records ic.dedupMap (indices ic.instructionAccounts)
  length : ic.instructionAccounts.length ≤ 65535
  uniform : ∀ x ∈ ic.instructionAccounts, ∀ y ∈ ic.instructionAccounts,
    x.indexInTransaction = y.indexInTransaction → x = y

variable {ic : InstructionContext}

/-- The map finds the first position of an account. -/
theorem Tracked.index_ok (h : Tracked ic) :
    ic.getIndexOfAccountInInstruction t = .ok index ↔ t.toNat < ic.dedupMap.length ∧
      t ∈ indices ic.instructionAccounts ∧ (indices ic.instructionAccounts).idxOf t = index.toNat := by
  have hlen := h.length
  rw [← length_indices] at hlen
  by_cases ht : t.toNat < ic.dedupMap.length
  · simp only [InstructionContext.getIndexOfAccountInInstruction, h.records t ht, ht, true_and]
    simp only [← length_indices, ← Nat.not_lt, firstIndex_lt_iff hlen]
    by_cases hmem : t ∈ indices ic.instructionAccounts
    · rw [if_neg (not_not_intro hmem), ← toNat_firstIndex hlen hmem, UInt16.toNat_inj, and_iff_right hmem]
      exact ⟨Except.ok.inj, congrArg _⟩
    · simp [hmem]
  · simp [InstructionContext.getIndexOfAccountInInstruction, ht]

theorem Tracked.found (h : Tracked ic) (hi : ic.getIndexOfAccountInInstruction t = .ok index) :
    ∃ y, ic.instructionAccounts[index.toNat]? = some y ∧ y.indexInTransaction = t := by
  obtain ⟨-, hmem, hidx⟩ := h.index_ok.mp hi
  have hp := getElem?_idxOf hmem
  rwa [hidx, indices, getElem?_map, Option.map_eq_some_iff] at hp

theorem Passes.of_resolved (hlen : ctx.accounts.accountKeys.length ≤ 65536) (hcaller : Tracked caller)
    (h : Resolved ctx caller signers instruction callee.programAccountIndexInTx callee.instructionAccounts
      callee.dedupMap) (hsigners : ∀ key ∈ signers, call.Vouches ext ctx.accounts.accountKeys caller key) :
    Passes ext ctx.accounts.accountKeys call instruction caller callee := by
  -- what the caller has for an account of the callee
  have hgranted : ∀ x ∈ callee.instructionAccounts, ∃ y ∈ caller.instructionAccounts,
      y.indexInTransaction = x.indexInTransaction ∧ (x.isWritable = true → y.isWritable = true) ∧
      ∃ m ∈ instruction.accounts, ctx.findIndexOfAccount m.pubkey = some x.indexInTransaction ∧
        (x.isSigner = true → y.isSigner = true ∨ m.pubkey ∈ signers) := by
    intro x hx
    obtain ⟨index, y, m, hindex, hy, hm, hfound, hw, hs⟩ := h.granted x hx
    obtain ⟨y', hy', hyt⟩ := hcaller.found hindex
    obtain rfl := Option.some.inj (hy.symm.trans hy')
    rw [← h.merged x hx] at hw hs
    exact ⟨y, mem_of_getElem? hy, hyt, hw, m, hm, hfound, hs⟩
  refine ⟨?_, ?_, ?_, ?_, ?_, ?_⟩
  · intro x hx
    obtain ⟨y, hy, hyt, -⟩ := hgranted x hx
    exact ⟨y, hy, hyt⟩
  · intro x hx y hy hyt hxw
    obtain ⟨y', hy', hyt', hw, -⟩ := hgranted x hx
    rw [hcaller.uniform y hy y' hy' (hyt.trans hyt'.symm)]
    exact hw hxw
  · intro x hx y hy hyt hxs
    obtain ⟨y', hy', hyt', -, m, hm, hfound, hs⟩ := hgranted x hx
    rw [hcaller.uniform y hy y' hy' (hyt.trans hyt'.symm)]
    rcases hs hxs with hs | hs
    · exact .inl hs
    · exact .inr ⟨m.pubkey, findIndexOfAccount_key hlen hfound, hsigners _ hs⟩
  · intro x hx
    obtain ⟨-, -, -, -, m, -, hfound, -⟩ := hgranted x hx
    refine ⟨m.pubkey, findIndexOfAccount_key hlen hfound, ?_, ?_⟩
    · have := congrArg InstructionAccount.isSigner (h.merged x hx)
      simpa only [mergedAccount, names_eq hlen hfound] using this
    · have := congrArg InstructionAccount.isWritable (h.merged x hx)
      simpa only [mergedAccount, names_eq hlen hfound] using this
  · exact findIndexOfAccount_key hlen h.programIndex
  · obtain ⟨index, hindex⟩ := h.called
    obtain ⟨y, hy, hyt⟩ := hcaller.found hindex
    exact ⟨y, mem_of_getElem? hy, hyt⟩

theorem Resolved.tracked
    (h : Resolved ctx caller signers instruction callee.programAccountIndexInTx callee.instructionAccounts
      callee.dedupMap) (hlen : instruction.accounts.length ≤ 65535) : Tracked callee where
  records := h.records
  length := h.length.trans_le hlen
  uniform x hx y hy hxy := by rw [h.merged x hx, h.merged y hy, hxy]

theorem FromMessage.tracked
    (h : FromMessage message ic.dedupMap ic.instructionAccounts) (hlen : ic.instructionAccounts.length ≤ 65535) :
    Tracked ic where
  records := h.records
  length := hlen
  uniform x hx y hy hxy := by rw [h.flags x hx, h.flags y hy, hxy]

/-! ## Runs -/

/-- The call lists at most `u16::MAX` accounts. -/
def Call.Short (call : Call) : Prop :=
  ∀ instruction, call.instruction? = some instruction → instruction.accounts.length ≤ 65535

/-- What holds of the instruction at a level of the stack. -/
def Level (ext : CallExternals) (message : SVMMessage) (keys : List Pubkey) (ctx : TransactionContext)
    (calls : List Call) : Nat → Prop
  | 0 => ∃ ic, ctx.getInstructionContextAtNestingLevel 0 = .ok ic ∧ calls[0]? = some .topLevel ∧
      Tracked ic ∧ FromMessage message ic.dedupMap ic.instructionAccounts
  | k + 1 => ∃ call instruction caller callee,
      calls[k + 1]? = some call ∧ call.instruction? = some instruction ∧
      ctx.getInstructionContextAtNestingLevel k = .ok caller ∧
      ctx.getInstructionContextAtNestingLevel (k + 1) = .ok callee ∧
      Tracked callee ∧ Passes ext keys call instruction caller callee

/-- The instruction at the index is one of the message. -/
def TopLevelAt (message : SVMMessage) (ctx : TransactionContext) (i : Nat) : Prop :=
  ∃ ic, ctx.getInstructionContextAtIndexInTrace i = .ok ic ∧
    (Tracked ic ∧ FromMessage message ic.dedupMap ic.instructionAccounts) ∧
    ∃ instruction ∈ message.instructions, ic.instructionAccounts = (resolveTopLevel message instruction).2

/-- The invariant of a run. A level is in order if the calls up to it are short;
longer calls that have returned do not matter. -/
structure CallInv (ext : CallExternals) (message : SVMMessage) (keys : List Pubkey) (ctx : TransactionContext)
    (calls : List Call) : Prop where
  sameKeys : ctx.accounts.accountKeys = keys
  aligned : Aligned ctx
  prepared : message.instructions.length ≤ ctx.instructionAccounts.length
  topLevel : ∀ i < message.instructions.length, TopLevelAt message ctx i
  stack : ∀ i ∈ ctx.instructionStack, i < ctx.instructionAccounts.length
  depth : calls.length = ctx.instructionStack.length
  level : ∀ k < calls.length, (∀ call ∈ calls.take (k + 1), call.Short) → Level ext message keys ctx calls k

section Steps

variable {keys : List Pubkey} {calls : List Call}

/-- A level looks only at the calls and the instructions up to it. -/
theorem Level.congr
    (hctx : ∀ j ≤ k, ctx'.getInstructionContextAtNestingLevel j = ctx.getInstructionContextAtNestingLevel j)
    (hcalls : calls'[k]? = calls[k]?) (h : Level ext message keys ctx calls k) :
    Level ext message keys ctx' calls' k := by
  cases k with
  | zero =>
    obtain ⟨ic, hic, hcall, hrest⟩ := h
    exact ⟨ic, (hctx 0 (le_refl 0)).trans hic, hcalls.trans hcall, hrest⟩
  | succ k =>
    obtain ⟨call, instruction, caller, callee, hcall, hi, hcaller, hcallee, hrest⟩ := h
    exact ⟨call, instruction, caller, callee, hcalls.trans hcall, hi, (hctx k (Nat.le_succ k)).trans hcaller,
      (hctx (k + 1) (le_refl _)).trans hcallee, hrest⟩

theorem Level.tracked (h : Level ext message keys ctx calls k) :
    ∃ ic, ctx.getInstructionContextAtNestingLevel k = .ok ic ∧ Tracked ic := by
  cases k with
  | zero =>
    obtain ⟨ic, hic, -, ht, -⟩ := h
    exact ⟨ic, hic, ht⟩
  | succ k =>
    obtain ⟨-, -, -, ic, -, -, -, hic, ht, -⟩ := h
    exact ⟨ic, hic, ht⟩

variable (h : CallInv ext message keys ctx calls)

include h

theorem CallInv.enter (idle : ctx.instructionStack = [])
    (next : ctx.nextTopLevelInstructionIndex < message.instructions.length) (hp : Pushed ctx ctx') :
    CallInv ext message keys ctx' [.topLevel] := by
  obtain ⟨level, htrace⟩ := hp.trace
  have hstack := hp.stack
  rw [idle, if_pos rfl, nil_append] at hstack
  rw [if_pos idle, append_nil] at htrace
  have hcontext : ∀ i < ctx.instructionAccounts.length,
      ctx'.getInstructionContextAtIndexInTrace i = ctx.getInstructionContextAtIndexInTrace i :=
    fun i hi => hp.context (by rw [h.aligned.trace]; exact hi)
  have hprepared := h.prepared
  refine ⟨hp.keys.trans h.sameKeys, h.aligned.congr ?_ hp.instructionAccounts hp.deduplicationMaps hp.instructionData,
    ?_, ?_, ?_, ?_, ?_⟩
  · rw [htrace, length_modify]
  · rwa [hp.instructionAccounts]
  · intro i hi
    obtain ⟨ic, hic, hrest⟩ := h.topLevel i hi
    exact ⟨ic, (hcontext i (by omega)).trans hic, hrest⟩
  · intro i hi
    rw [hstack, mem_singleton] at hi
    rw [hp.instructionAccounts]
    omega
  · rw [hstack]
    rfl
  · intro k hk _
    obtain rfl : k = 0 := Nat.lt_one_iff.mp hk
    obtain ⟨ic, hic, hrest, -⟩ := h.topLevel _ next
    refine ⟨ic, ?_, rfl, hrest⟩
    rw [getInstructionContextAtNestingLevel, hstack]
    exact (hcontext _ (by omega)).trans hic

/-- A call, by whatever way its signers were found. -/
theorem CallInv.call (hlen : keys.length ≤ 65536) {call : Call} {c : Configuration}
    (hresolve : resolveCpi ctx instruction signers = .ok (c.program, c.accounts, c.table))
    (hc : PreparedCall ctx ctx1 c index) (hp : Pushed ctx1 ctx')
    (hcall : call.instruction? = some instruction)
    (hsigners : ∀ caller, ctx.getCurrentInstructionContext = .ok caller →
      ∀ key ∈ signers, call.Vouches ext keys caller key) : CallInv ext message keys ctx' (calls ++ [call]) := by
  have hstack : ctx.instructionStack ≠ [] := by
    intro he
    simp [resolveCpi, getCurrentInstructionContext_eq, getInstructionContextAtNestingLevel, he] at hresolve
  have hpos := length_pos_iff.mpr hstack
  obtain ⟨callee, hcalled, hfields⟩ := hc.called h.aligned hstack hp
  have hdepth := h.depth
  have hprepared := h.prepared
  -- the levels below the new one stay
  have hcontext : ∀ j < ctx.instructionStack.length,
      ctx'.getInstructionContextAtNestingLevel j = ctx.getInstructionContextAtNestingLevel j := by
    intro j hj
    rw [getInstructionContextAtNestingLevel, hcalled.stack, getElem?_append_left hj,
      getInstructionContextAtNestingLevel, getElem?_eq_getElem hj]
    exact hcalled.context _ (h.stack _ (getElem_mem hj))
  refine ⟨hcalled.keys.trans h.sameKeys, hcalled.aligned, ?_, ?_, ?_, ?_, ?_⟩
  · rw [hcalled.length]; omega
  · intro i hi
    obtain ⟨ic, hic, hrest⟩ := h.topLevel i hi
    exact ⟨ic, (hcalled.context i (by omega)).trans hic, hrest⟩
  · intro i hi
    rw [hcalled.stack, mem_append, mem_singleton] at hi
    rw [hcalled.length]
    rcases hi with hi | rfl
    · exact Nat.lt_succ_of_lt (h.stack i hi)
    · exact Nat.lt_succ_self _
  · rw [hcalled.stack, length_append, length_append, hdepth]
    rfl
  · intro k hk hshort
    rw [length_append] at hk
    rcases Nat.lt_succ_iff_lt_or_eq.mp hk with hk | rfl
    · rw [take_append_of_le_length (by omega)] at hshort
      exact (h.level k hk hshort).congr (fun j hj => hcontext j (by omega)) (getElem?_append_left hk)
    · -- the new level, called by the one below it
      obtain ⟨k, hk⟩ : ∃ k, calls.length = k + 1 := ⟨calls.length - 1, by omega⟩
      rw [take_of_length_le (by rw [length_append]; rfl)] at hshort
      have hbelow : Level ext message keys ctx calls k := by
        refine h.level k (by omega) fun call hcall => hshort call ?_
        exact mem_append_left _ (mem_of_mem_take hcall)
      have hmetas := hshort call (mem_append_right _ mem_cons_self) instruction hcall
      obtain ⟨caller, hcaller, hresolved⟩ := resolveCpi_ok hmetas hresolve
      have hk' : ctx.instructionStack.length - 1 = k := by omega
      obtain ⟨caller', hcaller', htracked⟩ := hbelow.tracked
      rw [getCurrentInstructionContext_eq, hk', hcaller'] at hcaller
      cases hcaller
      obtain ⟨hprogram, haccounts, htable⟩ := hfields
      rw [← hprogram, ← haccounts, ← htable] at hresolved
      rw [hk]
      refine ⟨call, instruction, caller, callee, by rw [← hk]; simp, hcall, (hcontext k (by omega)).trans hcaller',
        ?_, hresolved.tracked hmetas, ?_⟩
      · rw [getInstructionContextAtNestingLevel, hcalled.stack,
          getElem?_append_right (by omega), ← hk, ← hdepth, Nat.sub_self]
        exact hcalled.callee
      · rw [← h.sameKeys]
        refine .of_resolved (by rwa [h.sameKeys]) htracked hresolved ?_
        rw [h.sameKeys]
        exact hsigners caller (by rw [getCurrentInstructionContext_eq, hk', hcaller'])

theorem CallInv.leave : CallInv ext message keys (final TransactionContext.pop ctx) calls.dropLast := by
  obtain ⟨a, current, hpop, -, hkeys, -⟩ := final_pop ctx
  have hdepth := h.depth
  rw [hpop]
  refine { h with
    sameKeys := hkeys.trans h.sameKeys
    aligned := { h.aligned with }
    stack := fun i hi => h.stack i ((dropLast_sublist _).mem hi)
    depth := by rw [length_dropLast, length_dropLast, hdepth]
    level := fun k hk hshort => ?_ }
  rw [length_dropLast] at hk
  have hget : ∀ {α : Type} (l : List α) j, j < l.length - 1 → l.dropLast[j]? = l[j]? := by
    intro α l j hj
    rw [getElem?_dropLast, if_pos hj]
  refine (h.level k (by omega) ?_).congr (fun j hj => ?_) (hget _ _ hk)
  · rw [dropLast_eq_take, take_take, min_eq_left (by omega)] at hshort
    exact hshort
  · rw [getInstructionContextAtNestingLevel, hget _ _ (by omega)]
    rfl

omit h

theorem mem_of_mapM_ok {α β ε : Type} {f : α → Except ε β} {l : List α} {r : List β} (h : l.mapM f = .ok r)
    {y : β} (hy : y ∈ r) : ∃ x ∈ l, f x = .ok y := by
  induction l generalizing r with
  | nil =>
    cases h
    exact absurd hy not_mem_nil
  | cons x l ih =>
    rw [mapM_cons] at h
    obtain ⟨y0, h0, h⟩ := except_inv h
    obtain ⟨r', h', h⟩ := except_inv h
    cases h
    rcases mem_cons.mp hy with rfl | hy
    · exact ⟨x, mem_cons_self, h0⟩
    · obtain ⟨x', hx', hf⟩ := ih h' hy
      exact ⟨x', mem_cons_of_mem _ hx', hf⟩

/-- The signers of a native call are derived from the caller's program id. -/
theorem vouches_of_nativeSigners (h : nativeSigners ext.createProgramAddress ctx signerSeeds = .ok signers)
    (hcaller : ctx.getCurrentInstructionContext = .ok caller) (hkey : key ∈ signers) :
    (Call.native instruction signerSeeds).Vouches ext ctx.accounts.accountKeys caller key := by
  simp only [nativeSigners, hcaller] at h
  obtain ⟨_, hc, h⟩ := except_inv h
  cases hc
  obtain ⟨programId, hprogram, h⟩ := except_inv h
  split at h
  · rename_i hmap
    cases h
    obtain ⟨seeds, hseeds, hf⟩ := mem_of_mapM_ok hmap hkey
    refine ⟨programId, ?_, seeds, hseeds, hf⟩
    rw [TransactionAccounts.accountKeys, getElem?_map]
    exact getProgramKey_ok hprogram
  · cases h

theorem CallInv.step (hlen : keys.length ≤ 65536)
    (h : CallInv ext message keys s.ctx s.calls) (hstep : CallStep ext message.instructions.length s s') :
    CallInv ext message keys s'.ctx s'.calls := by
  cases hstep with
  | enter idle next pushed => exact h.enter idle next (InvokeContext.push_ok pushed)
  | cpi prepares pushed =>
    obtain ⟨_, _, _, _, hresolve, -, hc⟩ := prepareNextCpiInstruction_ok prepares
    exact h.call hlen hresolve hc (InvokeContext.push_ok pushed) rfl fun _ _ _ hkey => hkey
  | native derives prepares pushed =>
    obtain ⟨_, _, _, _, hresolve, -, hc⟩ := prepareNextCpiInstruction_ok prepares
    refine h.call hlen hresolve hc (InvokeContext.push_ok pushed) rfl fun caller hcaller key hkey => ?_
    rw [← h.sameKeys]
    exact vouches_of_nativeSigners derives hcaller hkey
  | refused refuses =>
    rw [prepareNextCpiInstruction_error (ne_nil_of_length_eq_add_one h.aligned.trace) refuses]
    exact h
  | leave =>
    simp only [CallState.ctx, final_pop_transactionContext]
    exact h.leave
  | work accounts returnDataBytes transactionFrame syscallContext hkeys =>
    exact { h with
      sameKeys := hkeys.trans h.sameKeys
      aligned := { h.aligned with }
      level := fun k hk hshort => (h.level k hk hshort).congr (fun _ _ => rfl) rfl }

/-- The invariant holds once the instructions of the message are prepared. -/
theorem CallInv.start {accounts : List (Pubkey × AccountSharedData)} {rent : Rent}
    {start : InvokeContext} (hn : message.instructions.length + 1 < 2 ^ 64)
    (htop : ∀ instruction ∈ message.instructions, instruction.accounts.length ≤ 65535)
    (h : (prepareTopLevelInstructions message).run
      ⟨.new accounts rent stackCapacity traceCapacity message.instructions.length, []⟩ = .ok () start) :
    CallInv ext message (accounts.map (·.1)) start.transactionContext [] := by
  have hp := prepareTopLevelFrom_ok h
  have htrace : start.transactionContext.instructionTrace.length = message.instructions.length + 1 := by
    rw [hp.trace, new, length_replicate, Machine.satAdd_eq (by omega)]
  obtain ⟨trace, heq⟩ := hp.rest
  have haccounts : start.transactionContext.instructionAccounts =
      message.instructions.map fun i => (resolveTopLevel message i).2 := congrArg (·.instructionAccounts) heq
  have hstack : start.transactionContext.instructionStack = [] := congrArg (·.instructionStack) heq
  refine ⟨?_, ⟨?_, ?_, ?_⟩, ?_, ?_, ?_, ?_, ?_⟩
  · rw [heq, new, TransactionAccounts.new, TransactionAccounts.accountKeys, map_map]
    conv_rhs => rw [← zipIdx_map_fst 0 accounts, map_map]
    rfl
  · rw [htrace, haccounts, length_map]
  · rw [heq]
    exact (length_map _).trans (length_map _).symm
  · rw [heq]
    exact (length_map _).trans (length_map _).symm
  · rw [haccounts, length_map]
  · intro i hi
    have hfrom : FromMessage message _ _ := resolveTopLevel_ok (htop _ (getElem_mem hi))
    obtain ⟨ic, hic, haccounts, hmap⟩ := hp.context hn (getElem?_eq_getElem hi)
    rw [← hmap, ← haccounts] at hfrom
    refine ⟨ic, hic, ⟨hfrom.tracked ?_, hfrom⟩, _, getElem_mem hi, haccounts⟩
    rw [haccounts, length_resolveTopLevel]
    exact htop _ (getElem_mem hi)
  · intro i hi
    rw [hstack] at hi
    exact absurd hi not_mem_nil
  · rw [hstack]; rfl
  · intro k hk
    exact absurd hk (Nat.not_lt_zero _)

end Steps

theorem CallReachable.inv {accounts : List (Pubkey × AccountSharedData)} {rent : Rent}
    (hreach : CallReachable ext message accounts rent stackCapacity traceCapacity s)
    (hn : message.instructions.length + 1 < 2 ^ 64) (haccounts : accounts.length ≤ 65536)
    (htop : ∀ instruction ∈ message.instructions, instruction.accounts.length ≤ 65535) :
    CallInv ext message (accounts.map (·.1)) s.ctx s.calls := by
  obtain ⟨start, hstart, hrun⟩ := hreach
  induction hrun with
  | refl => exact CallInv.start hn htop hstart
  | tail _ hstep ih => exact ih.step (by rwa [length_map]) hstep

/-- Down from the message, no level of the stack gains a writable account. -/
theorem writable_of_levels {keys : List Pubkey} (k : Nat) (h : ∀ j ≤ k, Level ext message keys ctx calls j) :
    ∃ ic, ctx.getInstructionContextAtNestingLevel k = .ok ic ∧
      ∀ x ∈ ic.instructionAccounts, x.isWritable = true → message.isWritable x.indexInTransaction.toNat = true := by
  induction k with
  | zero =>
    obtain ⟨ic, hic, -, -, hfrom⟩ := h 0 (le_refl 0)
    refine ⟨ic, hic, fun x hx hw => ?_⟩
    rw [hfrom.flags x hx] at hw
    exact hw
  | succ k ih =>
    obtain ⟨caller, hcaller, hbelow⟩ := ih fun j hj => h j (Nat.le_succ_of_le hj)
    obtain ⟨call, instruction, caller', callee, -, -, hcaller', hcallee, -, hpasses⟩ := h (k + 1) (le_refl _)
    rw [hcaller] at hcaller'
    cases hcaller'
    refine ⟨callee, hcallee, fun x hx hw => ?_⟩
    obtain ⟨y, hy, hyx⟩ := hpasses.account x hx
    rw [← hyx]
    exact hbelow y hy (hpasses.writable x hx y hy hyx hw)

/-- No privilege escalation: in every state of every run, each call on the stack
passes on only what its caller has and what it signs for itself, and a writable
account is writable in the message. The calls on the stack and the instructions of
the message list at most `u16::MAX` accounts each. -/
theorem privileges_not_escalated {ext : CallExternals} {message : SVMMessage}
    {accounts : List (Pubkey × AccountSharedData)} {rent : Rent} {stackCapacity traceCapacity : Nat} {s : CallState}
    (hreach : CallReachable ext message accounts rent stackCapacity traceCapacity s)
    (hn : message.instructions.length + 1 < 2 ^ 64) (haccounts : accounts.length ≤ 65536)
    (htop : ∀ instruction ∈ message.instructions, instruction.accounts.length ≤ 65535)
    (hshort : ∀ call ∈ s.calls, call.Short) :
    s.calls.length = s.ctx.getInstructionStackHeight ∧
    ∀ k call, s.calls[k + 1]? = some call →
      ∃ instruction caller callee, call.instruction? = some instruction ∧
        s.ctx.getInstructionContextAtNestingLevel k = .ok caller ∧
        s.ctx.getInstructionContextAtNestingLevel (k + 1) = .ok callee ∧
        Passes ext s.ctx.accounts.accountKeys call instruction caller callee ∧
        ∀ x ∈ callee.instructionAccounts, x.isWritable = true →
          message.isWritable x.indexInTransaction.toNat = true := by
  have hinv := hreach.inv hn haccounts htop
  refine ⟨hinv.depth, fun k call hcall => ?_⟩
  have hk := (getElem?_eq_some_iff.mp hcall).1
  have hlevel : ∀ j ≤ k + 1, Level ext message (accounts.map (·.1)) s.ctx s.calls j := fun j hj =>
    hinv.level j (by omega) fun call hcall => hshort call (mem_of_mem_take hcall)
  obtain ⟨call', instruction, caller, callee, hcall', hinstruction, hcaller, hcallee, -, hpasses⟩ :=
    hlevel (k + 1) (le_refl _)
  obtain rfl := Option.some.inj (hcall.symm.trans hcall')
  obtain ⟨callee', hcallee', hwritable⟩ := writable_of_levels (k + 1) hlevel
  rw [hcallee] at hcallee'
  cases hcallee'
  rw [hinv.sameKeys]
  exact ⟨instruction, caller, callee, hinstruction, hcaller, hcallee, hpasses, hwritable⟩

/-! ## Calls that list too many accounts -/

namespace LongCall

def key (n : UInt8) : Pubkey := .replicate 32 n

def account : AccountSharedData where
  lamports := 1
  data := ⟨[], false, 0⟩
  owner := key 0
  executable := false
  rentEpoch := 0

/-- Three accounts; the last one is the program. -/
def accounts : List (Pubkey × AccountSharedData) := [(key 1, account), (key 2, account), (key 3, account)]

/-- One instruction of the program, with all three accounts, which sign and are writable or
not. -/
def flagged (flag : Bool) : SVMMessage where
  instructions := [⟨2, [0, 1, 2], []⟩]
  isSigner _ := flag
  isWritable _ := flag

def message : SVMMessage := flagged false

def ext : CallExternals where
  instructionsId := key 8
  sysvarId := key 9
  storeCurrentIndexChecked _ _ := ([], .ok ())
  payloadAddr _ _ := 0
  createProgramAddress _ _ := .error 0

def rent : Rent := ⟨fun _ _ => true⟩

variable (flag : Bool)

def prepared : InvokeContext :=
  final (prepareTopLevelInstructions (flagged flag)) ⟨.new accounts rent 5 64 1, []⟩

def entered : InvokeContext := final (push ext.toExternals) (prepared flag)

theorem reachable_entered : CallReachable ext (flagged flag) accounts rent 5 64 ⟨entered flag, [.topLevel]⟩ :=
  ⟨prepared flag, rfl, .single (.enter rfl (by cases flag <;> decide) rfl)⟩

/-- The caller that was entered. -/
def caller : InstructionContext where
  indexInTrace := 0
  nestingLevel := 0
  indexOfCallerInstruction := 65535
  programAccountIndexInTx := 2
  instructionAccounts := [⟨0, flag, flag⟩, ⟨1, flag, flag⟩, ⟨2, flag, flag⟩]
  dedupMap := [0, 1, 2] ++ .replicate 253 65535
  instructionData := []

/-- The program calls itself. -/
def instruction (metas : List AccountMeta) : Instruction := ⟨key 3, metas, []⟩

variable {flag}

/-- The state after a call that resolves to the accounts `callee`. -/
theorem reachable_call
    (h : resolveCpi (entered flag).transactionContext (instruction metas) [] = .ok (2, callee, table)) :
    ∃ s, CallReachable ext (flagged flag) accounts rent 5 64 s ∧
      s.calls = [.topLevel, .cpi (instruction metas) []] ∧
      s.ctx.getInstructionContextAtNestingLevel 0 = .ok (caller flag) ∧
      ∃ ic, s.ctx.getInstructionContextAtNestingLevel 1 = .ok ic ∧ ic.instructionAccounts = callee := by
  obtain ⟨start, hstart, hrun⟩ := reachable_entered flag
  let configured := final (onTransaction (configureInstructionAtIndex 1 2 callee table []
    (some 0))) (entered flag)
  have hprepares : (prepareNextCpiInstruction (instruction metas) []).run (entered flag) =
      .ok () configured := by
    rw [EStateM.run, prepareNextCpiInstruction, h]
    rfl
  cases flag <;> exact ⟨_, ⟨start, hstart, hrun.tail (.cpi hprepares rfl)⟩, rfl, rfl, _, rfl, rfl⟩

end LongCall

open LongCall in
/-- The program of a one-instruction message calls itself with an account that signs and is
writable, one that only signs, and the first one again. -/
theorem privileges_not_escalated_one : ∃ s : CallState, CallReachable ext (flagged true) accounts rent 5 64 s ∧
    ∃ instruction caller callee,
      s.ctx.getInstructionContextAtNestingLevel 0 = .ok caller ∧
      s.ctx.getInstructionContextAtNestingLevel 1 = .ok callee ∧
      callee.instructionAccounts = [⟨0, true, true⟩, ⟨1, true, false⟩, ⟨0, true, true⟩] ∧
      Passes ext s.ctx.accounts.accountKeys (.cpi instruction []) instruction caller callee := by
  have hresolve : resolveCpi (entered true).transactionContext
      (instruction [⟨key 1, true, false⟩, ⟨key 2, true, false⟩, ⟨key 1, false, true⟩]) [] =
      .ok (2, [⟨0, true, true⟩, ⟨1, true, false⟩, ⟨0, true, true⟩], 0 :: 1 :: .replicate 254 65535) := rfl
  obtain ⟨s, hreach, hcalls, -, ic, hic, haccounts⟩ := reachable_call hresolve
  have hshort : ∀ call ∈ s.calls, call.Short := by
    rw [hcalls]
    intro call hcall instruction hinstruction
    simp only [mem_cons, not_mem_nil, or_false] at hcall
    rcases hcall with rfl | rfl
    · cases hinstruction
    · cases hinstruction
      decide
  obtain ⟨i, caller, callee, hi, hcaller, hcallee, hpasses, -⟩ :=
    (privileges_not_escalated hreach (by decide) (by decide) (by decide) hshort).2 0 _ (by rw [hcalls]; rfl)
  cases hi
  rw [hic] at hcallee
  cases hcallee
  exact ⟨s, hreach, instruction _, caller, ic, hcaller, hic, haccounts, hpasses⟩

namespace LongCall

/-- The map of a call that named the first account first. -/
def table : List UInt16 := 0 :: .replicate 255 65535

/-- The first account, again and again. -/
theorem addMetas_replicate (n k : Nat) : addMetas (entered false).transactionContext (.replicate n ⟨key 1, false, false⟩)
      (table, .replicate (k + 1) ⟨0, false, false⟩) = .ok (table, .replicate (k + 1 + n) ⟨0, false, false⟩) := by
  induction n generalizing k with
  | zero => rfl
  | succ n ih =>
    have hstep : addMeta (entered false).transactionContext
        (table, .replicate (k + 1) ⟨0, false, false⟩) ⟨key 1, false, false⟩ =
        .ok (table, .replicate (k + 1 + 1) ⟨0, false, false⟩) := by
      rw [replicate_succ' (n := k + 1)]
      rfl
    rw [replicate_succ, addMetas, foldlM_cons, hstep]
    exact (ih (k + 1)).trans (by rw [add_assoc (k + 1), add_comm 1])

/-- The second pass, over repeated entries of an account whose first entry has no flag. -/
theorem checkAccounts_repeated {accounts : List InstructionAccount}
    (hfirst : accounts[0]? = some ⟨0, false, false⟩) (hindex : ∀ x ∈ accounts, x.indexInTransaction = 0)
    (remaining currentIndex : Nat) (hlen : currentIndex + 1 + remaining ≤ accounts.length) :
    checkAccounts (caller false) metas [] table (currentIndex + 1) remaining accounts = .ok accounts := by
  induction remaining generalizing currentIndex with
  | zero => rfl
  | succ remaining ih =>
    have hlt : currentIndex + 1 < accounts.length := by omega
    have hstep : checkAccount (caller false) metas [] table (currentIndex + 1) accounts = .ok accounts := by
      have htable : table[(0 : UInt16).toNat]? = some 0 := rfl
      have hx := hindex _ (getElem_mem hlt)
      have hget := getElem?_eq_getElem hlt
      have hset := set_getElem_self hlt
      generalize accounts[currentIndex + 1] = x at hx hget hset
      obtain ⟨t, isSigner, isWritable⟩ := x
      obtain rfl : t = 0 := hx
      rw [checkAccount, hget]
      simp only [htable]
      simp [hfirst, hset]
    rw [checkAccounts, hstep]
    exact ih (currentIndex + 1) (by omega)

/-- The first account `n + 1` times, then the second one, as writable. -/
def metas (n : Nat) : List AccountMeta := .replicate (n + 1) ⟨key 1, false, false⟩ ++ [⟨key 2, false, true⟩]

/-- What they resolve to: the entry at `u16::MAX` and the last one are writable. -/
def callee (n : Nat) : List InstructionAccount :=
  (replicate (n + 1) ⟨0, false, false⟩).set 65535 ⟨0, false, true⟩ ++ [⟨0, false, true⟩]

theorem addMetas_metas (hn : 65535 ≤ n) :
    addMetas (entered false).transactionContext (metas n) (newCalleeMap, []) = .ok (table, callee n) := by
  have hfirst : addMeta (entered false).transactionContext (newCalleeMap, []) ⟨key 1, false, false⟩ =
      .ok (table, .replicate (0 + 1) ⟨0, false, false⟩) := rfl
  have hlast : addMeta (entered false).transactionContext
      (table, .replicate (n + 1) ⟨0, false, false⟩) ⟨key 2, false, true⟩ = .ok (table, callee n) := by
    have hfind : (entered false).transactionContext.findIndexOfAccount (key 2) = some 1 := rfl
    have htable : table[(1 : UInt16).toNat]? = some 65535 := rfl
    have hmax : (65535 : UInt16).toNat = 65535 := rfl
    have hget : (replicate (n + 1) (⟨0, false, false⟩ : InstructionAccount))[65535]? =
        some ⟨0, false, false⟩ := by
      rw [getElem?_replicate, if_pos (by omega)]
    simp only [addMeta, hfind, htable, hmax, hget, Bool.or_false, Bool.or_true, callee]
  have hrest := addMetas_replicate n 0
  rw [add_comm 1] at hrest
  rw [addMetas, metas, foldlM_append]
  refine except_bind_ok.mpr ⟨_, except_bind_ok.mpr ⟨_, hfirst, hrest⟩, ?_⟩
  exact except_bind_ok.mpr ⟨_, hlast, rfl⟩

theorem resolveCpi_metas (hn : 65535 ≤ n) : resolveCpi (entered false).transactionContext (instruction (metas n)) [] =
      .ok (2, callee n, table) := by
  have hlen : (callee n).length = n + 1 + 1 := by
    rw [callee, length_append, length_set, length_replicate]; rfl
  have hzero : (callee n)[0]? = some ⟨0, false, false⟩ := by
    rw [callee, getElem?_append_left (by simp), getElem?_set_ne (by decide), getElem?_replicate,
      if_pos (Nat.succ_pos n)]
  have hindex : ∀ x ∈ callee n, x.indexInTransaction = 0 := by
    intro x hx
    rcases mem_append.mp hx with hx | hx
    · rcases mem_or_eq_of_mem_set hx with hx | rfl
      · rw [eq_of_mem_replicate hx]
      · rfl
    · rw [mem_singleton.mp hx]
  -- only the first entry is checked against the caller
  have hpass : checkAccounts (caller false) (metas n) [] table 0 (callee n).length (callee n) =
      .ok (callee n) := by
    rw [hlen]
    exact checkAccounts_repeated hzero hindex (n + 1) 0 (by rw [hlen]; omega)
  refine except_bind_ok.mpr ⟨(table, callee n), addMetas_metas hn, ?_⟩
  refine except_bind_ok.mpr ⟨callee n, hpass, ?_⟩
  rfl

end LongCall

open LongCall in
/-- A call that lists more accounts passes on a privilege its caller does not have:
a program with three readonly accounts calls itself, and the first one is writable
in the callee. -/
theorem privileges_escalated_long : ∃ s : CallState, CallReachable ext message accounts rent 5 64 s ∧
    (accounts.map (·.1)).Nodup ∧
    ∃ caller callee, s.ctx.getInstructionContextAtNestingLevel 0 = .ok caller ∧
      s.ctx.getInstructionContextAtNestingLevel 1 = .ok callee ∧
      ∃ x ∈ callee.instructionAccounts, x.isWritable = true ∧
        (∀ y ∈ caller.instructionAccounts, y.isWritable = false) ∧
        message.isWritable x.indexInTransaction.toNat = false := by
  obtain ⟨s, hreach, -, hcaller, ic, hic, haccounts⟩ := reachable_call (resolveCpi_metas (le_refl 65535))
  refine ⟨s, hreach, by decide, caller false, ic, hcaller, hic, ⟨0, false, true⟩, ?_, rfl, by decide, rfl⟩
  rw [haccounts]
  exact mem_append_right _ mem_cons_self

end Svm
