import Svm.Proof.Trace

/-!
# Processed siblings

The search of `sol_get_processed_sibling_instruction` runs backwards over the
indices of the trace that can have the caller of the current instruction. In a
trace that the log of the pushes fits, these are its siblings, the latest first,
and the current instruction is the latest of them (`TraceInv.siblings_concat`),
so the search finds them in the order of the log (`processed_sibling`).
-/

namespace Svm

open Machine Run InvokeContext EStateM SelfCall
open List hiding getElem?_eq_some_iff
open TransactionContext hiding pop push push_outcome

namespace TransactionContext

variable (ctx : TransactionContext)

/-- The instruction at the index of the trace has the caller. -/
def hasCaller (caller index : Nat) : Bool :=
  match ctx.instructionTrace[index]? with
  | some frame => frame.indexOfCallerInstruction.toNat == caller
  | none => false

variable {ctx}

/-- What the search finds, if all instructions with the caller are at one height. -/
theorem searchSibling_eq {indices : List Nat}
    (hindices : ∀ i ∈ indices, ∃ ic, ctx.getInstructionContextAtIndexInTrace i = .ok ic ∧
      (ctx.hasCaller caller i = true ↔ ic.indexOfCallerInstruction = caller) ∧
      (ic.indexOfCallerInstruction = caller → ic.getStackHeight = stackHeight))
    (hr : r ≤ satAdd 64 index 1) (hlength : r + indices.length < 2 ^ 64) :
    ctx.searchSibling stackHeight caller index r indices =
      match (indices.filter (ctx.hasCaller caller))[satAdd 64 index 1 - r]? with
      | none => .ok none
      | some i => (ctx.getInstructionContextAtIndexInTrace i).map some := by
  induction indices generalizing r with
  | nil => rfl
  | cons i indices ih =>
    obtain ⟨ic, hic, hcaller, hheight⟩ := hindices i mem_cons_self
    have hrest := fun j hj => hindices j (mem_cons_of_mem i hj)
    rw [length_cons] at hlength
    rw [searchSibling, hic]
    dsimp only [bind, Except.bind]
    by_cases hc : ic.indexOfCallerInstruction = caller
    · rw [if_neg (not_not.mpr hc), hheight hc, if_neg (lt_irrefl _), if_pos rfl,
        filter_cons_of_pos (hcaller.mpr hc)]
      by_cases hfound : satAdd 64 index 1 = r
      · rw [hfound, Nat.sub_self, getElem?_cons_zero]
        simp only [hic]
        rfl
      · rw [if_neg hfound, satAdd_eq (by omega), ih hrest (by omega) (by omega)]
        rw [show satAdd 64 index 1 - r = satAdd 64 index 1 - (r + 1) + 1 by omega, getElem?_cons_succ]
    · rw [if_pos hc, filter_cons_of_neg (fun h => hc (hcaller.mp h)), ih hrest hr (by omega)]

end TransactionContext

/-- Where the elements that stop a walk are kept by a filter, the two commute. -/
theorem filter_takeWhile {α : Type} {p q : α → Bool} {l : List α} (h : ∀ x ∈ l, q x = false → p x = true) :
    (l.takeWhile q).filter p = (l.filter p).takeWhile q := by
  induction l with
  | nil => rfl
  | cons x l ih =>
    have ih := ih fun y hy => h y (mem_cons_of_mem x hy)
    cases hq : q x with
    | false =>
      rw [takeWhile_cons_of_neg (by simp [hq]), filter_cons_of_pos (h x mem_cons_self hq),
        takeWhile_cons_of_neg (by simp [hq]), filter_nil]
    | true =>
      rw [takeWhile_cons_of_pos hq]
      cases hp : p x with
      | false => rw [filter_cons_of_neg (by simp [hp]), filter_cons_of_neg (by simp [hp]), ih]
      | true =>
        rw [filter_cons_of_pos hp, filter_cons_of_pos hp, takeWhile_cons_of_pos hq, ih]

/-- The last element of an increasing list, and what comes before it. -/
theorem takeWhile_ne_concat (hsorted : l.Pairwise (· < ·)) {x : Nat} (hx : x ∈ l)
    (hlast : ∀ y ∈ l, y ≤ x) : l = l.takeWhile (· ≠ x) ++ [x] := by
  obtain ⟨pre, post, rfl⟩ := append_of_mem hx
  rw [pairwise_append, pairwise_cons] at hsorted
  obtain ⟨-, ⟨hpost, -⟩, hpre⟩ := hsorted
  obtain rfl : post = [] :=
    eq_nil_iff_forall_not_mem.mpr fun y hy => (hlast y (by simp [hy])).not_gt (hpost y hy)
  rw [takeWhile_append_of_pos fun y hy => by simpa using (hpre y hy x mem_cons_self).ne,
    takeWhile_cons_of_neg (by simp), append_nil]

namespace TraceInv

variable {prepared : Bool}

/-- The indices of the instructions that were pushed on a caller, in order. -/
def siblingIndices (pushed : List Invocation) (caller : Option Nat) : List Nat :=
  (pushed.filter fun p => p.caller = caller).map (·.index)

theorem mem_siblingIndices (hp : p ∈ pushed) : p.index ∈ siblingIndices pushed p.caller :=
  mem_map_of_mem (mem_filter.mpr ⟨hp, by simp⟩)

section

variable (h : TraceInv n ctx configured pushed prepared)

include h

theorem siblingIndices_sorted (caller) : (siblingIndices pushed caller).Pairwise (· < ·) := by
  cases caller with
  | none =>
    have htops : siblingIndices pushed none = _ := h.tops
    rw [htops]
    exact pairwise_lt_range
  | some caller =>
    have hsub : (siblingIndices pushed (some caller)).Sublist
        ((pushed.filter fun p => p.caller ≠ none).map (·.index)) := by
      refine List.Sublist.map _ (monotone_filter_right _ fun p hp => ?_)
      have hp : p.caller = some caller := by simpa using hp
      simp [hp]
    rw [h.calls] at hsub
    exact Pairwise.sublist hsub pairwise_lt_range'

/-- The frame of a pushed instruction says whether it has the caller. -/
theorem hasCaller_iff (hp : p ∈ pushed) (hcaller : p.caller ≠ none) (caller : Nat) :
    ctx.hasCaller caller p.index = true ↔ p.caller = some caller := by
  obtain ⟨caller', hcaller'⟩ := Option.ne_none_iff_exists'.mp hcaller
  obtain ⟨-, -, ⟨frame, hframe, rfl⟩, -⟩ := h.callers p hp caller' hcaller'
  rw [hasCaller, hframe, hcaller']
  simp

/-- Instructions of one caller that are at different indices of the log. -/
theorem caller_of_index (hp : p ∈ pushed) (hq : q ∈ pushed) (hindex : p.index = q.index) : p.caller = q.caller := by
  have hnext := h.next
  cases hpc : p.caller with
  | none =>
    cases hqc : q.caller with
    | none => rfl
    | some caller =>
      have := h.top_lt hp hpc
      have := (h.callers q hq caller hqc).1
      omega
  | some caller =>
    cases hqc : q.caller with
    | none =>
      have := h.top_lt hq hqc
      have := (h.callers p hp caller hpc).1
      omega
    | some caller' =>
      have hhas := (h.hasCaller_iff hp (by simp [hpc]) caller).mpr hpc
      rw [hindex] at hhas
      exact ((h.hasCaller_iff hq (by simp [hqc]) caller).mp hhas).symm.trans hqc

/-- The siblings of the current instruction are those pushed before it. -/
theorem siblings_concat {current : Invocation} (hcurrent : current ∈ pushed)
    (hlatest : ∀ p ∈ pushed, p.caller = current.caller → p.index ≤ current.index) :
    siblingIndices pushed current.caller =
      siblingIndices (pushed.takeWhile fun p => p.index ≠ current.index) current.caller ++ [current.index] := by
  have hsorted := h.siblingIndices_sorted current.caller
  have hconcat := takeWhile_ne_concat hsorted (mem_siblingIndices hcurrent) fun y hy => by
    obtain ⟨p, hp, rfl⟩ := mem_map.mp hy
    obtain ⟨hp, hcaller⟩ := mem_filter.mp hp
    exact hlatest p hp (by simpa using hcaller)
  have hwalk : (siblingIndices pushed current.caller).takeWhile (· ≠ current.index) =
      siblingIndices (pushed.takeWhile fun p => p.index ≠ current.index) current.caller := by
    rw [siblingIndices, siblingIndices, filter_takeWhile, takeWhile_map]
    · rfl
    · intro p hp hindex
      have hindex : p.index = current.index := by simpa using hindex
      simpa using h.caller_of_index hp hcurrent hindex
  rw [← hwalk]
  exact hconcat

/-- Where the current instruction was called, its caller is below it on the stack. -/
theorem exists_caller (htop : ctx.instructionStack[ctx.instructionStack.length - 1]? = some top)
    (hframe : ctx.instructionTrace[top]? = some frame) (hone : ctx.getInstructionStackHeight ≠ 1) :
    (ctx.instructionStack.take (ctx.instructionStack.length - 1)).getLast? =
        some frame.indexOfCallerInstruction.toNat ∧
      ∃ caller : InstructionFrame, ctx.instructionTrace[frame.indexOfCallerInstruction.toNat]? = some caller ∧
        ctx.instructionStack.length - 1 = caller.nestingLevel.toNat + 1 := by
  have hlen : ctx.instructionStack.length ≠ 1 := hone
  have hpos := (getElem?_eq_some_iff.mp htop).1
  obtain ⟨k, hk⟩ : ∃ k, ctx.instructionStack.length - 1 = k + 1 :=
    ⟨ctx.instructionStack.length - 2, by omega⟩
  rw [hk] at htop ⊢
  have hbelow := take_getLast? (getElem?_eq_getElem (show k < ctx.instructionStack.length by omega))
  obtain ⟨-, -, ⟨frame', hframe', hcaller⟩, hlevel⟩ := h.callers _ (h.stack _ top htop) _ hbelow
  rw [hframe] at hframe'
  cases hframe'
  rw [hcaller]
  exact ⟨hbelow, hlevel⟩

theorem siblingRange_calls (hone : ctx.getInstructionStackHeight ≠ 1) :
    ctx.siblingRange = (pushed.filter fun p => p.caller ≠ none).map (·.index) := by
  rw [siblingRange, if_neg hone, h.traceLength, h.calls]
  dsimp only
  rw [Nat.add_sub_cancel, Nat.add_sub_cancel_left]

/-- The indices that the search visits, where they have the caller of the current
instruction. -/
theorem filter_siblingRange (htop : ctx.instructionStack[ctx.instructionStack.length - 1]? = some top)
    (hframe : ctx.instructionTrace[top]? = some frame) :
    ctx.siblingRange.filter (ctx.hasCaller frame.indexOfCallerInstruction.toNat) =
      siblingIndices pushed (ctx.instructionStack.take (ctx.instructionStack.length - 1)).getLast? := by
  by_cases hone : ctx.getInstructionStackHeight = 1
  · have hlen : ctx.instructionStack.length = 1 := hone
    rw [siblingRange, if_pos hone, hlen]
    rw [hlen] at htop
    have hbottom := h.bottom top htop
    have hnext := h.next
    obtain ⟨frame', hframe', -, hcaller'⟩ := h.topLevel top (by omega)
    rw [hframe] at hframe'
    cases hframe'
    have hall : ∀ i ∈ range ctx.nextTopLevelInstructionIndex,
        ctx.hasCaller frame.indexOfCallerInstruction.toNat i = true := by
      intro i hi
      obtain ⟨frame'', hframe'', -, hcaller''⟩ := h.topLevel i (by have := mem_range.mp hi; omega)
      simp [hasCaller, hframe'', hcaller', hcaller'']
    rw [filter_eq_self.mpr hall, ← h.tops]
    rfl
  · rw [h.siblingRange_calls hone, (h.exists_caller htop hframe hone).1, filter_map, filter_filter]
    refine congrArg _ (filter_congr fun p hp => ?_)
    cases hpc : p.caller with
    | none => simp
    | some caller' =>
      have hiff := h.hasCaller_iff hp (by simp [hpc]) frame.indexOfCallerInstruction.toNat
      rw [hpc] at hiff
      rw [Bool.eq_iff_iff]
      simpa using hiff

/-- Every instruction that the search visits is there, and at the height of the
stack if it has the caller of the current one. -/
theorem siblingRange_height (htop : ctx.instructionStack[ctx.instructionStack.length - 1]? = some top)
    (hframe : ctx.instructionTrace[top]? = some frame) (hi : i ∈ ctx.siblingRange) :
    ∃ ic, ctx.getInstructionContextAtIndexInTrace i = .ok ic ∧
      (ctx.hasCaller frame.indexOfCallerInstruction.toNat i = true ↔
        ic.indexOfCallerInstruction = frame.indexOfCallerInstruction.toNat) ∧
      (ic.indexOfCallerInstruction = frame.indexOfCallerInstruction.toNat →
        ic.getStackHeight = ctx.getInstructionStackHeight) := by
  obtain ⟨frame', hframe', hlevel⟩ : ∃ frame', ctx.instructionTrace[i]? = some frame' ∧
      (frame'.indexOfCallerInstruction.toNat = frame.indexOfCallerInstruction.toNat →
        frame'.nestingLevel.toNat + 1 = ctx.instructionStack.length) := by
    by_cases hone : ctx.getInstructionStackHeight = 1
    · rw [siblingRange, if_pos hone, mem_range] at hi
      obtain ⟨frame', hframe', hzero, -⟩ := h.topLevel i (hi.trans_le h.next)
      exact ⟨frame', hframe', fun _ => by rw [hzero]; exact hone.symm⟩
    · obtain ⟨-, below, hbelow, hheight⟩ := h.exists_caller htop hframe hone
      rw [h.siblingRange_calls hone] at hi
      obtain ⟨p, hp, rfl⟩ := mem_map.mp hi
      obtain ⟨hp, hsome⟩ := mem_filter.mp hp
      obtain ⟨caller, hcaller⟩ := Option.ne_none_iff_exists'.mp (by simpa using hsome)
      obtain ⟨-, -, ⟨frame', hframe', rfl⟩, below', hbelow', hplevel⟩ := h.callers p hp caller hcaller
      refine ⟨frame', hframe', fun hsame => ?_⟩
      rw [hsame, hbelow] at hbelow'
      cases hbelow'
      obtain ⟨frame'', hframe'', hlevel⟩ := h.levels p hp
      rw [hframe'] at hframe''
      cases hframe''
      omega
  rw [getInstructionContextAtIndexInTrace, hframe']
  refine ⟨_, rfl, by simp [hasCaller, hframe'], fun hcaller => ?_⟩
  have hlt := frame'.nestingLevel.toNat_lt
  have hheight : satAdd 64 frame'.nestingLevel.toNat 1 = frame'.nestingLevel.toNat + 1 := satAdd_eq (by omega)
  exact hheight.trans (hlevel hcaller)

/-- What the search finds: the latest sibling but the current instruction itself
first. -/
theorem processedSibling_eq {current : Invocation} (hcurrent : current ∈ pushed)
    (htop : ctx.instructionStack[ctx.instructionStack.length - 1]? = some current.index) (hindex : index < 2 ^ 64) :
    ctx.processedSiblingInstruction index =
      match (siblingIndices (pushed.takeWhile fun p => p.index ≠ current.index) current.caller).reverse[index]? with
      | none => .ok none
      | some i => (ctx.getInstructionContextAtIndexInTrace i).map some := by
  have hlogged := h.stack _ _ htop
  have hcaller : current.caller = (ctx.instructionStack.take (ctx.instructionStack.length - 1)).getLast? :=
    h.caller_of_index hcurrent hlogged rfl
  obtain ⟨frame, hframe, -⟩ := h.levels current hcurrent
  obtain ⟨ic, hic, hiccaller⟩ : ∃ ic, ctx.getCurrentInstructionContext = .ok ic ∧
      ic.indexOfCallerInstruction = frame.indexOfCallerInstruction.toNat := by
    rw [getCurrentInstructionContext_eq, getInstructionContextAtNestingLevel, htop]
    simp only [getInstructionContextAtIndexInTrace, hframe]
    exact ⟨_, rfl, rfl⟩
  have hshort : (siblingIndices (pushed.takeWhile fun p => p.index ≠ current.index) current.caller).length ≤
      65536 := by
    have hle : (siblingIndices (pushed.takeWhile fun p => p.index ≠ current.index) current.caller).length ≤
        pushed.length := by
      rw [siblingIndices, length_map]
      exact (length_filter_le _ _).trans (takeWhile_sublist _).length_le
    have := h.length_pushed
    have := h.called
    have := h.bounded
    omega
  have hrange : ctx.siblingRange.length ≤ 65536 := by
    have := h.called
    have := h.bounded
    rw [siblingRange]
    split
    · rw [length_range]
      omega
    · rw [length_range']
      omega
  rw [processedSiblingInstruction, hic]
  dsimp only [bind, Except.bind]
  rw [hiccaller, searchSibling_eq
    (fun i hi => h.siblingRange_height htop hframe (mem_reverse.mp hi)) (Nat.zero_le _)
    (by rw [length_reverse]; omega), filter_reverse, h.filter_siblingRange htop hframe, ← hcaller,
    h.siblings_concat hcurrent (hcaller ▸ h.latest _ _ htop), reverse_append, reverse_singleton,
    singleton_append, Nat.sub_zero]
  by_cases hlast : index + 1 < 2 ^ 64
  · rw [satAdd_eq hlast, getElem?_cons_succ]
  · -- the index saturates, and there are not that many siblings
    have hsat : satAdd 64 index 1 = (2 ^ 64 - 2) + 1 := by
      rw [satAdd]
      omega
    rw [hsat, getElem?_cons_succ, getElem?_eq_none (by rw [length_reverse]; omega),
      getElem?_eq_none (by rw [length_reverse]; omega)]

end

end TraceInv

/-- In a transaction whose trace can not outgrow the `u16` indices, the syscall finds
the instruction that the log has `index + 1` places before the current one among
those on the same caller, and nothing if there is none. -/
theorem processed_sibling {ext : Externals} {message : SVMMessage} {accounts : List (Pubkey × AccountSharedData)}
    {rent : Rent} {stackCapacity traceCapacity : Nat} {s : TraceState}
    (hbounded : message.instructions.length + traceCapacity ≤ 65536)
    (hreach : TraceReachable ext (fun s op => op.Disciplined message.instructions.length s) message accounts rent
      stackCapacity traceCapacity s)
    {top : Nat} (htop : s.ctx.instructionStack.getLast? = some top) :
    ∃ current ∈ s.pushed, current.index = top ∧ current.caller = s.ctx.instructionStack.dropLast.getLast? ∧
      ∀ index < 2 ^ 64, ∃ found, s.ctx.processedSiblingInstruction index = .ok found ∧
        found.map (·.indexInTrace) = (s.siblings current)[index]?.map (·.index) ∧
        ∀ ic, found = some ic → s.ctx.getInstructionContextAtIndexInTrace ic.indexInTrace = .ok ic := by
  have h := hreach.inv hbounded
  have htopk : s.ctx.instructionStack[s.ctx.instructionStack.length - 1]? = some top := by
    rwa [getLast?_eq_getElem?] at htop
  have hlogged := h.stack _ _ htopk
  refine ⟨_, hlogged, rfl, by rw [dropLast_eq_take], fun index hindex => ?_⟩
  rw [h.processedSibling_eq hlogged htopk hindex, TraceInv.siblingIndices, ← map_reverse, ← TraceState.siblings,
    getElem?_map]
  cases hp : (s.siblings _)[index]? with
  | none => exact ⟨none, rfl, rfl, fun ic hic => by cases hic⟩
  | some p =>
    have hmem : p ∈ s.pushed := by
      have := mem_reverse.mp (mem_of_getElem? hp)
      exact (takeWhile_sublist _).subset (mem_filter.mp this).1
    obtain ⟨frame, hframe, -⟩ := h.levels p hmem
    simp only [Option.map_some, getInstructionContextAtIndexInTrace, hframe]
    refine ⟨_, rfl, rfl, fun ic hic => ?_⟩
    cases hic
    simp [hframe]

/-- The second call of a program to itself finds the first one. -/
theorem processed_sibling_second_call :
    ∃ s : TraceState, s.ctx.instructionStack = [0, 2] ∧
      ∃ found, s.ctx.processedSiblingInstruction 0 = .ok (some found) ∧ found.indexInTrace = 1 := by
  have hreach : TraceReachable ext (fun s op => op.Disciplined 1 s) message accounts
      rent 5 64 _ :=
    ⟨start 5 64, rfl, ((((Relation.ReflTransGen.single (.push (.inr ⟨rfl, by decide⟩) rfl)).tail
      (@TraceStep.prepare _ _ _ instruction [] _ _ _ _ rfl rfl rfl)).tail (.push (.inl rfl) rfl)).tail
      (.pop rfl rfl)).tail (@TraceStep.prepare _ _ _ instruction [] _ _ _ _ rfl rfl rfl) |>.tail
      (.push (.inl rfl) rfl)⟩
  obtain ⟨current, hcurrent, hindex, hcaller, hfinds⟩ := processed_sibling (by decide) hreach rfl
  obtain ⟨found, hfound, hmap, -⟩ := hfinds 0 (by decide)
  have hlog : current ∈ [(⟨0, 0, none⟩), ⟨1, 1, some 0⟩, ⟨2, 1, some 0⟩] := hcurrent
  obtain rfl : current = ⟨2, 1, some 0⟩ := by
    simp only [mem_cons, not_mem_nil, or_false] at hlog
    rcases hlog with rfl | rfl | rfl
    · cases hindex
    · cases hindex
    · rfl
  obtain ⟨ic, rfl, hic⟩ := Option.map_eq_some_iff.mp hmap
  exact ⟨_, rfl, ic, hfound, hic⟩

/-! ## More calls than the counter can count -/

namespace SelfCall

variable {ctx : TransactionContext}

/-- The instruction of the message. -/
def caller : InstructionContext where
  indexInTrace := 0
  nestingLevel := 0
  indexOfCallerInstruction := 65535
  programAccountIndexInTx := 0
  instructionAccounts := [⟨0, false, false⟩]
  dedupMap := 0 :: .replicate 255 65535
  instructionData := []

/-- The program has made `k` calls to itself, and the last one may still run. -/
structure Calling (k : Nat) (running : Bool) (s : TraceState) : Prop where
  accounts : s.ctx.accounts = .new SelfCall.accounts
  stack : s.ctx.instructionStack = if running then [0, k] else [0]
  length : s.ctx.instructionTrace.length = k + 2
  caller : s.ctx.getInstructionContextAtIndexInTrace 0 = .ok caller
  lists : 0 < s.ctx.instructionAccounts.length ∧ 0 < s.ctx.deduplicationMaps.length ∧
    0 < s.ctx.instructionData.length
  calls : ∀ i, 1 ≤ i → i ≤ k → ∃ frame : InstructionFrame, s.ctx.instructionTrace[i]? = some frame ∧
    frame.indexOfCallerInstruction = 0 ∧ frame.nestingLevel = 1 ∧ frame.programAccountIndexInTx = 0
  cpis : s.ctx.transactionFrame.numberOfCpisInTrace.toNat = min k 65535
  next : s.ctx.nextTopLevelInstructionIndex = 1
  stackCapacity : s.ctx.instructionStackCapacity = 5
  traceCapacity : s.ctx.instructionTraceCapacity = 131072
  prepared : s.prepared = false
  pushed : s.pushed = ⟨0, 0, none⟩ :: (range k).map fun j => ⟨j + 1, 1, some 0⟩

theorem calling_entered : Calling 0 false ⟨entered 5 131072, message.configurations, [⟨0, 0, none⟩], false⟩ where
  accounts := rfl
  stack := rfl
  length := rfl
  caller := rfl
  lists := ⟨by decide, by decide, by decide⟩
  calls i h1 h2 := by omega
  cpis := rfl
  next := rfl
  stackCapacity := rfl
  traceCapacity := rfl
  prepared := rfl
  pushed := rfl

/-- What a call is configured with. -/
def configuration : Configuration := ⟨0, [⟨0, false, false⟩], 0 :: .replicate 255 65535, []⟩

theorem Calling.current (h : Calling k false s) : s.ctx.getCurrentInstructionContext = .ok SelfCall.caller := by
  simp only [getCurrentInstructionContext, getCurrentInstructionIndex, h.stack]
  exact h.caller

theorem Calling.resolves (h : Calling k false s) : resolveCpi s.ctx instruction [] =
      .ok (configuration.program, configuration.accounts, configuration.table) := by
  -- the accounts and the caller are those of the first call
  have haccounts : s.ctx.accounts = (entered 5 131072).transactionContext.accounts := h.accounts
  have hfind : s.ctx.findIndexOfAccount = (entered 5 131072).transactionContext.findIndexOfAccount := by
    funext key
    simp [findIndexOfAccount, haccounts]
  have hadd : addMeta s.ctx = addMeta (entered 5 131072).transactionContext := by
    funext state accountMeta
    simp [addMeta, hfind]
  simp only [resolveCpi, addMetas, findProgram, h.current.trans calling_entered.current.symm, hadd, hfind]
  rfl

theorem Calling.prepares (h : Calling k false s) :
    ∃ s1, (prepareNextCpiInstruction instruction []).run s.invokeContext = .ok () s1 ∧
      PreparedCall s.ctx s1.transactionContext configuration 0 := by
  have hlt : s.ctx.getInstructionTraceLength < s.ctx.instructionTrace.length := by
    rw [getInstructionTraceLength, h.length]
    omega
  cases hrun : (prepareNextCpiInstruction instruction []).run s.invokeContext with
  | ok u s1 =>
    obtain ⟨_, _, _, caller, hresolved, hcaller, hprepared⟩ := prepareNextCpiInstruction_ok hrun
    cases h.resolves.symm.trans hresolved
    rw [h.stack] at hcaller
    cases hcaller
    exact ⟨s1, rfl, hprepared⟩
  | error fault s1 =>
    have hindex : s.ctx.getCurrentInstructionIndex = .ok 0 := by
      rw [getCurrentInstructionIndex, h.stack]
      rfl
    simp only [prepareNextCpiInstruction, run, h.resolves, hindex] at hrun
    split at hrun
    · cases hrun
    · rename_i hconfigure
      simp only [onTransaction, zoom, configureInstructionAtIndex, run_bind, run_get, hlt] at hconfigure
      cases hconfigure

theorem getProgramKey_eq (haccounts : ctx.accounts = .new accounts)
    (hprogram : ic.programAccountIndexInTx = 0) : ctx.getProgramKey ic = .ok (key 1) := by
  simp only [getProgramKey, InstructionContext.getIndexOfProgramAccountInTransaction, hprogram,
    getKeyOfAccountAtIndex, haccounts]
  rfl

/-- A call that was prepared is pushed. -/
theorem push_eq {s : InvokeContext} (haccounts : s.transactionContext.accounts = .new accounts)
    (hstack : s.transactionContext.instructionStack = [0])
    (hlength : s.transactionContext.instructionTrace.length = k + 2)
    (hcaller : s.transactionContext.getInstructionContextAtIndexInTrace 0 = .ok caller)
    (hprogram : ∀ frame, s.transactionContext.instructionTrace[k + 1]? = some frame →
      frame.programAccountIndexInTx = 0) (hcalled : s.transactionContext.numberOfCalledInstructionsInTrace <
      s.transactionContext.instructionTraceCapacity) (hdepth : 1 < s.transactionContext.instructionStackCapacity) :
    ∃ s', (push ext).run s = .ok () s' ∧ s'.transactionContext = s.transactionContext.entered := by
  have htrace : s.transactionContext.instructionTrace ≠ [] := ne_nil_of_length_eq_add_one hlength
  have hcurrent : s.transactionContext.getCurrentInstructionContext = .ok caller := by
    simp only [getCurrentInstructionContext, getCurrentInstructionIndex, hstack]
    exact hcaller
  obtain ⟨frame, hframe⟩ : ∃ frame, s.transactionContext.instructionTrace[k + 1]? = some frame :=
    ⟨_, getElem?_eq_getElem (by omega)⟩
  have hadmits : InvokeContext.Admits s.transactionContext := by
    have hnext : ∃ ic, s.transactionContext.getNextInstructionContext = .ok ic ∧ ic.programAccountIndexInTx = 0 := by
      have hnil : s.transactionContext.instructionTrace.isEmpty = false := by simpa using htrace
      simp only [getNextInstructionContext, hstack, hnil, hlength, getInstructionContextAtIndexInTrace]
      simp only [Nat.add_one_sub_one, hframe]
      exact ⟨_, rfl, hprogram frame hframe⟩
    obtain ⟨ic, hic, hprogram⟩ := hnext
    refine ⟨ic, key 1, hic, getProgramKey_eq haccounts hprogram, fun _ => ?_⟩
    have hkey : s.transactionContext.getProgramKey caller = .ok (key 1) := getProgramKey_eq haccounts rfl
    rw [hcurrent]
    simp [executes, hkey]
  obtain ⟨hrefused, -⟩ | ⟨-, heq⟩ := push_cases ext s
  · exact absurd hadmits hrefused
  have hfind : s.transactionContext.findIndexOfAccount ext.instructionsId = none := by
    rw [findIndexOfAccount, haccounts]
    rfl
  have hout := TransactionContext.push_outcome ext htrace
  rw [heq]
  simp only [onTransaction, zoom, run] at hout ⊢
  generalize TransactionContext.push ext s.transactionContext = outcome at hout
  cases hout with
  | unbalanced _ delta =>
    rw [haccounts] at delta
    exact absurd rfl delta
  | traceFull full => omega
  | tooDeep _ deep =>
    rw [getInstructionStackHeight, hstack] at deep
    exact absurd deep (by simpa using hdepth)
  | noSysvar => exact ⟨_, rfl, rfl⟩
  | stored _ _ sysvar | notStored _ _ sysvar =>
    rw [hfind] at sysvar
    cases sysvar

/-- The first instruction of a trace stays what it is. -/
theorem context_zero {ctx' : TransactionContext} (htrace : ctx'.instructionTrace[0]? = ctx.instructionTrace[0]?)
    (haccounts : ctx'.instructionAccounts[0]? = ctx.instructionAccounts[0]?)
    (hmaps : ctx'.deduplicationMaps[0]? = ctx.deduplicationMaps[0]?)
    (hdata : ctx'.instructionData[0]? = ctx.instructionData[0]?) :
    ctx'.getInstructionContextAtIndexInTrace 0 = ctx.getInstructionContextAtIndexInTrace 0 := by
  simp [getInstructionContextAtIndexInTrace, htrace, haccounts, hmaps, hdata]

abbrev Steps : TraceState → TraceState → Prop :=
  Relation.ReflTransGen (TraceStep ext fun s op => op.Disciplined message.instructions.length s)

/-- The context of a call that was pushed. -/
theorem entered_nested (hstack : ctx.instructionStack ≠ []) : ctx.entered = { ctx with
    transactionFrame := { ctx.transactionFrame with
      numberOfCpisInTrace := satSucc16 ctx.transactionFrame.numberOfCpisInTrace
      currentExecutingInstruction := .ofNat ctx.getInstructionTraceLength }
    instructionTrace := ctx.leveled.instructionTrace ++ [default]
    instructionStack := ctx.instructionStack ++ [ctx.getInstructionTraceLength] } := by
  have hleveled : ctx.leveled.instructionStack ≠ [] := hstack
  simp only [TransactionContext.entered, taken, if_neg hleveled, nextInvocation, if_neg hstack]
  rfl

/-- The program calls itself once more. -/
theorem Calling.call (h : Calling k false s) : ∃ s', Steps s s' ∧ Calling (k + 1) true s' := by
  obtain ⟨s1, hprepare, total, cpiScratchpad, f, hp, hf⟩ := h.prepares
  have hlen : s.ctx.getInstructionTraceLength = k + 1 := by
    rw [getInstructionTraceLength, h.length]
    rfl
  have htrace : s1.transactionContext.instructionTrace = s.ctx.instructionTrace.modify (k + 1) f := by
    rw [hp, ← hlen, withCall]
  have hstack1 : s1.transactionContext.instructionStack = [0] := hp ▸ h.stack
  have haccounts1 : s1.transactionContext.accounts = .new SelfCall.accounts := hp ▸ h.accounts
  have hlength1 : s1.transactionContext.instructionTrace.length = k + 2 := by
    rw [htrace, length_modify, h.length]
  obtain ⟨frame0, hframe0⟩ : ∃ frame, s.ctx.instructionTrace[k + 1]? = some frame :=
    ⟨_, getElem?_eq_getElem (by rw [h.length]; omega)⟩
  have hreserved : s1.transactionContext.instructionTrace[k + 1]? = some (f frame0) := by
    rw [htrace, getElem?_modify_eq, hframe0]
    rfl
  have hcaller1 : s1.transactionContext.getInstructionContextAtIndexInTrace 0 = .ok SelfCall.caller := by
    rw [← h.caller]
    refine context_zero ?_ ?_ ?_ ?_
    · rw [htrace, getElem?_modify_ne _ _ (by omega)]
    · rw [hp, withCall, getElem?_append_left h.lists.1]
    · rw [hp, withCall, getElem?_append_left h.lists.2.1]
    · rw [hp, withCall, getElem?_append_left h.lists.2.2]
  have hcalled : s1.transactionContext.numberOfCalledInstructionsInTrace <
      s1.transactionContext.instructionTraceCapacity := by
    have hcpis := h.cpis
    simp only [numberOfCalledInstructionsInTrace, hp, withCall, h.next, h.traceCapacity]
    rw [satAdd_eq (by omega)]
    omega
  obtain ⟨s2, hpush, hentered⟩ := push_eq haccounts1 hstack1 hlength1 hcaller1
    (fun frame hframe => by rw [hreserved] at hframe; cases hframe; exact (hf frame0).1) hcalled
    (by simp only [hp, withCall, h.stackCapacity]; decide)
  refine ⟨_, .tail (.single (.prepare h.prepared hprepare h.resolves))
    (.push (.inl rfl) (run_mapError_ok.mpr hpush)), ?_⟩
  have he := hentered.trans (entered_nested (by rw [hstack1]; exact cons_ne_nil _ _))
  have htrace2 : s2.transactionContext.instructionTrace = _ := congrArg (·.instructionTrace) he
  have hlen1 : s1.transactionContext.getInstructionTraceLength = k + 1 := by
    rw [getInstructionTraceLength, hlength1]
    rfl
  have hold : ∀ {i : Nat}, i ≤ k →
      s2.transactionContext.instructionTrace[i]? = s.ctx.instructionTrace[i]? := by
    intro i hi
    rw [htrace2, getElem?_append_left (by rw [leveled, length_modify]; omega), leveled,
      getElem?_modify_ne _ _ (by omega), htrace, getElem?_modify_ne _ _ (by omega)]
  have hnew : s2.transactionContext.instructionTrace[k + 1]? =
      some { f frame0 with nestingLevel := .ofNat s1.transactionContext.getInstructionStackHeight } := by
    rw [htrace2, getElem?_append_left (by rw [leveled, length_modify]; omega), ← hlen1]
    refine TraceInv.leveled_reserved ?_
    rw [hlen1]
    exact hreserved
  have hcpis : (satSucc16 s1.transactionContext.transactionFrame.numberOfCpisInTrace).toNat =
      min (k + 1) 65535 := by
    simp only [hp, withCall, satSucc16, satAdd, h.cpis, UInt16.toNat_ofNat']
    omega
  have hinvocation : s1.transactionContext.nextInvocation = ⟨k + 1, 1, some 0⟩ := by
    rw [nextInvocation, hlen1, getInstructionStackHeight, hstack1]
    rfl
  refine ⟨(congrArg (·.accounts) he).trans haccounts1, ?_, ?_, ?_, ?_, ?_, ?_, ?_, ?_, ?_, rfl, ?_⟩
  · show s2.transactionContext.instructionStack = [0, k + 1]
    simp only [he, hstack1, hlen1]
    rfl
  · rw [htrace2, length_append, leveled, length_modify, hlength1]
    rfl
  · rw [← hcaller1]
    refine context_zero ?_ ?_ ?_ ?_
    · rw [hold (Nat.zero_le k), htrace, getElem?_modify_ne _ _ (by omega)]
    all_goals rw [TraceState.ctx, he]
  · simp only [TraceState.ctx, he, hp, withCall, length_append, length_singleton]
    omega
  · intro i h1 h2
    rcases lt_or_ge k i with hlt | hle
    · obtain rfl : i = k + 1 := by omega
      refine ⟨_, hnew, (hf frame0).2, ?_, (hf frame0).1⟩
      show UInt16.ofNat s1.transactionContext.instructionStack.length = 1
      rw [hstack1]
      rfl
    · obtain ⟨frame, hframe, hfacts⟩ := h.calls i h1 hle
      exact ⟨frame, (hold hle).trans hframe, hfacts⟩
  · show s2.transactionContext.transactionFrame.numberOfCpisInTrace.toNat = _
    rw [he, hcpis]
  · simpa only [TraceState.ctx, he, hp, withCall] using h.next
  · simpa only [TraceState.ctx, he, hp, withCall] using h.stackCapacity
  · simpa only [TraceState.ctx, he, hp, withCall] using h.traceCapacity
  · rw [h.pushed, hinvocation, range_succ, map_append]
    rfl

theorem detectUnbalancedInstruction_eq (haccounts : ctx.accounts = .new accounts)
    (hic : ctx.getCurrentInstructionContext = .ok ic) (hprogram : ic.programAccountIndexInTx = 0) :
    detectUnbalancedInstruction.run ctx = .ok false ctx := by
  have hindex : ic.getIndexOfProgramAccountInTransaction = .ok 0 := by
    rw [InstructionContext.getIndexOfProgramAccountInTransaction, hprogram]
    rfl
  have hcheck : (onAccounts (checkNotBorrowed 0)).run ctx = .ok () ctx := by
    refine run_zoom_ok.mpr ⟨ctx.accounts, ?_, rfl⟩
    rw [haccounts]
    rfl
  simp only [detectUnbalancedInstruction, run_bind, run_get, hic, run_ofExcept_ok, hindex, hcheck, haccounts]
  rfl

/-- The call returns. -/
theorem Calling.returns (h : Calling (k + 1) true s) : ∃ s', Steps s s' ∧ Calling (k + 1) false s' := by
  have hstack : s.ctx.instructionStack = [0, k + 1] := h.stack
  obtain ⟨frame, hframe, -, -, hprogram⟩ := h.calls (k + 1) (by omega) le_rfl
  obtain ⟨ic, hic, hicprogram⟩ : ∃ ic, s.ctx.getCurrentInstructionContext = .ok ic ∧
      ic.programAccountIndexInTx = 0 := by
    simp only [getCurrentInstructionContext, getCurrentInstructionIndex, hstack, getLast?_cons_cons,
      getLast?_singleton, bind, Except.bind, getInstructionContextAtIndexInTrace, hframe]
    exact ⟨_, rfl, hprogram⟩
  have hdetect := detectUnbalancedInstruction_eq h.accounts hic hicprogram
  have hpop : TransactionContext.pop.run s.ctx = .ok () s.ctx.popStack := by
    have hnil : s.ctx.instructionStack.isEmpty = false := by rw [hstack]; rfl
    simp only [TransactionContext.pop, run_bind, run_get, hnil, Bool.false_eq_true, if_false,
      run_attempt, result, final, hdetect, run_modify, run_ofExcept_ok, run_pure]
  have hrun : pop.run s.invokeContext =
      .ok () ⟨s.ctx.popStack, s.invokeContext.syscallContext.dropLast⟩ := by
    exact run_zoom_ok.mpr ⟨_, hpop, rfl⟩
  have hpopped : s.ctx.popStack = { s.ctx with
      instructionStack := [0]
      transactionFrame := { s.ctx.transactionFrame with currentExecutingInstruction := .ofNat 0 } } := by
    simp only [popStack, hstack]
    rfl
  refine ⟨_, .single (.pop h.prepared (run_mapError_ok.mpr hrun)), ?_⟩
  rw [hpopped]
  exact { h with stack := rfl }

/-- The program can make any number of calls. -/
theorem exists_calling (k : Nat) : ∃ s,
    Steps ⟨start 5 131072, message.configurations, [], false⟩ s ∧ Calling k false s := by
  induction k with
  | zero => exact ⟨_, .single (.push (.inr ⟨rfl, by decide⟩) rfl), calling_entered⟩
  | succ k ih =>
    obtain ⟨s, hsteps, hs⟩ := ih
    obtain ⟨s1, hcall, hs1⟩ := hs.call
    obtain ⟨s2, hreturn, hs2⟩ := hs1.returns
    exact ⟨s2, (hsteps.trans hcall).trans hreturn, hs2⟩

/-- The calls made before the running one. -/
theorem Calling.siblings (h : Calling (k + 1) true s) :
    s.siblings ⟨k + 1, 1, some 0⟩ = ((range k).map fun j => ⟨j + 1, 1, some 0⟩).reverse := by
  have hbefore : ∀ p ∈ (⟨0, 0, none⟩ : Invocation) :: (range k).map (fun j => ⟨j + 1, 1, some 0⟩),
      decide (p.index ≠ k + 1) = true := by
    intro p hp
    rcases mem_cons.mp hp with rfl | hp
    · simp
    · obtain ⟨j, hj, rfl⟩ := mem_map.mp hp
      have := mem_range.mp hj
      simp only [decide_eq_true_eq]
      omega
  rw [TraceState.siblings, h.pushed, range_succ, map_append, ← cons_append, takeWhile_append_of_pos hbefore]
  simp

/-- The search visits as many calls as the counter counts. -/
theorem Calling.search (h : Calling (k + 1) true s) (hindex : 65535 ≤ index) (hindex' : index < k)
    (hk : k < 2 ^ 32) : s.ctx.processedSiblingInstruction index = .ok none := by
  have hstack : s.ctx.instructionStack = [0, k + 1] := h.stack
  have hcalls : ∀ i, 1 ≤ i → i ≤ k + 1 → ∃ ic, s.ctx.getInstructionContextAtIndexInTrace i = .ok ic ∧
      (s.ctx.hasCaller 0 i = true ↔ ic.indexOfCallerInstruction = 0) ∧ ic.indexOfCallerInstruction = 0 ∧
      ic.getStackHeight = 2 := by
    intro i h1 h2
    obtain ⟨frame, hframe, hcaller, hlevel, -⟩ := h.calls i h1 h2
    simp only [getInstructionContextAtIndexInTrace, hasCaller, hframe]
    refine ⟨_, rfl, ?_, ?_, ?_⟩
    · simp
    · exact congrArg UInt16.toNat hcaller
    · rw [hlevel]
      rfl
  have hrange : s.ctx.siblingRange = range' (k + 2 - 65535) 65535 := by
    have hheight : s.ctx.getInstructionStackHeight ≠ 1 := by
      rw [getInstructionStackHeight, hstack]
      simp
    have hlength : s.ctx.getInstructionTraceLength = k + 2 := by
      rw [getInstructionTraceLength, h.length]
      rfl
    rw [siblingRange, if_neg hheight, hlength, h.cpis]
    dsimp only
    rw [show min (k + 1) 65535 = 65535 by omega, show k + 2 - (k + 2 - 65535) = 65535 by omega]
  obtain ⟨ic, hic, -, hcaller, -⟩ := hcalls (k + 1) (by omega) le_rfl
  have hcurrent : s.ctx.getCurrentInstructionContext = .ok ic := by
    simp only [getCurrentInstructionContext, getCurrentInstructionIndex, hstack]
    exact hic
  rw [processedSiblingInstruction, hcurrent]
  dsimp only [bind, Except.bind]
  rw [hcaller, hrange, searchSibling_eq ?_ (Nat.zero_le _)
    (by rw [length_reverse, length_range']; decide), getElem?_eq_none]
  · refine (length_filter_le _ _).trans ?_
    rw [length_reverse, length_range', satAdd_eq (by omega)]
    omega
  · intro i hi
    have := mem_range'_1.mp (mem_reverse.mp hi)
    obtain ⟨ic, hic, hiff, -, hheight⟩ := hcalls i (by omega) (by omega)
    refine ⟨ic, hic, hiff, fun _ => hheight.trans ?_⟩
    rw [getInstructionStackHeight, hstack]
    rfl

end SelfCall

/-- A program makes 65536 calls to itself, and in the next one asks for the first of
them: it is not found, since the calls are counted in a `u16`. -/
theorem processed_sibling_missed :
    ∃ s : TraceState, ∃ current ∈ s.pushed,
      TraceReachable SelfCall.ext (fun s op => op.Disciplined SelfCall.message.instructions.length s)
        SelfCall.message SelfCall.accounts SelfCall.rent 5 131072 s ∧
      s.ctx.instructionStack.getLast? = some current.index ∧
      (s.siblings current)[65535]? = some ⟨1, 1, some 0⟩ ∧
      s.ctx.processedSiblingInstruction 65535 = .ok none := by
  obtain ⟨s, hsteps, hs⟩ := exists_calling 65536
  obtain ⟨s', hcall, hs'⟩ := hs.call
  refine ⟨s', ⟨65537, 1, some 0⟩, ?_, ⟨start 5 131072, rfl, hsteps.trans hcall⟩, ?_, ?_,
    hs'.search le_rfl (by omega) (by omega)⟩
  · rw [hs'.pushed, range_succ, map_append]
    exact mem_cons_of_mem _ (mem_append_right _ (mem_singleton.mpr rfl))
  · rw [hs'.stack]
    rfl
  · rw [hs'.siblings]
    simp

end Svm
