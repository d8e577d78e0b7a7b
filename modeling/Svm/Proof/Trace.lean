import Svm.Proof.ProcessInstruction

/-!
# The trace along a run

`TraceInv` ties the trace, the stack, the configured instructions and the log
of the pushes together. It holds once the top level instructions are prepared,
and a push that is used as the runtime uses it keeps it one stage at a time:
the reserved frame gets its level, the frame is taken, the stack gets it. Where
a push fails, one of these stages is what it leaves, so the trace is well
formed there as well (`trace_well_formed`).
-/

namespace Svm

open Machine Run TransactionContext EStateM SelfCall
open List hiding getElem?_eq_some_iff

variable {ctx ctx' : TransactionContext} {n stackCapacity traceCapacity : Nat} {configured : List Configuration}
  {ext : Externals} {pushed : List Invocation} {rent : Rent} {c : Configuration} {s : TraceState}
  {prepared : Bool} {s' : InvokeContext}

/-- The trace of a transaction with `n` top level instructions. -/
structure TraceInv (n : Nat) (ctx : TransactionContext) (configured : List Configuration)
    (pushed : List Invocation) (prepared : Bool) : Prop where
  /-- Every index of the trace is a `u16`. -/
  bounded : n + ctx.instructionTraceCapacity ≤ 65536
  length : ctx.instructionTrace.length = n + ctx.transactionFrame.numberOfCpisInTrace.toNat + 1
  instructionAccounts : ctx.instructionAccounts = configured.map (·.accounts)
  deduplicationMaps : ctx.deduplicationMaps = configured.map (·.table)
  instructionData : ctx.instructionData = configured.map (·.data)
  count : configured.length = n + ctx.transactionFrame.numberOfCpisInTrace.toNat + prepared.toNat
  program : ∀ (i : Nat) (c : Configuration), configured[i]? = some c →
    ∃ frame : InstructionFrame, ctx.instructionTrace[i]? = some frame ∧ frame.programAccountIndexInTx = c.program
  next : ctx.nextTopLevelInstructionIndex ≤ n
  called : ctx.nextTopLevelInstructionIndex + ctx.transactionFrame.numberOfCpisInTrace.toNat ≤
    ctx.instructionTraceCapacity
  depth : ctx.instructionStack.length ≤ ctx.instructionStackCapacity
  shallow : ctx.instructionStack.length ≤
    ctx.nextTopLevelInstructionIndex + ctx.transactionFrame.numberOfCpisInTrace.toNat
  /-- The frames of the message are at level 0 and have no caller. -/
  topLevel : ∀ i < n, ∃ frame : InstructionFrame, ctx.instructionTrace[i]? = some frame ∧
    frame.nestingLevel = 0 ∧ frame.indexOfCallerInstruction = 65535
  current : ∀ index, ctx.instructionStack.getLast? = some index →
    ctx.transactionFrame.currentExecutingInstruction.toNat = index
  /-- A call that is prepared has the current instruction as its caller. -/
  reserved : prepared = true → ∃ top, ctx.instructionStack.getLast? = some top ∧
    ∃ frame : InstructionFrame, ctx.instructionTrace[ctx.getInstructionTraceLength]? = some frame ∧
      frame.indexOfCallerInstruction.toNat = top
  bottom : ∀ index, ctx.instructionStack[0]? = some index → index + 1 = ctx.nextTopLevelInstructionIndex
  /-- The stack as the log has it. -/
  stack : ∀ k index, ctx.instructionStack[k]? = some index →
    ⟨index, k, (ctx.instructionStack.take k).getLast?⟩ ∈ pushed
  levels : ∀ p ∈ pushed, ∃ frame : InstructionFrame, ctx.instructionTrace[p.index]? = some frame ∧
    frame.nestingLevel.toNat = p.level
  callers : ∀ p ∈ pushed, ∀ caller, p.caller = some caller → n ≤ p.index ∧ caller < p.index ∧
    (∃ frame : InstructionFrame, ctx.instructionTrace[p.index]? = some frame ∧
      frame.indexOfCallerInstruction.toNat = caller) ∧
    ∃ frame : InstructionFrame, ctx.instructionTrace[caller]? = some frame ∧ p.level = frame.nestingLevel.toNat + 1
  /-- The pushed top level instructions, in order. -/
  tops : (pushed.filter fun p => p.caller = none).map (·.index) = range ctx.nextTopLevelInstructionIndex
  /-- The pushed calls, in order. -/
  calls : (pushed.filter fun p => p.caller ≠ none).map (·.index) =
    range' n ctx.transactionFrame.numberOfCpisInTrace.toNat
  /-- No instruction was pushed on the same caller after one of the stack. -/
  latest : ∀ k index, ctx.instructionStack[k]? = some index →
    ∀ p ∈ pushed, p.caller = (ctx.instructionStack.take k).getLast? → p.index ≤ index

namespace TraceInv

/-- The caller of an entry of the stack is the entry below it. -/
theorem take_getLast? {l : List Nat} (h : l[k]? = some caller) : (l.take (k + 1)).getLast? = some caller := by
  rw [take_add_one, h]
  simp

variable (h : TraceInv n ctx configured pushed prepared)

include h

theorem traceLength : ctx.getInstructionTraceLength = n + ctx.transactionFrame.numberOfCpisInTrace.toNat := by
  rw [getInstructionTraceLength, h.length, Nat.add_sub_cancel]

theorem trace_ne_nil : ctx.instructionTrace ≠ [] := ne_nil_of_length_eq_add_one h.length

theorem top_lt (hp : p ∈ pushed) (hcaller : p.caller = none) : p.index < ctx.nextTopLevelInstructionIndex := by
  have hmem : p.index ∈ (pushed.filter fun p => p.caller = none).map (·.index) :=
    mem_map_of_mem (mem_filter.mpr ⟨hp, by simpa using hcaller⟩)
  rwa [h.tops, mem_range] at hmem

/-- Every pushed instruction is one of the message that was reached, or a call. -/
theorem index_lt (hp : p ∈ pushed) : p.index < n + ctx.transactionFrame.numberOfCpisInTrace.toNat := by
  by_cases hcaller : p.caller = none
  · have := h.top_lt hp hcaller
    have := h.next
    omega
  · have hmem : p.index ∈ (pushed.filter fun p => p.caller ≠ none).map (·.index) :=
      mem_map_of_mem (mem_filter.mpr ⟨hp, by simpa using hcaller⟩)
    rw [h.calls, mem_range'_1] at hmem
    omega

/-- The log has an entry for every called instruction. -/
theorem length_pushed :
    pushed.length = ctx.nextTopLevelInstructionIndex + ctx.transactionFrame.numberOfCpisInTrace.toNat := by
  have htops := congrArg List.length h.tops
  have hcalls := congrArg List.length h.calls
  rw [length_map] at htops
  rw [length_range'] at hcalls
  have hsplit := length_eq_length_filter_add (l := pushed) fun p => p.caller = none
  rw [hsplit, htops, ← hcalls]
  simp

theorem stack_lt {k : Nat} (hk : ctx.instructionStack[k]? = some index) :
    index < n + ctx.transactionFrame.numberOfCpisInTrace.toNat :=
  h.index_lt (h.stack k index hk)

/-- The stack is increasing. -/
theorem stack_strictMono {j : Nat} (hij : i < j) (hi : ctx.instructionStack[i]? = some caller)
    (hj : ctx.instructionStack[j]? = some callee) : caller < callee := by
  induction j generalizing callee with
  | zero => omega
  | succ j ih =>
    obtain ⟨below, hbelow⟩ : ∃ below, ctx.instructionStack[j]? = some below :=
      ⟨_, getElem?_eq_getElem (by have := (getElem?_eq_some_iff.mp hj).1; omega)⟩
    have hlt : below < callee :=
      (h.callers _ (h.stack (j + 1) callee hj) below (take_getLast? hbelow)).2.1
    rcases Nat.lt_succ_iff_lt_or_eq.mp hij with hlt' | rfl
    · exact (ih hlt' hbelow).trans hlt
    · rw [hi] at hbelow
      cases hbelow
      exact hlt

/-- What the invariant says of the trace and the stack. -/
theorem wellFormed : WellFormed n configured ctx where
  chain level caller callee hcaller hcallee :=
    (h.callers _ (h.stack (level + 1) callee hcallee) caller (take_getLast? hcaller)).2.2.1
  bottom index hindex := by
    have := h.bottom index hindex
    have := h.next
    omega
  nestingLevel level index hindex := h.levels _ (h.stack level index hindex)
  caller index frame hn hindex hframe := by
    rw [h.traceLength] at hindex
    have hmem : index ∈ (pushed.filter fun p => p.caller ≠ none).map (·.index) := by
      rw [h.calls, mem_range'_1]
      exact ⟨hn, hindex⟩
    obtain ⟨p, hp, rfl⟩ := mem_map.mp hmem
    obtain ⟨hp, hcaller⟩ := mem_filter.mp hp
    obtain ⟨caller, hcaller⟩ := Option.ne_none_iff_exists'.mp (by simpa using hcaller)
    obtain ⟨-, hlt, ⟨frame', hframe', rfl⟩, -⟩ := h.callers p hp caller hcaller
    rw [hframe] at hframe'
    cases hframe'
    exact hlt
  configured index hindex := by
    rw [h.traceLength] at hindex
    have hlt : index < configured.length := by
      have := h.count
      omega
    obtain ⟨frame, hframe, hprogram⟩ := h.program index _ (getElem?_eq_getElem hlt)
    rw [getInstructionContextAtIndexInTrace, hframe]
    refine ⟨configured[index], _, getElem?_eq_getElem hlt, rfl, hprogram, ?_, ?_, ?_⟩
    · simp [h.instructionAccounts, hlt]
    · simp [h.deduplicationMaps, hlt]
    · simp [h.instructionData, hlt]
  topLevel := by rw [h.traceLength, Nat.add_sub_cancel]
  called := by
    have := h.bounded
    have hcalled := h.called
    rw [numberOfCalledInstructionsInTrace, satAdd_eq (by omega)]
    exact hcalled
  depth := h.depth
  current := h.current

/-! ## One stage at a time -/

omit h

theorem modified_reserved (f)
    (hframe : ctx.instructionTrace[ctx.getInstructionTraceLength]? = some frame) :
    (ctx.instructionTrace.modify ctx.getInstructionTraceLength f)[ctx.getInstructionTraceLength]? = some (f frame) := by
  rw [getElem?_modify_eq, hframe]
  rfl

/-- A change of the reserved frame. -/
theorem modified (h : TraceInv n ctx configured pushed prepared)
    (hf : prepared = true → ∀ frame, (f frame).programAccountIndexInTx = frame.programAccountIndexInTx ∧
      (f frame).indexOfCallerInstruction = frame.indexOfCallerInstruction) :
    TraceInv n { ctx with instructionTrace := ctx.instructionTrace.modify ctx.getInstructionTraceLength f }
      configured pushed prepared := by
  have hlen := h.traceLength
  have hkept {i : Nat} {frame : InstructionFrame} (hi : i < ctx.getInstructionTraceLength)
      (hframe : ctx.instructionTrace[i]? = some frame) :
      (ctx.instructionTrace.modify ctx.getInstructionTraceLength f)[i]? = some frame := by
    rw [getElem?_modify_ne _ _ (by omega), hframe]
  refine { h with length := ?_, program := ?_, topLevel := ?_, reserved := ?_, levels := ?_, callers := ?_ }
  · exact (length_modify ..).trans h.length
  · intro i c hc
    obtain ⟨frame, hframe, hprogram⟩ := h.program i c hc
    rcases lt_or_ge i ctx.getInstructionTraceLength with hi | hi
    · exact ⟨frame, hkept hi hframe, hprogram⟩
    · have hlt := (getElem?_eq_some_iff.mp hc).1
      rw [h.count] at hlt
      cases prepared with
      | false => exact absurd hlt (by rw [Bool.toNat_false]; omega)
      | true =>
        rw [Bool.toNat_true] at hlt
        obtain rfl : i = ctx.getInstructionTraceLength := by omega
        exact ⟨_, modified_reserved f hframe, (hf rfl frame).1.trans hprogram⟩
  · intro i hi
    obtain ⟨frame, hframe, htop⟩ := h.topLevel i hi
    exact ⟨frame, hkept (by omega) hframe, htop⟩
  · intro hprepared
    obtain ⟨top, htop, frame, hframe, hcaller⟩ := h.reserved hprepared
    refine ⟨top, htop, f frame, ?_, by rw [(hf hprepared frame).2, hcaller]⟩
    simp only [getInstructionTraceLength, length_modify]
    exact modified_reserved f hframe
  · intro p hp
    obtain ⟨frame, hframe, hlevel⟩ := h.levels p hp
    have := h.index_lt hp
    exact ⟨frame, hkept (by omega) hframe, hlevel⟩
  · intro p hp caller hcaller
    obtain ⟨hn, hlt, ⟨frame, hframe, hc⟩, frame', hframe', hlevel⟩ := h.callers p hp caller hcaller
    have := h.index_lt hp
    exact ⟨hn, hlt, ⟨frame, hkept (by omega) hframe, hc⟩, frame', hkept (by omega) hframe', hlevel⟩

theorem leveled (h : TraceInv n ctx configured pushed prepared) :
    TraceInv n ctx.leveled configured pushed prepared := h.modified fun _ _ => ⟨rfl, rfl⟩

theorem leveled_reserved (hframe : ctx.instructionTrace[ctx.getInstructionTraceLength]? = some frame) :
    ctx.leveled.instructionTrace[ctx.getInstructionTraceLength]? =
      some { frame with nestingLevel := .ofNat ctx.getInstructionStackHeight } := modified_reserved _ hframe

/-- The next instruction of the message is taken. -/
theorem taken_topLevel (h : TraceInv n ctx configured pushed prepared) (hn : n ≤ 65536)
    (hstack : ctx.instructionStack = []) (hnext : ctx.nextTopLevelInstructionIndex < n)
    (hroom : ctx.nextTopLevelInstructionIndex + ctx.transactionFrame.numberOfCpisInTrace.toNat <
      ctx.instructionTraceCapacity) : TraceInv n ctx.taken configured (pushed ++ [ctx.nextInvocation]) false := by
  have hprepared : prepared = false := by
    cases prepared with
    | false => rfl
    | true =>
      obtain ⟨top, htop, -⟩ := h.reserved rfl
      rw [hstack] at htop
      cases htop
  subst hprepared
  have htaken : ctx.taken = { ctx with nextTopLevelInstructionIndex := ctx.nextTopLevelInstructionIndex + 1 } := by
    rw [taken, if_pos hstack, satAdd_eq (by omega)]
  have hinvocation : ctx.nextInvocation = ⟨ctx.nextTopLevelInstructionIndex, 0, none⟩ := by
    simp only [nextInvocation, getInstructionStackHeight, hstack]
    rfl
  rw [htaken, hinvocation]
  refine { h with next := hnext, called := ?_, shallow := ?_, bottom := ?_, stack := ?_, levels := ?_,
                  callers := ?_, tops := ?_, calls := ?_, latest := ?_ }
  · dsimp only
    omega
  · simp [hstack]
  · simp [hstack]
  · simp [hstack]
  · intro p hp
    rcases mem_append.mp hp with hp | hp
    · exact h.levels p hp
    · obtain rfl := mem_singleton.mp hp
      obtain ⟨frame, hframe, hlevel, -⟩ := h.topLevel _ hnext
      exact ⟨frame, hframe, by rw [hlevel]; rfl⟩
  · intro p hp caller hcaller
    rcases mem_append.mp hp with hp | hp
    · exact h.callers p hp caller hcaller
    · obtain rfl := mem_singleton.mp hp
      cases hcaller
  · rw [filter_append, map_append, h.tops, range_succ]
    rfl
  · rw [filter_append, map_append, h.calls]
    simp
  · simp [hstack]

/-- The reserved frame is taken for a call that was prepared. -/
theorem taken_call (h : TraceInv n ctx configured pushed true)
    (hroom : ctx.nextTopLevelInstructionIndex + ctx.transactionFrame.numberOfCpisInTrace.toNat <
      ctx.instructionTraceCapacity)
    (hlevel : ∀ frame, ctx.instructionTrace[ctx.getInstructionTraceLength]? = some frame →
      frame.nestingLevel.toNat = ctx.getInstructionStackHeight) :
    TraceInv n ctx.taken configured (pushed ++ [ctx.nextInvocation]) false := by
  obtain ⟨top, htop, reserved, hreserved, hcaller⟩ := h.reserved rfl
  have hstack : ctx.instructionStack ≠ [] := by
    rintro hnil
    rw [hnil] at htop
    cases htop
  have htoplast : ctx.instructionStack[ctx.instructionStack.length - 1]? = some top := by
    rwa [getLast?_eq_getElem?] at htop
  have hbelow := h.stack_lt htoplast
  have hpos : 0 < ctx.instructionStack.length := length_pos_iff.mpr hstack
  have hbottom := h.bottom ctx.instructionStack[0] (getElem?_eq_getElem hpos)
  have hcpis : (satSucc16 ctx.transactionFrame.numberOfCpisInTrace).toNat =
      ctx.transactionFrame.numberOfCpisInTrace.toNat + 1 := by
    have := h.bounded
    rw [satSucc16, satAdd_eq (by omega)]
    exact Nat.mod_eq_of_lt (by omega)
  have htaken : ctx.taken = { ctx with
      transactionFrame := { ctx.transactionFrame with
        numberOfCpisInTrace := satSucc16 ctx.transactionFrame.numberOfCpisInTrace }
      instructionTrace := ctx.instructionTrace ++ [default] } := if_neg hstack
  have hinvocation : ctx.nextInvocation =
      ⟨ctx.getInstructionTraceLength, ctx.getInstructionStackHeight, some top⟩ := by
    rw [nextInvocation, if_neg hstack, htop]
  have hlen := h.traceLength
  have hframe : ∀ {i : Nat} {frame : InstructionFrame}, ctx.instructionTrace[i]? = some frame →
      (ctx.instructionTrace ++ [default])[i]? = some frame := by
    intro i frame hi
    rw [getElem?_append_left (getElem?_eq_some_iff.mp hi).1, hi]
  rw [htaken, hinvocation]
  refine { h with length := ?_, count := ?_, program := ?_, called := ?_, shallow := ?_, topLevel := ?_,
                  reserved := ?_, stack := ?_, levels := ?_, callers := ?_, tops := ?_, calls := ?_, latest := ?_ }
  · rw [hcpis, length_append, h.length]
    rfl
  · rw [hcpis, h.count]
    rfl
  · intro i c hc
    obtain ⟨frame, hi, hprogram⟩ := h.program i c hc
    exact ⟨frame, hframe hi, hprogram⟩
  · rw [hcpis]
    exact hroom
  · dsimp only
    have := h.shallow
    omega
  · intro i hi
    obtain ⟨frame, hi, htop⟩ := h.topLevel i hi
    exact ⟨frame, hframe hi, htop⟩
  · simp
  · intro k index hk
    exact mem_append_left _ (h.stack k index hk)
  · intro p hp
    rcases mem_append.mp hp with hp | hp
    · obtain ⟨frame, hi, hl⟩ := h.levels p hp
      exact ⟨frame, hframe hi, hl⟩
    · -- the entries of the stack have callers below the current instruction
      obtain rfl := mem_singleton.mp hp
      exact ⟨reserved, hframe hreserved, hlevel _ hreserved⟩
  · intro p hp caller hc
    rcases mem_append.mp hp with hp | hp
    · obtain ⟨hn, hlt, ⟨frame, hi, hfc⟩, frame', hi', hl⟩ := h.callers p hp caller hc
      exact ⟨hn, hlt, ⟨frame, hframe hi, hfc⟩, frame', hframe hi', hl⟩
    · obtain rfl := mem_singleton.mp hp
      obtain rfl : top = caller := Option.some.inj hc
      obtain ⟨frame', hi', hl'⟩ := h.levels _ (h.stack _ _ htoplast)
      refine ⟨?_, ?_, ⟨reserved, hframe hreserved, hcaller⟩, frame', hframe hi', ?_⟩
      · show n ≤ ctx.getInstructionTraceLength
        omega
      · show top < ctx.getInstructionTraceLength
        omega
      · show ctx.instructionStack.length = _
        rw [hl']
        show _ = ctx.instructionStack.length - 1 + 1
        omega
  · rw [filter_append, map_append, h.tops]
    simp
  · rw [filter_append, map_append, h.calls, hcpis, range'_1_concat, hlen]
    rfl
  · intro k index hk p hp hpc
    rcases mem_append.mp hp with hp | hp
    · exact h.latest k index hk p hp hpc
    · obtain rfl := mem_singleton.mp hp
      have hklt : k < ctx.instructionStack.length := (getElem?_eq_some_iff.mp hk).1
      cases k with
      | zero => simp at hpc
      | succ k =>
        have hkk : ctx.instructionStack[k]? = some ctx.instructionStack[k] :=
          getElem?_eq_getElem (by omega)
        have hpc : some top = some ctx.instructionStack[k] := hpc.trans (take_getLast? hkk)
        have := h.stack_strictMono (by omega) hkk htoplast
        have := Option.some.inj hpc
        omega

/-- An instruction that was just taken is put on the stack. -/
theorem stacked (h : TraceInv n ctx configured pushed false) (hindex : index < 65536)
    (hdepth : ctx.getInstructionStackHeight < ctx.instructionStackCapacity)
    (hshallow : ctx.getInstructionStackHeight <
      ctx.nextTopLevelInstructionIndex + ctx.transactionFrame.numberOfCpisInTrace.toNat)
    (hbottom : ctx.instructionStack = [] → index + 1 = ctx.nextTopLevelInstructionIndex)
    (hlogged : ⟨index, ctx.getInstructionStackHeight, ctx.instructionStack.getLast?⟩ ∈ pushed)
    (hlatest : ∀ p ∈ pushed, p.caller = ctx.instructionStack.getLast? → p.index ≤ index) :
    TraceInv n (ctx.stacked index) configured pushed false := by
  have hentry : ∀ k i, (ctx.instructionStack ++ [index])[k]? = some i →
      ctx.instructionStack[k]? = some i ∧ (ctx.instructionStack ++ [index]).take k = ctx.instructionStack.take k ∨
      i = index ∧ k = ctx.instructionStack.length ∧
        (ctx.instructionStack ++ [index]).take k = ctx.instructionStack := by
    intro k i hk
    rcases lt_trichotomy k ctx.instructionStack.length with hlt | rfl | hgt
    · rw [getElem?_append_left hlt] at hk
      exact .inl ⟨hk, take_append_of_le_length hlt.le⟩
    · rw [getElem?_append_right le_rfl, Nat.sub_self] at hk
      exact .inr ⟨(Option.some.inj hk).symm, rfl, by simp⟩
    · have := (getElem?_eq_some_iff.mp hk).1
      rw [length_append, length_singleton] at this
      omega
  refine { h with depth := ?_, shallow := ?_, current := ?_, reserved := ?_, bottom := ?_, stack := ?_,
                  latest := ?_ }
  · show (ctx.instructionStack ++ [index]).length ≤ _
    rw [length_append]
    exact hdepth
  · show (ctx.instructionStack ++ [index]).length ≤ _
    rw [length_append]
    exact hshallow
  · intro i hi
    have hi : (ctx.instructionStack ++ [index]).getLast? = some i := hi
    rw [getLast?_concat] at hi
    cases hi
    exact Nat.mod_eq_of_lt hindex
  · simp
  · intro i hi
    rcases hentry 0 i hi with ⟨hi, -⟩ | ⟨rfl, hzero, -⟩
    · exact h.bottom i hi
    · exact hbottom (length_eq_zero_iff.mp hzero.symm)
  · intro k i hi
    show ⟨i, k, ((ctx.instructionStack ++ [index]).take k).getLast?⟩ ∈ pushed
    rcases hentry k i hi with ⟨hi, htake⟩ | ⟨rfl, rfl, htake⟩
    · rw [htake]
      exact h.stack k i hi
    · rw [htake]
      exact hlogged
  · intro k i hi p hp hpc
    have hpc : p.caller = ((ctx.instructionStack ++ [index]).take k).getLast? := hpc
    rcases hentry k i hi with ⟨hi, htake⟩ | ⟨rfl, rfl, htake⟩
    · rw [htake] at hpc
      exact h.latest k i hi p hp hpc
    · rw [htake] at hpc
      exact hlatest p hp hpc

/-! ## The operations -/

/-- How the runtime pushes: a call that was prepared, or an instruction of the message
when nothing runs. -/
def PushUse (n : Nat) (ctx : TransactionContext) (prepared : Bool) : Prop :=
  prepared = true ∨ ctx.instructionStack = [] ∧ ctx.nextTopLevelInstructionIndex < n

include h

theorem called_eq : ctx.numberOfCalledInstructionsInTrace =
      ctx.nextTopLevelInstructionIndex + ctx.transactionFrame.numberOfCpisInTrace.toNat := by
  have := h.called
  have := h.bounded
  exact satAdd_eq (by omega)

theorem taken (huse : PushUse n ctx prepared)
    (hroom : ctx.numberOfCalledInstructionsInTrace < ctx.instructionTraceCapacity) :
    TraceInv n ctx.leveled.taken configured (pushed ++ [ctx.nextInvocation]) false := by
  have := h.bounded
  rw [h.called_eq] at hroom
  rw [← ctx.leveled_nextInvocation]
  rcases huse with rfl | ⟨hstack, hnext⟩
  · refine h.leveled.taken_call hroom fun frame hframe => ?_
    obtain ⟨_, -, reserved, hreserved, -⟩ := h.reserved rfl
    rw [leveled_getInstructionTraceLength, leveled_reserved hreserved] at hframe
    cases hframe
    have : ctx.getInstructionStackHeight ≤ _ := h.shallow
    exact Nat.mod_eq_of_lt (by omega)
  · exact h.leveled.taken_topLevel (by omega) hstack hnext hroom

/-- The instruction that is taken is the latest one on its caller. -/
theorem index_le (hp : p ∈ pushed ++ [ctx.nextInvocation]) (hcaller : p.caller = ctx.instructionStack.getLast?) :
    p.index ≤ ctx.nextInvocation.index := by
  rcases mem_append.mp hp with hp | hp
  · rw [nextInvocation]
    split
    · rename_i hstack
      exact (h.top_lt hp (by rw [hcaller, hstack]; rfl)).le
    · have := h.index_lt hp
      rw [h.traceLength]
      exact this.le
  · obtain rfl := mem_singleton.mp hp
    exact le_rfl

theorem entered (huse : PushUse n ctx prepared)
    (hroom : ctx.numberOfCalledInstructionsInTrace < ctx.instructionTraceCapacity)
    (hdepth : ctx.getInstructionStackHeight < ctx.instructionStackCapacity) :
    TraceInv n ctx.entered configured (pushed ++ [ctx.nextInvocation]) false := by
  have htaken := h.taken huse hroom
  have hstack : ctx.leveled.taken.instructionStack = ctx.instructionStack := ctx.leveled.taken_instructionStack
  have hcapacity : ctx.leveled.taken.instructionStackCapacity = ctx.instructionStackCapacity :=
    ctx.leveled.taken_instructionStackCapacity
  have hlt := htaken.index_lt (p := ctx.nextInvocation) (by simp)
  have hcalled := htaken.called
  have hbounded := htaken.bounded
  refine htaken.stacked (by omega) ?_ ?_ ?_ ?_ ?_
  · rw [getInstructionStackHeight, hstack, hcapacity]
    exact hdepth
  · have hlength := htaken.length_pushed
    have hshallow := h.shallow
    rw [length_append, h.length_pushed, length_singleton] at hlength
    rw [getInstructionStackHeight, hstack]
    omega
  · intro hnil
    rw [hstack] at hnil
    have := h.next
    rw [nextInvocation, TransactionContext.taken, if_pos hnil, if_pos (by exact hnil)]
    exact (satAdd_eq (by show ctx.nextTopLevelInstructionIndex + 1 < _; omega)).symm
  · rw [getInstructionStackHeight, hstack]
    exact mem_append_right _ (mem_singleton.mpr rfl)
  · rw [hstack]
    exact fun p hp hcaller => h.index_le hp hcaller

omit h

/-- The current instruction leaves the stack. -/
theorem unstacked (h : TraceInv n ctx configured pushed false) (current : UInt16)
    (hcurrent : ∀ index, ctx.instructionStack.dropLast.getLast? = some index → current.toNat = index) :
    TraceInv n { ctx with
      instructionStack := ctx.instructionStack.dropLast
      transactionFrame := { ctx.transactionFrame with currentExecutingInstruction := current } }
      configured pushed false := by
  have hentry : ∀ k i, ctx.instructionStack.dropLast[k]? = some i →
      ctx.instructionStack[k]? = some i ∧
        ctx.instructionStack.dropLast.take k = ctx.instructionStack.take k := by
    intro k i hk
    have hlt := (getElem?_eq_some_iff.mp hk).1
    rw [length_dropLast] at hlt
    rw [dropLast_eq_take, getElem?_take_of_lt (by omega)] at hk
    rw [dropLast_eq_take, take_take, min_eq_left (by omega)]
    exact ⟨hk, rfl⟩
  have hlength : ctx.instructionStack.dropLast.length ≤ ctx.instructionStack.length := by
    rw [length_dropLast]
    exact Nat.sub_le ..
  refine { h with depth := hlength.trans h.depth, shallow := hlength.trans h.shallow, current := hcurrent,
                  reserved := ?_, bottom := ?_, stack := ?_, latest := ?_ }
  · simp
  · exact fun index hindex => h.bottom index (hentry 0 index hindex).1
  · intro k index hk
    obtain ⟨hk, htake⟩ := hentry k index hk
    rw [htake]
    exact h.stack k index hk
  · intro k index hk
    obtain ⟨hk, htake⟩ := hentry k index hk
    rw [htake]
    exact h.latest k index hk

/-- A pop, whether it fails or not. -/
theorem pop (h : TraceInv n ctx configured pushed false) : TraceInv n (final pop ctx) configured pushed false := by
  obtain ⟨a, current, hpop, hcurrent, -⟩ := final_pop ctx
  rw [hpop]
  have hunstacked := h.unstacked current fun index hindex => by
    obtain ⟨k, hk⟩ := mem_iff_getElem?.mp (dropLast_subset _ (mem_of_getLast? hindex))
    have := h.stack_lt hk
    have := h.called
    have := h.bounded
    rw [hcurrent index hindex]
    exact Nat.mod_eq_of_lt (by omega)
  exact { hunstacked with }

end TraceInv

theorem forall_concat {l : List α} {P : Nat → α → Prop} (h : ∀ i x, l[i]? = some x → P i x) (hlast : P l.length y) :
    ∀ i x, (l ++ [y])[i]? = some x → P i x := by
  intro i x hx
  rw [getElem?_append] at hx
  split at hx
  · exact h i x hx
  · rw [getElem?_singleton] at hx
    split_ifs at hx with hi
    cases hx
    obtain rfl : i = l.length := by omega
    exact hlast

/-- A call is prepared. -/
theorem TraceInv.prepare (h : TraceInv n ctx configured pushed false)
    (hcaller : ctx.instructionStack.getLast? = some caller)
    (hprepared : PreparedCall ctx ctx' c (.ofNat caller)) : TraceInv n ctx' (configured ++ [c]) pushed true := by
  obtain ⟨total, cpiScratchpad, f, rfl, hf⟩ := hprepared
  have hmodified := h.modified (f := f) (by simp)
  have hlen := h.traceLength
  have hcount : configured.length = ctx.getInstructionTraceLength := h.count.trans hlen.symm
  obtain ⟨frame0, hframe0⟩ : ∃ frame, ctx.instructionTrace[ctx.getInstructionTraceLength]? = some frame :=
    ⟨_, getElem?_eq_getElem (by rw [h.length]; omega)⟩
  have hreserved := modified_reserved f hframe0
  have hcallerIndex : (UInt16.ofNat caller).toNat = caller := by
    rw [getLast?_eq_getElem?] at hcaller
    have := h.stack_lt hcaller
    have := h.called
    have := h.bounded
    exact Nat.mod_eq_of_lt (by omega)
  refine { hmodified with instructionAccounts := ?_, deduplicationMaps := ?_, instructionData := ?_, count := ?_,
                          program := ?_, reserved := ?_ }
  · rw [map_append, ← h.instructionAccounts]
    rfl
  · rw [map_append, ← h.deduplicationMaps]
    rfl
  · rw [map_append, ← h.instructionData]
    rfl
  · rw [length_append, h.count]
    rfl
  · refine forall_concat hmodified.program ?_
    rw [hcount]
    exact ⟨_, hreserved, (hf frame0).1⟩
  · intro _
    rw [getInstructionTraceLength, withCall, length_modify]
    exact ⟨caller, hcaller, _, hreserved, by rw [(hf frame0).2, hcallerIndex]⟩

/-- The instructions of the message are prepared. -/
theorem TraceInv.start {message : SVMMessage} {accounts : List (Pubkey × AccountSharedData)}
    {start : InvokeContext} (hbounded : message.instructions.length + traceCapacity ≤ 65536)
    (hstart : (InvokeContext.prepareTopLevelInstructions message).run
      ⟨.new accounts rent stackCapacity traceCapacity message.instructions.length, []⟩ = .ok () start) :
    TraceInv message.instructions.length start.transactionContext message.configurations [] false := by
  have hp := prepareTopLevelFrom_ok hstart
  have hlength := hp.trace
  rw [TransactionContext.new, length_replicate, satAdd_eq (by omega)] at hlength
  have htopLevel : ∀ i < message.instructions.length, ∃ frame : InstructionFrame,
      start.transactionContext.instructionTrace[i]? = some frame ∧ frame.nestingLevel = 0 ∧
      frame.indexOfCallerInstruction = 65535 := by
    intro i hi
    obtain ⟨frame, hframe, hlevel, hcaller, -⟩ := hp.frame i default (by
      rw [TransactionContext.new, getElem?_replicate, satAdd_eq (by omega), if_pos (by omega)])
    exact ⟨frame, hframe, hlevel, hcaller⟩
  have hprogram : ∀ (i : Nat) (c : Configuration), message.configurations[i]? = some c → ∃ frame : InstructionFrame,
      start.transactionContext.instructionTrace[i]? = some frame ∧ frame.programAccountIndexInTx = c.program := by
    intro i c hc
    rw [SVMMessage.configurations, getElem?_map, Option.map_eq_some_iff] at hc
    obtain ⟨instruction, hi, rfl⟩ := hc
    obtain ⟨frame, hframe, hprogram⟩ := hp.program i instruction hi
    rw [zero_add] at hframe
    exact ⟨frame, hframe, hprogram⟩
  obtain ⟨trace, heq⟩ := hp.rest
  rw [heq] at hlength htopLevel hprogram ⊢
  refine ⟨hbounded, hlength, ?_, ?_, ?_, length_map _, hprogram, ?_, ?_, ?_, ?_, htopLevel, ?_, ?_, ?_, ?_, ?_, ?_, ?_, ?_, ?_⟩
  iterate 3
    rw [SVMMessage.configurations, map_map]
    rfl
  all_goals simp [TransactionContext.new]

/-! ## Runs -/

/-- A push, whether it fails or not. -/
theorem TraceInv.push (h : TraceInv n ctx configured pushed prepared) (huse : PushUse n ctx prepared)
    (houtcome : ctx.PushOutcome ext outcome) :
    match outcome with
    | .ok _ ctx' => TraceInv n ctx' configured (pushed ++ [ctx.nextInvocation]) false
    | .error _ ctx' => ∃ pushed' prepared', TraceInv n ctx' configured pushed' prepared' := by
  cases houtcome with
  | unbalanced => exact ⟨_, _, h⟩
  | traceFull => exact ⟨_, _, h.leveled⟩
  | tooDeep room => exact ⟨_, _, h.taken huse room⟩
  | noSysvar room shallow => exact h.entered huse room shallow
  | stored room shallow => exact { h.entered huse room shallow with }
  | notStored room shallow => exact ⟨_, _, { h.entered huse room shallow with }⟩

/-- What a push of the invoke context does to the transaction context. -/
theorem InvokeContext.push_outcome (ext) {s : InvokeContext}
    (htrace : s.transactionContext.instructionTrace ≠ []) :
    match (push ext).run s with
    | .ok _ s' => s.transactionContext.PushOutcome ext (.ok () s'.transactionContext)
    | .error _ s' => s'.transactionContext = s.transactionContext ∨
        ∃ e, s.transactionContext.PushOutcome ext (.error e s'.transactionContext) := by
  obtain ⟨-, e, he⟩ | ⟨-, heq⟩ := push_cases ext s
  · rw [he]
    exact .inl rfl
  · have houtcome := TransactionContext.push_outcome ext htrace
    rw [heq]
    simp only [onTransaction, zoom, EStateM.run] at houtcome ⊢
    cases hpush : TransactionContext.push ext s.transactionContext with
    | ok u ctx =>
      rw [hpush] at houtcome
      exact houtcome
    | error e ctx =>
      rw [hpush] at houtcome
      exact .inr ⟨e, houtcome⟩

/-- What a pop leaves. -/
theorem TraceOp.run_pop {s : InvokeContext} (hrun : (TraceOp.run ext .pop).run s = .ok () s') :
    s'.transactionContext = final TransactionContext.pop s.transactionContext := by
  rw [← InvokeContext.final_pop_transactionContext, final, run_mapError_ok.mp hrun]

/-- What a push that succeeds has done. -/
theorem TraceOp.run_push {s : InvokeContext}
    (htrace : s.transactionContext.instructionTrace ≠ []) (hrun : (TraceOp.run ext .push).run s = .ok () s') :
    s.transactionContext.PushOutcome ext (.ok () s'.transactionContext) := by
  have houtcome := InvokeContext.push_outcome ext htrace
  rw [run_mapError_ok.mp hrun] at houtcome
  exact houtcome

/-- What an operation that fails leaves. -/
theorem TraceOp.run_eq_error {s : InvokeContext} {op : TraceOp}
    (htrace : s.transactionContext.instructionTrace ≠ []) (hrun : (op.run ext).run s = .error fault s') :
    s'.transactionContext = s.transactionContext ∨
      (op = .push ∧ ∃ e, s.transactionContext.PushOutcome ext (.error e s'.transactionContext)) ∨
      op = .pop ∧ s'.transactionContext = final TransactionContext.pop s.transactionContext := by
  cases op with
  | prepare instruction signers => exact .inl (congrArg _ (prepareNextCpiInstruction_error htrace hrun))
  | push =>
    obtain ⟨e, hpush, -⟩ := run_mapError_eq_error.mp hrun
    have houtcome := InvokeContext.push_outcome ext htrace
    rw [hpush] at houtcome
    exact houtcome.imp_right fun h => .inl ⟨rfl, h⟩
  | pop =>
    obtain ⟨e, hpop, -⟩ := run_mapError_eq_error.mp hrun
    refine .inr (.inr ⟨rfl, ?_⟩)
    rw [← InvokeContext.final_pop_transactionContext, final, hpop]

/-- What every operation does to the trace, where it is used as the runtime uses it:
if it fails, there is a log that fits what it leaves. -/
theorem TraceInv.fails {op : TraceOp} (h : TraceInv n s.ctx s.configured s.pushed s.prepared)
    (huse : op.Disciplined n s) (hrun : (op.run ext).run s.invokeContext = .error fault s') :
    ∃ pushed prepared, TraceInv n s'.transactionContext s.configured pushed prepared := by
  obtain hsame | ⟨rfl, e, houtcome⟩ | ⟨rfl, hpop⟩ := op.run_eq_error h.trace_ne_nil hrun
  · rw [hsame]
    exact ⟨_, _, h⟩
  · exact h.push huse houtcome
  · rw [hpop]
    rw [show s.prepared = false from huse] at h
    exact ⟨_, _, h.pop⟩

/-- One step keeps the invariant. -/
theorem TraceInv.step {s' : TraceState} (h : TraceInv n s.ctx s.configured s.pushed s.prepared)
    (hstep : TraceStep ext (fun s op => op.Disciplined n s) s s') :
    TraceInv n s'.ctx s'.configured s'.pushed s'.prepared := by
  cases hstep with
  | prepare use run resolved =>
    obtain ⟨_, _, _, caller, hresolved, hcaller, hprepared⟩ := prepareNextCpiInstruction_ok run
    cases resolved.symm.trans hresolved
    rw [show s.prepared = false from use] at h
    exact h.prepare hcaller hprepared
  | push use run => exact h.push use (TraceOp.run_push h.trace_ne_nil run)
  | pop use run =>
    rw [show s.prepared = false from use] at h ⊢
    rw [TraceState.ctx, TraceOp.run_pop run]
    exact h.pop
  | work worked =>
    obtain ⟨a, bytes, pubkey, scratchpad, cpiScratchpad, heq⟩ := worked.rest
    rw [TraceState.ctx, heq]
    exact { h with }

theorem TraceReachable.inv {message : SVMMessage} {accounts : List (Pubkey × AccountSharedData)}
    (hreach : TraceReachable ext (fun s op => op.Disciplined message.instructions.length s) message accounts rent
      stackCapacity traceCapacity s) (hbounded : message.instructions.length + traceCapacity ≤ 65536) :
    TraceInv message.instructions.length s.ctx s.configured s.pushed s.prepared := by
  obtain ⟨start, hstart, hrun⟩ := hreach
  induction hrun with
  | refl => exact .start hbounded hstart
  | tail _ hstep ih => exact ih.step hstep

/-! ## The instructions sysvar -/

/-- The bottom of the stack after a push. -/
theorem TraceInv.entered_bottom
    (h : TraceInv n ctx configured pushed prepared) (hk : ctx.entered.instructionStack[0]? = some k) :
    ctx.topLevelIndex = k := by
  rw [entered_instructionStack] at hk
  by_cases hnil : ctx.instructionStack = []
  · rw [hnil, nextInvocation, if_pos hnil] at hk
    rw [topLevelIndex, if_pos hnil]
    exact Option.some.inj hk
  · rw [getElem?_append_left (length_pos_iff.mpr hnil)] at hk
    have := h.bottom k hk
    rw [topLevelIndex, if_neg hnil]
    omega

theorem findIndexOfAccount_congr {key : Pubkey} (hkeys : ctx'.accounts.accountKeys = ctx.accounts.accountKeys) :
    ctx'.findIndexOfAccount key = ctx.findIndexOfAccount key := by
  rw [findIndexOfAccount, hkeys]
  rfl

section Sysvar

/-- The sysvar is told the index by every push. -/
theorem IndexStored.push (hstores : StoresIndex ext loadCurrentIndex)
    (h : TraceInv n ctx configured pushed prepared) (houtcome : ctx.PushOutcome ext (.ok () ctx')) :
    IndexStored ext loadCurrentIndex ctx' := by
  intro k index hk hindex
  cases houtcome with
  | noSysvar _ _ sysvar =>
    rw [findIndexOfAccount_congr (congrArg _ ctx.entered_accounts), sysvar] at hindex
    cases hindex
  | @stored room _ index' sysvar a stores =>
    have hq := quiet_storeCurrentIndex ext ctx.accounts index' (.ofNat ctx.topLevelIndex)
    rw [final, stores] at hq
    rw [findIndexOfAccount_congr hq.accountKeys_eq, sysvar] at hindex
    cases hindex
    obtain ⟨writes, hwrites, hdata, -⟩ := data_storeCurrentIndex stores
    rw [hdata, hstores _ _ _ hwrites, h.entered_bottom hk]
    have hlt : k < 65536 := by
      have := h.next
      have := h.bounded
      have hbottom := h.entered_bottom hk
      rw [topLevelIndex] at hbottom
      split at hbottom <;> omega
    exact Nat.mod_eq_of_lt hlt

/-- The stack has lost instructions at most, and the data of the accounts stays. -/
theorem IndexStored.of_data (h : IndexStored ext loadCurrentIndex ctx)
    (hkeys : ctx'.accounts.accountKeys = ctx.accounts.accountKeys)
    (hdata : ∀ index, ctx.findIndexOfAccount ext.instructionsId = some index →
      (ctx'.accounts.view index).data = (ctx.accounts.view index).data)
    (hbottom : ∀ k, ctx'.instructionStack[0]? = some k → ctx.instructionStack[0]? = some k) :
    IndexStored ext loadCurrentIndex ctx' := by
  intro k index hk hindex
  rw [findIndexOfAccount_congr hkeys] at hindex
  rw [hdata index hindex]
  exact h k index (hbottom k hk) hindex

theorem IndexStored.step (hstores : StoresIndex ext loadCurrentIndex) {s' : TraceState}
    (hinv : TraceInv n s.ctx s.configured s.pushed s.prepared) (h : IndexStored ext loadCurrentIndex s.ctx)
    (hstep : TraceStep ext (fun s op => op.Disciplined n s) s s') : IndexStored ext loadCurrentIndex s'.ctx := by
  cases hstep with
  | prepare use run resolved =>
    obtain ⟨_, _, _, _, -, -, _, _, _, heq, -⟩ := prepareNextCpiInstruction_ok run
    rw [TraceState.ctx, heq]
    exact h.of_data rfl (fun _ _ => rfl) fun _ hk => hk
  | push use run => exact .push hstores hinv (TraceOp.run_push hinv.trace_ne_nil run)
  | pop use run =>
    obtain ⟨a, current, hpop, -, hkeys, hdata⟩ := final_pop s.ctx
    rw [TraceState.ctx, TraceOp.run_pop run, hpop]
    refine h.of_data hkeys (fun index _ => hdata index) fun k hk => ?_
    rw [dropLast_eq_take] at hk
    have hlt := (getElem?_eq_some_iff.mp hk).1
    rw [length_take] at hlt
    rwa [getElem?_take_of_lt (by omega)] at hk
  | work worked =>
    refine h.of_data worked.keys worked.sysvar fun k hk => ?_
    obtain ⟨a, bytes, pubkey, scratchpad, cpiScratchpad, heq⟩ := worked.rest
    simp only [TraceState.ctx, heq] at hk
    exact hk

theorem TraceReachable.indexStored {message : SVMMessage} {accounts : List (Pubkey × AccountSharedData)}
    (hstores : StoresIndex ext loadCurrentIndex)
    (hreach : TraceReachable ext (fun s op => op.Disciplined message.instructions.length s) message accounts rent
      stackCapacity traceCapacity s) (hbounded : message.instructions.length + traceCapacity ≤ 65536) :
    IndexStored ext loadCurrentIndex s.ctx := by
  obtain ⟨start, hstart, hrun⟩ := hreach
  induction hrun with
  | refl =>
    intro k index hk
    obtain ⟨trace, heq⟩ := (prepareTopLevelFrom_ok hstart).rest
    simp only [TraceState.ctx, heq] at hk
    cases hk
  | tail hrun hstep ih => exact ih.step hstores (inv ⟨start, hstart, hrun⟩ hbounded) hstep

end Sysvar

/-- In a transaction whose trace can not outgrow the `u16` indices, the trace and the
stack are well formed after every disciplined run, also if its last operation
fails, and the sysvar stores the running top level instruction. -/
theorem trace_well_formed {ext : Externals} {loadCurrentIndex : List UInt8 → UInt16} {message : SVMMessage}
    {accounts : List (Pubkey × AccountSharedData)} {rent : Rent} {stackCapacity traceCapacity : Nat}
    {s : TraceState} (hstores : StoresIndex ext loadCurrentIndex)
    (hbounded : message.instructions.length + traceCapacity ≤ 65536)
    (hreach : TraceReachable ext (fun s op => op.Disciplined message.instructions.length s) message accounts rent
      stackCapacity traceCapacity s) :
    WellFormed message.instructions.length s.configured s.ctx ∧ IndexStored ext loadCurrentIndex s.ctx ∧
    ∀ (op : TraceOp) (fault : Fault) (s' : InvokeContext), op.Disciplined message.instructions.length s →
      (op.run ext).run s.invokeContext = .error fault s' →
      WellFormed message.instructions.length s.configured s'.transactionContext := by
  have hinv := hreach.inv hbounded
  refine ⟨hinv.wellFormed, hreach.indexStored hstores hbounded, fun op fault s' huse hrun => ?_⟩
  obtain ⟨pushed, prepared, hinv'⟩ := hinv.fails huse hrun
  exact hinv'.wellFormed

/-- Pushes that are not prepared: the program is pushed on top of itself, and the
frame it runs in has no caller. -/
theorem trace_not_well_formed :
    ∃ s : TraceState, TraceReachable SelfCall.ext (fun _ _ => True) SelfCall.message SelfCall.accounts
        SelfCall.rent 5 64 s ∧ s.ctx.instructionStack = [0, 1] ∧
      ¬ WellFormed SelfCall.message.instructions.length s.configured s.ctx := by
  refine ⟨_, ⟨start 5 64, rfl, .tail (.single (.push trivial rfl)) (.push trivial rfl)⟩, rfl, fun h => ?_⟩
  obtain ⟨frame, hframe, hcaller⟩ := h.chain 0 0 1 rfl rfl
  cases hframe
  have : 65535 = 0 := hcaller
  omega

namespace SelfCall

/-- The index is stored in the last two bytes of the sysvar. -/
def sysvarExt : Externals where
  instructionsId := key 8
  sysvarId := key 9
  storeCurrentIndexChecked data index :=
    if data.length < 2 then ([], .error .AccountDataTooSmall)
    else ([(data.length - 2, .ofNat index.toNat), (data.length - 1, .ofNat (index.toNat / 256))], .ok ())
  payloadAddr _ _ := 0

def loadCurrentIndex (data : List UInt8) : UInt16 :=
  .ofNat ((data.getD (data.length - 2) 0).toNat + 256 * (data.getD (data.length - 1) 0).toNat)

theorem storesIndex : StoresIndex sysvarExt loadCurrentIndex := by
  intro data index writes h
  simp only [sysvarExt] at h
  split at h
  · cases h
  cases h
  have hlt := index.toNat_lt
  simp only [loadCurrentIndex, foldl_cons, foldl_nil, length_set, getD_eq_getElem?_getD]
  rw [getElem?_set_ne (by omega), getElem?_set_self (by omega), getElem?_set_self (by rw [length_set]; omega)]
  refine UInt16.toNat_inj.mp ?_
  simp only [Option.getD_some, UInt8.toNat_ofNat', UInt16.toNat_ofNat']
  omega

/-- The program, and the instructions sysvar. -/
def sysvarAccounts : List (Pubkey × AccountSharedData) :=
  accounts ++ [(key 8, { account with owner := key 9, data := ⟨[7, 7], false, 2⟩ })]

def sysvarStart : InvokeContext :=
  final (InvokeContext.prepareTopLevelInstructions message) ⟨.new sysvarAccounts rent 5 64 1, []⟩

end SelfCall

/-- The program has called itself, and the sysvar stores the index 0. -/
theorem trace_well_formed_call : ∃ s : TraceState, s.ctx.instructionStack = [0, 1] ∧
    WellFormed 1 s.configured s.ctx ∧ IndexStored SelfCall.sysvarExt SelfCall.loadCurrentIndex s.ctx ∧
    (s.ctx.accounts.view 1).data = [0, 0] := by
  have hreach : TraceReachable sysvarExt (fun s op => op.Disciplined 1 s) message
      sysvarAccounts rent 5 64 _ :=
    ⟨sysvarStart, rfl, ((Relation.ReflTransGen.single (.push (.inr ⟨rfl, by decide⟩) rfl)).tail
      (@TraceStep.prepare _ _ _ instruction [] _ _ _ _ rfl rfl rfl)).tail (.push (.inl rfl) rfl)⟩
  obtain ⟨hformed, hstored, -⟩ := trace_well_formed storesIndex (by decide) hreach
  exact ⟨_, rfl, hformed, hstored, rfl⟩

end Svm
