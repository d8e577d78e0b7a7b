import Svm.Impl.InvokeContext

/-!
# Processed sibling instructions

The search of `SyscallGetProcessedSiblingInstruction` in `syscalls/src/lib.rs`:
backwards through the trace, for the instruction that was processed `index + 1`
instructions before the current one under the same caller.
-/

namespace Svm.TransactionContext

open Machine

variable (ctx : TransactionContext)

/-- The indices that are searched: either only top level instructions or only CPIs,
depending on the stack height. -/
def siblingRange : List Nat :=
  if ctx.getInstructionStackHeight = 1 then List.range ctx.nextTopLevelInstructionIndex
  else
    let stop := ctx.getInstructionTraceLength
    let start := stop - ctx.transactionFrame.numberOfCpisInTrace.toNat
    List.range' start (stop - start)

/-- The loop of the search, over the indices that are left. -/
def searchSibling (stackHeight currentIxCaller index : Nat) :
    (reverseIndexAtStackHeight : Nat) → List Nat → Except InstructionError (Option InstructionContext)
  | _, [] => return none
  | reverseIndexAtStackHeight, indexInTrace :: rest => do
    let instructionContext ← ctx.getInstructionContextAtIndexInTrace indexInTrace
    -- sibling instructions must have the same caller
    if instructionContext.indexOfCallerInstruction ≠ currentIxCaller then
      searchSibling stackHeight currentIxCaller index reverseIndexAtStackHeight rest
    else if instructionContext.getStackHeight < stackHeight then return none
    else if instructionContext.getStackHeight = stackHeight then
      if satAdd 64 index 1 = reverseIndexAtStackHeight then return some instructionContext
      else searchSibling stackHeight currentIxCaller index (satAdd 64 reverseIndexAtStackHeight 1) rest
    else searchSibling stackHeight currentIxCaller index reverseIndexAtStackHeight rest

/-- The instruction that `sol_get_processed_sibling_instruction` reports, if it
reports one. -/
def processedSiblingInstruction (index : Nat) : Except InstructionError (Option InstructionContext) := do
  let current ← ctx.getCurrentInstructionContext
  ctx.searchSibling ctx.getInstructionStackHeight current.indexOfCallerInstruction index 0 ctx.siblingRange.reverse

end Svm.TransactionContext
