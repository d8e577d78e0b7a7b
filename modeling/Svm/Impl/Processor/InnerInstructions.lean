import Svm.Impl.Transaction

/-!
# The inner instructions of a transaction

`deconstruct_transaction`, with the recording of inner instructions: the instructions
of the trace that were called by others, listed by the top level instruction that
started their chain of calls.
-/

namespace Svm

open Machine

structure CompiledInstruction where
  programIdIndex : UInt8
  data : List UInt8
  accounts : List UInt8
  deriving DecidableEq, Repr

structure InnerInstruction where
  instruction : CompiledInstruction
  stackHeight : UInt8
  deriving DecidableEq, Repr

/-- An instruction of the trace, zipped with its data and its accounts. -/
abbrev TracedInstruction := (InstructionFrame × List UInt8) × List InstructionAccount

/-- `take_instruction_trace`. The last frame is a placeholder for the next instruction
to be executed, so it is empty. -/
def TransactionContext.takeInstructionTrace (ctx : TransactionContext) :
    List InstructionFrame × List (List InstructionAccount) × List (List UInt8) :=
  (ctx.instructionTrace.dropLast, ctx.instructionAccounts, ctx.instructionData)

namespace InnerInstructions

/-- `usize::MAX`. -/
def USIZE_MAX : Nat := 2 ^ 64 - 1

/-- The variables of the loop over the calls of the trace. -/
structure Recording where
  /-- The top level caller of each call, `usize::MAX` for those to come. -/
  parentPositions : List Nat
  outerInstructions : List (List InnerInstruction)
  /-- Whether every `debug_assert` so far has held. -/
  asserted : Bool
  deriving DecidableEq, Repr

/-- The top level instruction under which a caller runs: itself, or the one that is
noted for it. -/
def findOuterIndex (topLevelIxsNum : Nat) (parentPositions : List Nat) (callerIx : UInt16) : Option Nat :=
  if callerIx.toNat < topLevelIxsNum then some callerIx.toNat
  else match parentPositions[callerIx.toNat - topLevelIxsNum]? with
    | some callerIndex => if callerIndex ≠ USIZE_MAX then some callerIndex else none
    | none => none

/-- What is recorded of a call. -/
def innerInstruction : TracedInstruction → InnerInstruction
  | ((ixInTrace, ixData), ixAccounts) =>
    let stackHeight := satAdd 16 ixInTrace.nestingLevel.toNat 1
    { instruction :=
        { programIdIndex := .ofNat ixInTrace.programAccountIndexInTx.toNat
          data := ixData
          accounts := ixAccounts.map fun acc => .ofNat acc.indexInTransaction.toNat }
      stackHeight := .ofNat (if stackHeight < 256 then stackHeight else 255) }

/-- The first half of a pass of the loop: the outer index of a call is noted. `none` is
a panic, of the `unwrap` of its position. -/
def noteOuterIndex (topLevelIxsNum cpiNum : Nat) (callerIx : UInt16) (r : Recording) : Option (Nat × Recording) :=
  let r := { r with asserted := r.asserted && callerIx != 65535 }
  match findOuterIndex topLevelIxsNum r.parentPositions callerIx with
  | some outerIndex =>
    if cpiNum < r.parentPositions.length then
      some (outerIndex, { r with parentPositions := r.parentPositions.set cpiNum outerIndex })
    else none
  -- This case shall never happen.
  | none => some (USIZE_MAX, { r with asserted := false })

/-- The second half: the call is added to the list at its outer index. -/
def addInner (outerIndex : Nat) (ix : TracedInstruction) (r : Recording) : Recording :=
  match r.outerInstructions[outerIndex]? with
  | some innerInstructions =>
    { r with
      outerInstructions := r.outerInstructions.set outerIndex (innerInstructions ++ [innerInstruction ix]) }
  | none => { r with asserted := false }

/-- One pass of the loop. -/
def recordNext (topLevelIxsNum cpiNum : Nat) (ix : TracedInstruction) (r : Recording) : Option Recording :=
  (noteOuterIndex topLevelIxsNum cpiNum ix.1.1.indexOfCallerInstruction r).map fun (outerIndex, r) =>
    addInner outerIndex ix r

/-- The loop, from a call on. -/
def recordFrom (topLevelIxsNum : Nat) : (cpiNum : Nat) → List TracedInstruction → Recording → Option Recording
  | _, [], r => some r
  | cpiNum, ix :: rest, r => do
    recordFrom topLevelIxsNum (cpiNum + 1) rest (← recordNext topLevelIxsNum cpiNum ix r)

/-- `deconstruct_transaction`, without the record of the accounts. `none` is a panic. -/
def deconstructTransaction (ctx : TransactionContext) (recordInnerInstructions : Bool) :
    Option (Option Recording) := do
  if recordInnerInstructions then
    let asserted := match ctx.getInstructionContextAtIndexInTrace 0 with
      | .ok instructionContext => instructionContext.getStackHeight == 1
      | .error _ => true
    let numberOfCpisInTrace := ctx.transactionFrame.numberOfCpisInTrace.toNat
    let topLevelIxsNum := ctx.getInstructionTraceLength - numberOfCpisInTrace
    let (ixTrace, accounts, ixDataTrace) := ctx.takeInstructionTrace
    let r ← recordFrom topLevelIxsNum 0 (((ixTrace.zip ixDataTrace).zip accounts).drop topLevelIxsNum)
      { parentPositions := .replicate numberOfCpisInTrace USIZE_MAX
        outerInstructions := .replicate topLevelIxsNum []
        asserted := asserted }
    return some r
  else return none

end InnerInstructions

end Svm
