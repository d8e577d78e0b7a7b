import Svm.Impl.Processor.InnerInstructions
import Svm.Spec.Trace

/-!
# What is recorded of a run

`RunEnd` are the states a run of a transaction can end in: it may stop anywhere, also
with a call prepared or in an operation that fails, and the stack may then be unwound.
`RootOf` follows the callers of an instruction to the top level. `Recorded` says that
lists hold the calls that a log of pushes has, each under its root and in its order.
-/

namespace Svm

open Run InnerInstructions

/-- The top level instruction at the root of an instruction's chain of callers. -/
inductive RootOf (log : List Invocation) : Nat → Nat → Prop
  | topLevel {p : Invocation} (mem : p ∈ log) (caller : p.caller = none) : RootOf log p.index p.index
  | call {p : Invocation} {caller root : Nat} (mem : p ∈ log) (called : p.caller = some caller)
      (rootOf : RootOf log caller root) : RootOf log p.index root

open Classical in
/-- The calls of a log under a top level instruction, in the order of their pushes. -/
noncomputable def callsUnder (log : List Invocation) (root : Nat) : List Invocation :=
  log.filter fun p => p.caller ≠ none ∧ RootOf log p.index root

/-- An inner instruction is what was configured for the call, at the height of the stack
with the call on top of it. -/
structure RecordedAs (configured : List Configuration) (p : Invocation) (inner : InnerInstruction) : Prop where
  configuration : ∃ c, configured[p.index]? = some c ∧
    inner.instruction.programIdIndex.toNat = c.program.toNat ∧
    inner.instruction.accounts.map (·.toNat) = c.accounts.map (·.indexInTransaction.toNat) ∧
    inner.instruction.data = c.data
  stackHeight : inner.stackHeight.toNat = p.level + 1

/-- The heights of a depth first traversal below the top level: it starts at 2, and goes
down by one call at a time or up to any call above. -/
def DepthFirst (heights : List Nat) : Prop :=
  List.IsChain (fun height next => 2 ≤ next ∧ next ≤ height + 1) (1 :: heights)

/-- The lists are those of the calls of the log under each of `n` top level instructions. -/
structure Recorded (n : Nat) (configured : List Configuration) (log : List Invocation)
    (lists : List (List InnerInstruction)) : Prop where
  length : lists.length = n
  calls : ∀ (root : Nat) (list : List InnerInstruction), lists[root]? = some list →
    List.Forall₂ (RecordedAs configured) (callsUnder log root) list
  depthFirst : ∀ list ∈ lists, DepthFirst (list.map (·.stackHeight.toNat))

/-- The log after a failed operation: a push may have taken its instruction before it
failed. -/
def TraceState.logAfter (s : TraceState) (ctx : TransactionContext) : List Invocation :=
  if ctx.getInstructionTraceLength = s.ctx.getInstructionTraceLength ∧
      ctx.nextTopLevelInstructionIndex = s.ctx.nextTopLevelInstructionIndex then s.pushed
  else s.pushed ++ [s.ctx.nextInvocation]

/-- The state in which a run of the message ends, with what was configured and the log
of the pushes. -/
inductive RunEnd (ext : Externals) (message : SVMMessage) (accounts : List (Pubkey × AccountSharedData))
    (rent : Rent) (stackCapacity traceCapacity : Nat) :
    InvokeContext → List Configuration → List Invocation → Prop
  /-- The message could not be prepared. -/
  | unprepared {err : UInt8 × InstructionError} {s : InvokeContext}
      (run : (InvokeContext.prepareTopLevelInstructions message).run
        ⟨.new accounts rent stackCapacity traceCapacity message.instructions.length, []⟩ = .error err s) :
      RunEnd ext message accounts rent stackCapacity traceCapacity s [] []
  /-- The run stops after any of its operations. -/
  | stopped {s : TraceState}
      (reachable : TraceReachable ext (fun s op => op.Disciplined message.instructions.length s) message accounts
        rent stackCapacity traceCapacity s) :
      RunEnd ext message accounts rent stackCapacity traceCapacity s.invokeContext s.configured s.pushed
  /-- An operation fails. -/
  | failed {s : TraceState} {op : TraceOp} {fault : Fault} {s' : InvokeContext}
      (reachable : TraceReachable ext (fun s op => op.Disciplined message.instructions.length s) message accounts
        rent stackCapacity traceCapacity s)
      (use : op.Disciplined message.instructions.length s)
      (run : (op.run ext).run s.invokeContext = .error fault s') :
      RunEnd ext message accounts rent stackCapacity traceCapacity s' s.configured
        (s.logAfter s'.transactionContext)
  /-- The stack is unwound, whether the pop fails or not. -/
  | unwound {s : InvokeContext} {configured : List Configuration} {log : List Invocation}
      (ended : RunEnd ext message accounts rent stackCapacity traceCapacity s configured log) :
      RunEnd ext message accounts rent stackCapacity traceCapacity (final InvokeContext.pop s) configured log
  | worked {s s' : InvokeContext} {configured : List Configuration} {log : List Invocation}
      (ended : RunEnd ext message accounts rent stackCapacity traceCapacity s configured log)
      (worked : Worked ext s s') :
      RunEnd ext message accounts rent stackCapacity traceCapacity s' configured log

/-- Recording the inner instructions of a transaction context reaches no failing
`debug_assert` and gives the calls of the log. -/
def RecordsCalls (n : Nat) (configured : List Configuration) (log : List Invocation) (ctx : TransactionContext) :
    Prop :=
  ∃ r, deconstructTransaction ctx true = some (some r) ∧ r.asserted = true ∧
    Recorded n configured log r.outerInstructions

end Svm
