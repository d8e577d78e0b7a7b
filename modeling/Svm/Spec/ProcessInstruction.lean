import Svm.Impl.InvokeContext

/-!
# Instructions that process instructions

What `process_instruction` runs between its push and its pop is a program, which
may process further instructions below its own. `Behaviour` is such a program
as a tree: it works on the context, it has an instruction processed and goes on
with the result, or it returns. `Behaviour.Clean` says of a run of it that no
push in it is refused by the transaction context after the invoke context has
admitted it.
-/

namespace Svm

open Run

/-- Work on the invoke context other than a push or a pop. -/
structure Work where
  apply : InvokeContext → InvokeContext
  stack : ∀ s, (apply s).transactionContext.instructionStack = s.transactionContext.instructionStack
  syscallContext : ∀ s, (apply s).syscallContext.length = s.syscallContext.length

/-- How a program behaves between the push and the pop of its instruction. -/
inductive Behaviour where
  | done (result : Except InstructionError Unit)
  /-- Work, and what follows in the state it finds. -/
  | work (w : Work) (next : InvokeContext → Behaviour)
  /-- `process_instruction` for a callee, and what follows its result. -/
  | call (callee : Behaviour) (next : Except InstructionError Unit → Behaviour)

namespace InvokeContext

/-- The invoke context lets the next instruction through: it has a program, and the
program is not reentered. -/
def Admits (ctx : TransactionContext) : Prop :=
  ∃ instructionContext programId, ctx.getNextInstructionContext = .ok instructionContext ∧
    ctx.getProgramKey instructionContext = .ok programId ∧
    ((∃ level < ctx.getInstructionStackHeight,
        executes ctx programId (ctx.getInstructionContextAtNestingLevel level) = true) →
      executes ctx programId ctx.getCurrentInstructionContext = true)

end InvokeContext

namespace Behaviour

/-- The program, run. -/
def run (ext : Externals) : Behaviour → InvokeM Unit
  | done result => MonadExcept.ofExcept result
  | work w next => do
    let s ← get
    set (w.apply s)
    (next s).run ext
  | call callee next => do
    let result ← attempt (InvokeContext.processInstruction ext (callee.run ext))
    (next result).run ext

end Behaviour

namespace TransactionContext

variable (ctx : TransactionContext)

/-- The top level instruction that the pushed one runs under. -/
def topLevelIndex : Nat :=
  if ctx.instructionStack = [] then ctx.nextTopLevelInstructionIndex else ctx.nextTopLevelInstructionIndex - 1

/-- The account at an index takes the index of an instruction, as the instructions sysvar:
it is not borrowed, a sysvar owns it, and there is room in its data. -/
structure TakesIndex (ext : Externals) (a : TransactionAccounts) (index n : UInt16) : Prop where
  listed : index.toNat < a.len
  free : (a.slot index).borrowCounter = 0
  owner : (a.view index).owner = ext.sysvarId
  room : (ext.storeCurrentIndexChecked (a.view index).data n).2 = .ok ()

/-- What makes the transaction context refuse the next instruction. -/
inductive Refuses (ext : Externals) : Prop
  | unbalanced (nested : ctx.instructionStack ≠ []) (delta : ctx.accounts.lamportsDelta ≠ 0)
  | traceFull (full : ctx.instructionTraceCapacity ≤ ctx.numberOfCalledInstructionsInTrace)
  | tooDeep (deep : ctx.instructionStackCapacity ≤ ctx.getInstructionStackHeight)
  | sysvar (listed : ctx.findIndexOfAccount ext.instructionsId = some index)
      (refused : ¬ TakesIndex ext ctx.accounts index (.ofNat ctx.topLevelIndex))

end TransactionContext

/-- The invoke context admits the next instruction, and the transaction context refuses
it. -/
def FailsLate (ext : Externals) (s : InvokeContext) : Prop :=
  InvokeContext.Admits s.transactionContext ∧ s.transactionContext.Refuses ext

/-- A processed instruction none of whose pushes fails late, where `callee` says so
of the program it runs. -/
def CleanCall (ext : Externals) (callee : InvokeContext → Prop) (s : InvokeContext) : Prop :=
  ¬ FailsLate ext s ∧ ∀ s', (InvokeContext.push ext).run s = .ok () s' → callee s'

namespace Behaviour

/-- No push in the run of the program fails late. -/
def Clean (ext : Externals) : Behaviour → InvokeContext → Prop
  | done _, _ => True
  | work w next, s => (next s).Clean ext (w.apply s)
  | call callee next, s =>
    CleanCall ext (callee.Clean ext) s ∧
      (next (result (InvokeContext.processInstruction ext (callee.run ext)) s)).Clean ext
        (final (InvokeContext.processInstruction ext (callee.run ext)) s)

end Behaviour

/-- The height of the stack and the number of syscall contexts are the same. -/
structure Balanced (s s' : InvokeContext) : Prop where
  stack : s'.transactionContext.getInstructionStackHeight = s.transactionContext.getInstructionStackHeight
  syscallContext : s'.syscallContext.length = s.syscallContext.length

end Svm
