import Svm.Impl.Transaction

/-!
# Sessions on a transaction context

What code that holds a `TransactionContext` can do with it: configure, push and
pop instructions, borrow accounts through an instruction, operate on the
borrowed accounts and give them back, and run the access violation handler. A
session is the context with the borrows that are live; a run is any list of
operations, each of which may fail.
-/

namespace Svm

open Run Sbpf

structure Session where
  ctx : TransactionContext
  borrows : List BorrowedInstructionAccount

inductive SessionOp where
  | configure (instructionIndex : Nat) (programIndex : UInt16)
      (instructionAccounts : List InstructionAccount) (deduplicationMap : List UInt16)
      (instructionData : List UInt8) (callerIndex : Option UInt16)
  | push
  | pop
  /-- Borrows an account through the instruction at an index in the trace. -/
  | borrow (indexInTrace : Nat) (indexInInstruction : UInt16)
  | drop (borrow : Nat)
  | call (borrow : Nat) (op : AccountOp)
  | handle (virtualAddressSpaceAdjustments accountDataDirectMapping : Bool) (region : MemoryRegion)
      (addressSpaceReservedForAccount : UInt64) (accessType : AccessType) (vmAddr len : UInt64)

namespace Session

/-- A context with no borrow live. -/
def new (ctx : TransactionContext) : Session := { ctx := ctx, borrows := [] }

def accounts (s : Session) : TransactionAccounts := s.ctx.accounts

def withAccounts (s : Session) (a : TransactionAccounts) : Session :=
  { s with ctx := { s.ctx with accounts := a } }

/-- `try_borrow_instruction_account` through the instruction at an index in the
trace: the borrow is live when it succeeds. -/
def borrow (s : Session) (indexInTrace : Nat) (indexInInstruction : UInt16) : Session :=
  match s.ctx.getInstructionContextAtIndexInTrace indexInTrace with
  | .error _ => s
  | .ok ic =>
    match (ic.tryBorrowInstructionAccount s.ctx.rent indexInInstruction).run s.accounts with
    | .ok b a => { s.withAccounts a with borrows := s.borrows ++ [b] }
    | .error _ a => s.withAccounts a

def step (ext : Externals) : SessionOp → Session → Session
  | .configure index program accounts map data caller, s =>
    let configure := TransactionContext.configureInstructionAtIndex index program accounts map data caller
    { s with ctx := final configure s.ctx }
  | .push, s => { s with ctx := final (TransactionContext.push ext) s.ctx }
  | .pop, s => { s with ctx := final TransactionContext.pop s.ctx }
  | .borrow indexInTrace indexInInstruction, s => s.borrow indexInTrace indexInInstruction
  | .drop j, s =>
    match s.borrows[j]? with
    | some b => { s.withAccounts (s.accounts.releaseBorrowMut b.getIndexInTransaction) with
        borrows := s.borrows.eraseIdx j }
    | none => s
  | .call j op, s =>
    match s.borrows[j]? with
    | some b => s.withAccounts (final (op.run b) s.accounts)
    | none => s
  | .handle vasa dm region reserved accessType vmAddr len, s =>
    s.withAccounts (accessViolationHandler ext vasa dm s.accounts region reserved accessType vmAddr len).1

/-- The session after a list of operations. -/
def run (ext : Externals) (ops : List SessionOp) (s : Session) : Session := runs (step ext) ops s

end Session

end Svm
