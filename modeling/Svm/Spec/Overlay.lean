import Svm.Spec.Batch

/-!
# The overlay of the account loader

The account loader lies over the store of the callbacks: a load gives what was last
stored, or what is behind. `LoaderOp` lists the operations of the loader, `lastStored`
is what a run of them left at an address.

For a transaction, `Executed` is an execution of its message by instructions that keep
to the rules: an instruction writes to its own writable accounts only, and passes on to
the instructions it calls no other accounts and no more rights than its own. Besides, the
instructions sysvar is told which instruction runs.
-/

namespace Svm

open Run

/-! ## Operations -/

inductive LoaderOp where
  | loadAccount (key : Pubkey)
  | loadTransactionAccount (key : Pubkey)
  | getAccountSharedData (key : Pubkey)
  | updateAccountsForSuccessfulTx (message : SVMTransaction) (transactionAccounts : List (Pubkey × Account))
      (currentSlot : Slot)
  | updateAccountsForFailedTx (rollbackAccounts : RollbackAccounts) (currentSlot : Slot)

namespace LoaderOp

/-- The loader after the operation. -/
def apply (l : AccountLoader) : LoaderOp → AccountLoader
  | loadAccount key => final (AccountLoader.loadAccount key) l
  | loadTransactionAccount key => final (AccountLoader.loadTransactionAccount key) l
  | getAccountSharedData _ => l
  | updateAccountsForSuccessfulTx message accounts slot => l.updateAccountsForSuccessfulTx message accounts slot
  | updateAccountsForFailedTx rollbackAccounts slot => l.updateAccountsForFailedTx rollbackAccounts slot

/-- The accounts that the operation stores, in this order. -/
def stored : LoaderOp → List (Pubkey × Account × Slot)
  | loadAccount _ | loadTransactionAccount _ | getAccountSharedData _ => []
  | updateAccountsForSuccessfulTx message accounts slot =>
    (AccountLoader.accountsToStore message accounts).map fun (key, account) => (key, account, slot)
  | updateAccountsForFailedTx rollbackAccounts slot =>
    rollbackAccounts.accounts.map fun (key, account) => (key, account, slot)

end LoaderOp

/-- The account that was stored last at the address. -/
def lastStored (ops : List LoaderOp) (key : Pubkey) : Option (Account × Slot) :=
  ((ops.flatMap LoaderOp.stored).reverse.find? fun entry => entry.1 = key).map Prod.snd

/-- What a load of the address should give after the operations. -/
def overlaid (callbacks : Store) (ops : List LoaderOp) (key : Pubkey) : Option (Account × Slot) :=
  match lastStored ops key with
  | some entry => if entry.1.lamports = 0 then none else some entry
  | none => callbacks key

/-! ## Executions -/

/-- What the transactions given to the processor are checked for: they name an account
once, the first account pays the fee and is writable, and what they invoke are the
programs of their instructions. -/
structure SVMTransaction.Sanitized (message : SVMTransaction) : Prop where
  nodup : message.accountKeys.Nodup
  feePayer : message.accountKeys[0]? = some message.feePayer
  writable : message.isWritable 0 = true
  invoked : ∀ i, message.isInvoked i = true →
    ∃ key instruction, message.accountKeys[i]? = some key ∧ (key, instruction) ∈ message.programInstructions

/-- `get_system_account_kind` is for accounts of the system program, which owns no
programs. -/
structure LoadEnvironment.Documented (env : LoadEnvironment) : Prop where
  systemAccount : ∀ owner data kind, env.nonces.getSystemAccountKind owner data = some kind → owner = SYSTEM_PROGRAM_ID
  nativeLoader : env.nativeLoaderId ≠ SYSTEM_PROGRAM_ID
  programOwners : SYSTEM_PROGRAM_ID ∉ env.programOwners

/-- The accounts of the instructions on the stack, the current one first, and the
contents of the accounts of the transaction. -/
structure MessageState where
  stack : List (List InstructionAccount)
  contents : Nat → AccountFields

/-- A step of an execution, in a transaction that lists the instructions sysvar at the
indices of `sysvar`. -/
inductive MessageStep (message : SVMMessage) (sysvar : Nat → Prop) : MessageState → MessageState → Prop where
  | enter {contents : Nat → AccountFields} {instruction : SVMInstruction} (h : instruction ∈ message.instructions) :
      MessageStep message sysvar ⟨[], contents⟩ ⟨[(InvokeContext.resolveTopLevel message instruction).2], contents⟩
  /-- The callee gets accounts of the caller, writable only if they are so in the caller. -/
  | call {contents : Nat → AccountFields} {caller callee : List InstructionAccount} {stack : List (List InstructionAccount)}
      (passed : ∀ x ∈ callee, ∃ y ∈ caller, y.indexInTransaction = x.indexInTransaction ∧
        (x.isWritable = true → y.isWritable = true)) :
      MessageStep message sysvar ⟨caller :: stack, contents⟩ ⟨callee :: caller :: stack, contents⟩
  | leave {contents : Nat → AccountFields} {current : List InstructionAccount} {stack : List (List InstructionAccount)} :
      MessageStep message sysvar ⟨current :: stack, contents⟩ ⟨stack, contents⟩
  | write {contents : Nat → AccountFields} {current : List InstructionAccount} {stack : List (List InstructionAccount)}
      {x : InstructionAccount} (f : AccountFields) (hx : x ∈ current) (hwritable : x.isWritable = true) :
      MessageStep message sysvar ⟨current :: stack, contents⟩
        ⟨current :: stack, fun i => if i = x.indexInTransaction.toNat then f else contents i⟩
  /-- A push writes the index of its top level instruction into the instructions sysvar. -/
  | storeCurrentIndex {contents : Nat → AccountFields} {stack : List (List InstructionAccount)} {index : Nat}
      (data : List UInt8) (hindex : sysvar index) :
      MessageStep message sysvar ⟨stack, contents⟩
        ⟨stack, fun i => if i = index then { contents i with data := data } else contents i⟩

/-- The contents of the accounts of a transaction. -/
def contentsOf (accounts : List (Pubkey × Account)) (i : Nat) : AccountFields :=
  (accounts[i]?.map fun entry => entry.2.fields).getD Account.default.fields

/-- The account of the transaction is the instructions sysvar. -/
def IsSysvar (sysvarInstructionsId : Pubkey) (accounts : List (Pubkey × Account)) (i : Nat) : Prop :=
  (accounts.map Prod.fst)[i]? = some sysvarInstructionsId

/-- An execution of the message takes the accounts from `before` to `after`. -/
structure Executed (sysvarInstructionsId : Pubkey) (message : SVMMessage) (before after : List (Pubkey × Account)) :
    Prop where
  keys : after.map Prod.fst = before.map Prod.fst
  run : Relation.ReflTransGen (MessageStep message (IsSysvar sysvarInstructionsId before)) ⟨[], contentsOf before⟩
    ⟨[], contentsOf after⟩

/-- The account is not stored after a successful transaction: it is not writable, or it
is invoked and not passed to an instruction of the message. -/
def SVMTransaction.Skips (message : SVMTransaction) (i : Nat) : Prop :=
  message.isWritable i = false ∨ message.isInvoked i = true ∧ message.isInstructionAccount i = false

end Svm
