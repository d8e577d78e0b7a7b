import Svm.Impl.Transaction

/-!
# The invoke context

`invoke_context.rs`: how the accounts of an instruction are put together from a
message or from the account metas of a cross-program invocation, with the
checks against the caller, and how instructions enter and leave the stack.
-/

namespace Svm

open Machine Run

structure AccountMeta where
  pubkey : Pubkey
  isSigner : Bool
  isWritable : Bool
  deriving DecidableEq, Repr

structure Instruction where
  programId : Pubkey
  accounts : List AccountMeta
  data : List UInt8
  deriving DecidableEq, Repr

structure SVMInstruction where
  programIdIndex : UInt8
  accounts : List UInt8
  data : List UInt8
  deriving DecidableEq, Repr

/-- What `prepare_top_level_instructions` reads of an `SVMMessage`. -/
structure SVMMessage where
  instructions : List SVMInstruction
  isSigner : (index : Nat) → Bool
  isWritable : (index : Nat) → Bool

structure SerializedAccountMetadata where
  originalDataLen : Nat
  vmDataAddr : UInt64
  vmKeyAddr : UInt64
  vmLamportsAddr : UInt64
  vmOwnerAddr : UInt64
  deriving DecidableEq, Repr

/-- The syscall context of an instruction, without its allocator. -/
structure SyscallContext where
  accountsMetadata : List SerializedAccountMetadata
  deriving DecidableEq, Repr

structure InvokeContext where
  transactionContext : TransactionContext
  syscallContext : List (Option SyscallContext)

/-- How code that may panic stops short. -/
inductive Fault where
  | error (err : InstructionError)
  | panic
  deriving DecidableEq, Repr

abbrev InvokeM := EStateM InstructionError InvokeContext

/-- Code on the transaction context, run on that of the invoke context. -/
def onTransaction {α : Type} (x : TransactionM α) : InvokeM α :=
  zoom InvokeContext.transactionContext (fun s ctx => { s with transactionContext := ctx }) x

/-- `get_program_key`, of an instruction of the transaction. -/
def TransactionContext.getProgramKey (ctx : TransactionContext) (ic : InstructionContext) :
    Except InstructionError Pubkey := do
  ctx.getKeyOfAccountAtIndex (← ic.getIndexOfProgramAccountInTransaction)

/-- A map that has seen no account. -/
def newCalleeMap : List UInt16 := .replicate MAX_ACCOUNTS_PER_TRANSACTION 65535

namespace InvokeContext

/-! ## Cross-program invocations -/

variable (ctx : TransactionContext)

/-- One step of the first pass: the account of a meta is appended. If the map has it
at an index of the list, the flags are merged there and the merged entry is
repeated; else the map gets the index of the new entry. -/
def addMeta (state : List UInt16 × List InstructionAccount)
    (accountMeta : AccountMeta) : Except Fault (List UInt16 × List InstructionAccount) :=
  let (transactionCalleeMap, instructionAccounts) := state
  match ctx.findIndexOfAccount accountMeta.pubkey with
  | none => .error (.error .MissingAccount)
  | some indexInTransaction =>
    match transactionCalleeMap[indexInTransaction.toNat]? with
    | none => .error .panic
    | some indexInCallee =>
      match instructionAccounts[indexInCallee.toNat]? with
      | some account =>
        let account := { account with
          isSigner := account.isSigner || accountMeta.isSigner
          isWritable := account.isWritable || accountMeta.isWritable }
        .ok (transactionCalleeMap, instructionAccounts.set indexInCallee.toNat account ++ [account])
      | none =>
        .ok (transactionCalleeMap.set indexInTransaction.toNat (.ofNat instructionAccounts.length),
          instructionAccounts ++ [⟨indexInTransaction, accountMeta.isSigner, accountMeta.isWritable⟩])

/-- The first pass, over all metas. -/
def addMetas (metas : List AccountMeta)
    (state : List UInt16 × List InstructionAccount) : Except Fault (List UInt16 × List InstructionAccount) :=
  metas.foldlM (addMeta ctx) state

/-- One step of the second pass, at `currentIndex`: a repeated account takes the
flags of its first entry; a first entry is checked against the caller. -/
def checkAccount (caller : InstructionContext) (metas : List AccountMeta) (signers : List Pubkey)
    (transactionCalleeMap : List UInt16) (currentIndex : Nat) (instructionAccounts : List InstructionAccount) :
    Except Fault (List InstructionAccount) :=
  match instructionAccounts[currentIndex]? with
  | none => .error .panic
  | some account =>
    match transactionCalleeMap[account.indexInTransaction.toNat]? with
    | none => .error .panic
    | some indexInCallee =>
      if currentIndex ≠ indexInCallee.toNat then
        match instructionAccounts[indexInCallee.toNat]? with
        | none => .error (.error .MissingAccount)
        | some reference =>
          -- This account is repeated, so there is no need to check for permissions
          .ok (instructionAccounts.set currentIndex { account with
            isSigner := account.isSigner || reference.isSigner
            isWritable := account.isWritable || reference.isWritable })
      else
        match caller.getIndexOfAccountInInstruction account.indexInTransaction with
        | .error err => .error (.error err)
        | .ok indexInCaller =>
          match metas[currentIndex]?, caller.instructionAccounts[indexInCaller.toNat]? with
          | some accountMeta, some callerAccount =>
            -- Readonly in caller cannot become writable in callee
            if account.isWritable && !callerAccount.isWritable then .error (.error .PrivilegeEscalation)
            -- To be signed in the callee,
            -- it must be either signed in the caller or by the program
            else if account.isSigner && !(callerAccount.isSigner || signers.contains accountMeta.pubkey) then
              .error (.error .PrivilegeEscalation)
            else .ok instructionAccounts
          | _, _ => .error .panic

/-- The second pass, over `remaining` indices from `currentIndex` on. -/
def checkAccounts (caller : InstructionContext) (metas : List AccountMeta) (signers : List Pubkey)
    (transactionCalleeMap : List UInt16) :
    (currentIndex remaining : Nat) → List InstructionAccount → Except Fault (List InstructionAccount)
  | _, 0, instructionAccounts => .ok instructionAccounts
  | currentIndex, remaining + 1, instructionAccounts => do
    let instructionAccounts ←
      checkAccount caller metas signers transactionCalleeMap currentIndex instructionAccounts
    checkAccounts caller metas signers transactionCalleeMap (currentIndex + 1) remaining instructionAccounts

/-- The program account of a CPI, which has to be one of the caller's instruction
accounts. -/
def findProgram (caller : InstructionContext) (programId : Pubkey) :
    Except InstructionError UInt16 :=
  match ctx.findIndexOfAccount programId with
  | none => .error .MissingAccount
  | some index =>
    match caller.getIndexOfAccountInInstruction index with
    | .error _ => .error .MissingAccount
    | .ok _ => .ok index

/-- What `prepare_next_cpi_instruction` configures: the program account, the
instruction accounts and their map. -/
def resolveCpi (instruction : Instruction) (signers : List Pubkey) :
    Except Fault (UInt16 × List InstructionAccount × List UInt16) := do
  match ctx.getCurrentInstructionContext with
  | .error err => .error (.error err)
  | .ok caller =>
    let (transactionCalleeMap, instructionAccounts) ← addMetas ctx instruction.accounts (newCalleeMap, [])
    let instructionAccounts ← checkAccounts caller instruction.accounts signers transactionCalleeMap 0
      instructionAccounts.length instructionAccounts
    match findProgram ctx caller instruction.programId with
    | .error err => .error (.error err)
    | .ok programAccountIndex => return (programAccountIndex, instructionAccounts, transactionCalleeMap)

/-- `prepare_next_cpi_instruction`. -/
def prepareNextCpiInstruction (instruction : Instruction) (signers : List Pubkey) :
    EStateM Fault InvokeContext Unit := fun s =>
  match resolveCpi s.transactionContext instruction signers with
  | .error fault => .error fault s
  | .ok (programAccountIndex, instructionAccounts, transactionCalleeMap) =>
    match s.transactionContext.getCurrentInstructionIndex with
    | .error err => .error (.error err) s
    | .ok callerIndex =>
      match (onTransaction (TransactionContext.configureInstructionAtIndex
          s.transactionContext.getInstructionTraceLength programAccountIndex instructionAccounts
          transactionCalleeMap instruction.data (some (.ofNat callerIndex)))).run s with
      | .ok () s => .ok () s
      | .error err s => .error (.error err) s

/-- The signers of `native_invoke_signed`: addresses derived from the caller's own
program id. -/
def nativeSigners (createProgramAddress : (seeds : List (List UInt8)) → Pubkey → Except UInt64 Pubkey)
    (ctx : TransactionContext) (signerSeeds : List (List (List UInt8))) :
    Except InstructionError (List Pubkey) := do
  let callerProgramId ← ctx.getProgramKey (← ctx.getCurrentInstructionContext)
  match signerSeeds.mapM (createProgramAddress · callerProgramId) with
  | .ok signers => return signers
  | .error code => throw (.Custom code)

/-! ## Top level instructions -/

/-- One account of a top level instruction, by its index in the transaction. -/
def addIndex (message : SVMMessage) (state : List UInt16 × List InstructionAccount) (index : UInt8) :
    List UInt16 × List InstructionAccount :=
  let (transactionCalleeMap, instructionAccounts) := state
  let transactionCalleeMap :=
    if (transactionCalleeMap[index.toNat]?.getD 0).toNat > instructionAccounts.length then
      transactionCalleeMap.set index.toNat (.ofNat instructionAccounts.length)
    else transactionCalleeMap
  (transactionCalleeMap, instructionAccounts ++
    [⟨.ofNat index.toNat, message.isSigner index.toNat, message.isWritable index.toNat⟩])

/-- The map and the accounts of a top level instruction. -/
def resolveTopLevel (message : SVMMessage) (instruction : SVMInstruction) :
    List UInt16 × List InstructionAccount :=
  instruction.accounts.foldl (addIndex message) (newCalleeMap, [])

/-- `prepare_top_level_instructions`, from the instruction at `index` on. -/
def prepareTopLevelFrom (message : SVMMessage) (index : Nat) : List SVMInstruction →
    EStateM (UInt8 × InstructionError) InvokeContext Unit
  | [] => pure ()
  | instruction :: rest => do
    let (transactionCalleeMap, instructionAccounts) := resolveTopLevel message instruction
    let s ← get
    match (onTransaction (TransactionContext.configureInstructionAtIndex index
        (.ofNat instruction.programIdIndex.toNat) instructionAccounts transactionCalleeMap
        instruction.data none)).run s with
    | .ok () s =>
      set s
      prepareTopLevelFrom message (index + 1) rest
    | .error err s =>
      set s
      throw (.ofNat index, err)

def prepareTopLevelInstructions (message : SVMMessage) :
    EStateM (UInt8 × InstructionError) InvokeContext Unit :=
  prepareTopLevelFrom message 0 message.instructions

/-! ## The stack -/

/-- Whether the instruction at a nesting level executes the program. -/
def executes (programId : Pubkey) (level : Except InstructionError InstructionContext) :
    Bool :=
  match level with
  | .error _ => false
  | .ok ic =>
    match ctx.getProgramKey ic with
    | .ok key => key == programId
    | .error _ => false

def push (ext : Externals) : InvokeM Unit := do
  let ctx := (← get).transactionContext
  let instructionContext ← MonadExcept.ofExcept ctx.getNextInstructionContext
  match ctx.getProgramKey instructionContext with
  | .error _ => throw .UnsupportedProgramId
  | .ok programId =>
    let contains := (List.range ctx.getInstructionStackHeight).any fun level =>
      executes ctx programId (ctx.getInstructionContextAtNestingLevel level)
    let isLast := executes ctx programId ctx.getCurrentInstructionContext
    -- Reentrancy not allowed unless caller is calling itself
    if ctx.getInstructionStackHeight ≠ 0 ∧ contains ∧ !isLast then throw .ReentrancyNotAllowed
    else do
      modify fun s => { s with syscallContext := s.syscallContext ++ [none] }
      onTransaction (TransactionContext.push ext)

def pop : InvokeM Unit := do
  modify fun s => { s with syscallContext := s.syscallContext.dropLast }
  onTransaction TransactionContext.pop

/-- `Result::and`: both have been evaluated, and the first error is returned. -/
def andResult : Except InstructionError Unit → Except InstructionError Unit → Except InstructionError Unit
  | .error err, _ => .error err
  | .ok (), result => result

/-- `process_instruction`, around the code that it runs between the push and the pop:
`process_executable_chain`, or a precompile in `process_precompile`. -/
def processInstruction (ext : Externals) (processExecutableChain : InvokeM Unit) : InvokeM Unit := do
  push ext
  let result ← attempt processExecutableChain
  -- MUST pop if and only if `push` succeeded, independent of `result`.
  let popped ← attempt pop
  MonadExcept.ofExcept (andResult result popped)

end InvokeContext

end Svm
