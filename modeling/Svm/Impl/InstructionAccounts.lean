import Svm.Impl.Account

/-!
# Borrowed instruction accounts

`instruction_accounts.rs`: an account as the executing program reaches it. A
`BorrowedInstructionAccount` is what the exclusive borrow knows besides the
account itself, which its operations read and write in the
`TransactionAccounts`.
-/

namespace Svm

open Machine

structure InstructionAccount where
  indexInTransaction : UInt16
  isSigner : Bool
  isWritable : Bool
  deriving DecidableEq, Repr

/-- `Rent`, of which only `is_exempt` is used. -/
structure Rent where
  isExempt : (balance : UInt64) → (dataLen : Nat) → Bool

structure BorrowedInstructionAccount where
  rent : Rent
  instructionAccount : InstructionAccount
  indexInTransactionOfInstructionProgram : UInt16

/-- A value `bincode` can serialize: the size it reports, if it reports one, and
the writes serializing into a slice makes, with whether it succeeds. -/
structure SerializableState where
  serializedSize : Option Nat
  serializeInto : (slice : List UInt8) → List (Nat × UInt8) × Bool

def ZEROS_LEN : Nat := 1024

/-- `is_zeroed`: whole chunks first, then the remainder. -/
def isZeroed (buf : List UInt8) : Bool :=
  if ZEROS_LEN ≤ buf.length then
    buf.take ZEROS_LEN == .replicate ZEROS_LEN 0 && isZeroed (buf.drop ZEROS_LEN)
  else buf == .replicate buf.length 0
termination_by buf.length
decreasing_by
  rename_i h
  simp only [ZEROS_LEN, List.length_drop] at h ⊢
  omega

namespace BorrowedInstructionAccount

variable (b : BorrowedInstructionAccount)

def getIndexInTransaction : UInt16 := b.instructionAccount.indexInTransaction

variable (a : TransactionAccounts)

/-- The borrowed account. -/
def account : TransactionAccountView := a.view b.getIndexInTransaction

def getOwner : Pubkey := (b.account a).owner
def getLamports : UInt64 := (b.account a).lamports
def getData : List UInt8 := (b.account a).data
def isShared (a : TransactionAccounts) : Bool := (b.account a).isShared
def isExecutable : Bool := (b.account a).executable
def isSigner : Bool := b.instructionAccount.isSigner
def isWritable : Bool := b.instructionAccount.isWritable

/-- `get_key`, which unwraps: a borrowed account is in range. -/
def getKey : Pubkey := (b.account a).key

def isOwnedByCurrentProgram : Bool :=
  match a.accountKey b.indexInTransactionOfInstructionProgram with
  | some programKey => programKey == b.getOwner a
  | none => false

/-- Writes the borrowed account. -/
def modifyAccount (f : TransactionAccountView → TransactionAccountView) : AccountsM Unit :=
  modify fun a => a.modifyView b.getIndexInTransaction f

def touch : AccountsM Unit := TransactionAccounts.touch b.getIndexInTransaction

def setOwner (pubkey : Pubkey) : AccountsM Unit := do
  let a ← get
  -- Only the owner can assign a new owner
  if !b.isOwnedByCurrentProgram a then throw .ModifiedProgramId
  -- and only if the account is writable
  else if !b.isWritable then throw .ModifiedProgramId
  -- and only if the data is zero-initialized or empty
  else if !isZeroed (b.getData a) then throw .ModifiedProgramId
  -- don't touch the account if the owner does not change
  else if b.getOwner a = pubkey then return ()
  else do
    b.touch
    b.modifyAccount (·.setOwner pubkey)

def setLamports (lamports : UInt64) : AccountsM Unit := do
  let a ← get
  -- An account not owned by the program cannot have its balance decrease
  if !b.isOwnedByCurrentProgram a && lamports < b.getLamports a then throw .ExternalAccountLamportSpend
  -- The balance of read-only may not change
  else if !b.isWritable then throw .ReadonlyLamportChange
  -- don't touch the account if the lamports do not change
  else if b.getLamports a = lamports then return ()
  else do
    TransactionAccounts.addLamportsDelta (iSatSub 128 lamports.toNat (b.getLamports a).toNat)
    b.touch
    b.modifyAccount (·.setLamports lamports)

def checkedAddLamports (lamports : UInt64) : AccountsM Unit := do
  let a ← get
  match U64.checkedAdd (b.getLamports a) lamports with
  | some lamports => b.setLamports lamports
  | none => throw .ArithmeticOverflow

def checkedSubLamports (lamports : UInt64) : AccountsM Unit := do
  let a ← get
  if lamports ≤ b.getLamports a then b.setLamports (b.getLamports a - lamports)
  else throw .ArithmeticOverflow

def canDataBeChanged : Except InstructionError Unit :=
  -- and only if the account is writable
  if !b.isWritable then .error .ReadonlyDataModified
  -- and only if we are the owner
  else if !b.isOwnedByCurrentProgram a then .error .ExternalAccountDataModified
  else .ok ()

def canDataBeResized (a : TransactionAccounts) (newLen : Nat) : Except InstructionError Unit :=
  let oldLen := (b.getData a).length
  -- Only the owner can change the length of the data
  if newLen ≠ oldLen ∧ !b.isOwnedByCurrentProgram a then .error .AccountDataSizeChanged
  else do
    a.canDataBeResized oldLen newLen
    b.canDataBeChanged a

def updateAccountsResizeDelta (newLen : Nat) : AccountsM Unit := do
  let a ← get
  TransactionAccounts.updateAccountsResizeDelta (b.getData a).length newLen

/-- A shared account is copied into a buffer with room for the growth of one
instruction. -/
def makeDataMut : AccountsM Unit := do
  let a ← get
  if b.isShared a then b.modifyAccount (·.reserve MAX_ACCOUNT_DATA_GROWTH_PER_INSTRUCTION)

/-- `get_data_mut`, up to the slice it returns. -/
def getDataMut : AccountsM Unit := do
  let a ← get
  MonadExcept.ofExcept (b.canDataBeChanged a)
  b.touch
  b.makeDataMut
  b.modifyAccount (·.dataAsMutSlice)

/-- Writes through the slice of `get_data_mut`. -/
def writeSlice (writes : List (Nat × UInt8)) : AccountsM Unit := b.modifyAccount (·.writeSlice writes)

def setDataFromSlice (data : List UInt8) : AccountsM Unit := do
  let a ← get
  MonadExcept.ofExcept (b.canDataBeResized a data.length)
  b.touch
  b.updateAccountsResizeDelta data.length
  b.modifyAccount (·.setDataFromSlice data)

def setDataLength (newLength : Nat) : AccountsM Unit := do
  let a ← get
  MonadExcept.ofExcept (b.canDataBeResized a newLength)
  -- don't touch the account if the length does not change
  if (b.getData a).length = newLength then return ()
  else do
    b.touch
    b.updateAccountsResizeDelta newLength
    b.modifyAccount (·.resize newLength 0)

def extendFromSlice (data : List UInt8) : AccountsM Unit := do
  let a ← get
  let newLen := satAdd 64 (b.getData a).length data.length
  MonadExcept.ofExcept (b.canDataBeResized a newLen)
  if data.isEmpty then return ()
  else do
    b.touch
    b.updateAccountsResizeDelta newLen
    b.makeDataMut
    b.modifyAccount (·.extendFromSlice data)

def setState (state : SerializableState) : AccountsM Unit := do
  b.getDataMut
  match state.serializedSize with
  | none => throw .GenericError
  | some serializedSize =>
    let data := b.getData (← get)
    if serializedSize > data.length then throw .AccountDataTooSmall
    else do
      let (writes, ok) := state.serializeInto data
      b.writeSlice writes
      if !ok then throw .GenericError

def setExecutable (isExecutable : Bool) : AccountsM Unit := do
  let a ← get
  -- To become executable an account must be rent exempt
  if !b.rent.isExempt (b.getLamports a) (b.getData a).length then throw .ExecutableAccountNotRentExempt
  -- Only the owner can set the executable flag
  else if !b.isOwnedByCurrentProgram a then throw .ExecutableModified
  -- and only if the account is writable
  else if !b.isWritable then throw .ExecutableModified
  -- don't touch the account if the executable flag does not change
  else if b.isExecutable a = isExecutable then return ()
  else do
    b.touch
    b.modifyAccount (·.setExecutable isExecutable)

end BorrowedInstructionAccount

/-- The operations of a borrowed account that can write. Getting the data slice and
writing through it is one operation: the slice keeps the account borrowed. -/
inductive AccountOp where
  | setOwner (pubkey : Pubkey)
  | setLamports (lamports : UInt64)
  | checkedAddLamports (lamports : UInt64)
  | checkedSubLamports (lamports : UInt64)
  | getDataMut (writes : List (Nat × UInt8))
  | setDataFromSlice (data : List UInt8)
  | setDataLength (newLength : Nat)
  | extendFromSlice (data : List UInt8)
  | setState (state : SerializableState)
  | setExecutable (isExecutable : Bool)

/-- Performs an operation on a borrowed account. -/
def AccountOp.run (b : BorrowedInstructionAccount) : AccountOp → AccountsM Unit
  | .setOwner pubkey => b.setOwner pubkey
  | .setLamports lamports => b.setLamports lamports
  | .checkedAddLamports lamports => b.checkedAddLamports lamports
  | .checkedSubLamports lamports => b.checkedSubLamports lamports
  | .getDataMut writes => do
    b.getDataMut
    b.writeSlice writes
  | .setDataFromSlice data => b.setDataFromSlice data
  | .setDataLength newLength => b.setDataLength newLength
  | .extendFromSlice data => b.extendFromSlice data
  | .setState state => b.setState state
  | .setExecutable isExecutable => b.setExecutable isExecutable

end Svm
