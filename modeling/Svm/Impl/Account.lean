import Svm.Framework.Machine
import Mathlib.Data.List.Basic

/-!
# Accounts of a transaction

`transaction_accounts.rs`: the accounts a transaction has loaded, with their
borrow counters, touched flags and the two running deltas. The source keeps
the shared fields, the private fields, the borrow counters and the touched
flags in four boxed slices of one length; here they are one list of
`AccountSlot`s, so that the four cannot differ in length.
-/

namespace Svm

open Machine

/-- A public key: 32 bytes. -/
abbrev Pubkey := Vector UInt8 32

instance : LawfulBEq Pubkey := inferInstance

abbrev Slot := Nat

/-- The errors of `solana_instruction` the modelled code returns. -/
inductive InstructionError where
  | GenericError
  | InvalidArgument
  | InvalidInstructionData
  | InvalidAccountData
  | AccountDataTooSmall
  | InsufficientFunds
  | IncorrectProgramId
  | MissingRequiredSignature
  | AccountAlreadyInitialized
  | UnbalancedInstruction
  | ModifiedProgramId
  | ExternalAccountLamportSpend
  | ExternalAccountDataModified
  | ReadonlyLamportChange
  | ReadonlyDataModified
  | ExecutableModified
  | AccountBorrowFailed
  | AccountBorrowOutstanding
  | UnsupportedProgramId
  | CallDepth
  | MissingAccount
  | ReentrancyNotAllowed
  | ExecutableAccountNotRentExempt
  | AccountDataSizeChanged
  | InvalidRealloc
  | PrivilegeEscalation
  | InvalidAccountOwner
  | ArithmeticOverflow
  | Immutable
  | IncorrectAuthority
  | MaxAccountsDataAllocationsExceeded
  | MaxAccountsExceeded
  | MaxInstructionTraceLengthExceeded
  | ComputationalBudgetExceeded
  | ProgramFailedToComplete
  | BuiltinProgramsMustConsumeComputeUnits
  | Custom (code : UInt64)
  deriving DecidableEq, Repr

def MAX_ACCOUNTS_PER_TRANSACTION : Nat := 256
def MAX_ACCOUNTS_PER_INSTRUCTION : Nat := 255
def MAX_ACCOUNT_DATA_LEN : Nat := 10 * 1024 * 1024
def MAX_ACCOUNT_DATA_GROWTH_PER_TRANSACTION : Int := (MAX_ACCOUNT_DATA_LEN : Int) * 2
def MAX_ACCOUNT_DATA_GROWTH_PER_INSTRUCTION : Nat := 10 * 1024

def GUEST_REGION_SIZE : Nat := 2 ^ 32
def RETURN_DATA_SCRATCHPAD : Nat := 7 * GUEST_REGION_SIZE
def GUEST_ACCOUNT_PAYLOAD_BASE_ADDRESS : Nat := 8 * GUEST_REGION_SIZE
def GUEST_INSTRUCTION_DATA_BASE_ADDRESS : Nat := 264 * GUEST_REGION_SIZE
def GUEST_INSTRUCTION_ACCOUNT_BASE_ADDRESS : Nat := 328 * GUEST_REGION_SIZE

/-- A slice in the guest's address space: `vm_slice.rs`. -/
structure VmSlice where
  ptr : Nat
  len : Nat
  deriving DecidableEq, Repr

/-- An `Arc<Vec<u8>>`: the bytes, whether another owner holds them too, and which
of the account's buffers they are in. A write that may allocate counts as a new
buffer, so that a host address taken before it is told from one taken after. -/
structure Payload where
  bytes : List UInt8
  shared : Bool
  generation : Nat
  deriving DecidableEq, Repr

structure AccountSharedFields where
  key : Pubkey
  owner : Pubkey
  lamports : UInt64
  payload : VmSlice
  deriving DecidableEq, Repr

structure AccountPrivateFields where
  rentEpoch : UInt64
  executable : Bool
  payload : Payload
  deriving DecidableEq, Repr

/-- An account as the accounts database loads it. -/
structure AccountSharedData where
  lamports : UInt64
  data : Payload
  owner : Pubkey
  executable : Bool
  rentEpoch : UInt64
  deriving DecidableEq, Repr

/-- Both halves of an account: `TransactionAccountView` and, where a borrow is
exclusive, `TransactionAccountViewMut`. -/
structure TransactionAccountView where
  abiAccount : AccountSharedFields
  privateFields : AccountPrivateFields
  deriving DecidableEq, Repr

namespace TransactionAccountView

variable (v : TransactionAccountView)

def key (v : TransactionAccountView) : Pubkey := v.abiAccount.key
def lamports (v : TransactionAccountView) : UInt64 := v.abiAccount.lamports
def data : List UInt8 := v.privateFields.payload.bytes
def owner (v : TransactionAccountView) : Pubkey := v.abiAccount.owner
def executable (v : TransactionAccountView) : Bool := v.privateFields.executable
def rentEpoch (v : TransactionAccountView) : UInt64 := v.privateFields.rentEpoch
def isShared : Bool := v.privateFields.payload.shared

/-- The length published to programs, in the fields shared with them. -/
def publishedLen : Nat := v.abiAccount.payload.len

/-- `self.abi_account.payload.set_len(len)`. -/
def setLen (len : Nat) : TransactionAccountView :=
  { v with abiAccount := { v.abiAccount with payload := { v.abiAccount.payload with len := len } } }

def setLamports (lamports : UInt64) : TransactionAccountView :=
  { v with abiAccount := { v.abiAccount with lamports := lamports } }

/-- `copy_into_owner_from_slice`, of a slice of 32 bytes. -/
def setOwner (owner : Pubkey) : TransactionAccountView :=
  { v with abiAccount := { v.abiAccount with owner := owner } }

def setExecutable (executable : Bool) : TransactionAccountView :=
  { v with privateFields := { v.privateFields with executable := executable } }

/-- The bytes become `bytes`, in a buffer that is the account's alone and may be a
new one: what a `Vec` operation behind `Arc::make_mut`, or a new `Arc`, leaves. -/
def setPayload (bytes : List UInt8) : TransactionAccountView :=
  { v with privateFields := { v.privateFields with
      payload := { bytes := bytes, shared := false, generation := v.privateFields.payload.generation + 1 } } }

/-- `Vec::resize(new_len, value)`, then the published length. -/
def resize (newLen : Nat) (value : UInt8) : TransactionAccountView :=
  (v.setPayload (v.data.take newLen ++ List.replicate (newLen - v.data.length) value)).setLen newLen

def setDataFromSlice (newData : List UInt8) : TransactionAccountView :=
  (v.setPayload newData).setLen newData.length

def extendFromSlice (data : List UInt8) : TransactionAccountView :=
  (v.setPayload (v.data ++ data)).setLen (v.data ++ data).length

/-- `reserve`: a shared buffer is copied into one of the account's own; the bytes
stay, and only the capacity depends on `additional`. -/
def reserve (_additional : Nat) : TransactionAccountView := v.setPayload v.data

/-- `data_as_mut_slice`: `Arc::make_mut` copies a shared buffer. -/
def dataAsMutSlice : TransactionAccountView :=
  if v.isShared then v.setPayload v.data else v

/-- Writes through the slice `data_as_mut_slice` returned: each a position and a
byte, none past the end. -/
def writeSlice (writes : List (Nat × UInt8)) : TransactionAccountView :=
  { v with privateFields := { v.privateFields with payload := { v.privateFields.payload with
      bytes := writes.foldl (fun bytes (i, b) => bytes.set i b) v.data } } }

end TransactionAccountView

/-- One account of the transaction, with its borrow counter (an `i8`) and its
touched flag. -/
structure AccountSlot where
  view : TransactionAccountView
  borrowCounter : Int
  touched : Bool
  deriving DecidableEq, Repr

structure TransactionAccounts where
  slots : List AccountSlot
  resizeDelta : Int
  lamportsDelta : Int
  deriving DecidableEq, Repr

instance : Inhabited TransactionAccountView where
  default :=
    { abiAccount := { key := default, owner := default, lamports := 0, payload := ⟨0, 0⟩ }
      privateFields := { rentEpoch := 0, executable := false, payload := ⟨[], false, 0⟩ } }

instance : Inhabited AccountSlot where
  default := { view := default, borrowCounter := 0, touched := false }

/-- Code that reads and writes the accounts and may fail. What it wrote stays
when it fails: the source's cells are shared. -/
abbrev AccountsM := EStateM InstructionError TransactionAccounts

namespace BorrowCounter

variable (counter : Int)

def isWriting : Bool := decide (counter < 0)
def isReading : Bool := decide (0 < counter)

def tryBorrow : Except InstructionError Int :=
  if isWriting counter then .error .AccountBorrowFailed
  else match iCheckedAdd 8 counter 1 with
    | some counter => .ok counter
    | none => .error .AccountBorrowFailed

def tryBorrowMut : Except InstructionError Int :=
  if isWriting counter || isReading counter then .error .AccountBorrowFailed
  else .ok (iSatSub 8 counter 1)

def releaseBorrow : Int := iSatSub 8 counter 1
def releaseBorrowMut : Int := iSatAdd 8 counter 1

end BorrowCounter

namespace TransactionAccounts

/-- The slot of the account loaded at an index. -/
def newSlot (item : Pubkey × AccountSharedData) (idx : Nat) : AccountSlot :=
  { view :=
      { abiAccount :=
          { key := item.1
            owner := item.2.owner
            lamports := item.2.lamports
            payload :=
              { ptr := satAdd 64 GUEST_ACCOUNT_PAYLOAD_BASE_ADDRESS (satMul 64 GUEST_REGION_SIZE idx)
                len := item.2.data.bytes.length } }
        privateFields :=
          { rentEpoch := item.2.rentEpoch
            executable := item.2.executable
            payload := item.2.data } }
    borrowCounter := 0
    touched := false }

/-- `TransactionAccounts::new`. -/
def new (accounts : List (Pubkey × AccountSharedData)) : TransactionAccounts :=
  { slots := accounts.zipIdx.map fun (item, idx) => newSlot item idx
    resizeDelta := 0
    lamportsDelta := 0 }

variable (a : TransactionAccounts)

def len : Nat := a.slots.length

variable (index : UInt16)

/-- The slot of an account. No code reads one out of range: a borrow is of an
account in range. -/
def slot : AccountSlot := a.slots.getD index.toNat default

/-- An account, shared and private fields together. -/
def view (a : TransactionAccounts) (index : UInt16) : TransactionAccountView := (a.slot index).view

def modifySlot (f : AccountSlot → AccountSlot) :
    TransactionAccounts :=
  { a with slots := a.slots.modify index.toNat f }

def modifyView
    (f : TransactionAccountView → TransactionAccountView) : TransactionAccounts :=
  a.modifySlot index fun s => { s with view := f s.view }

def accountKey : Option Pubkey :=
  a.slots[index.toNat]?.map (·.view.key)

def accountKeys : List Pubkey := a.slots.map (·.view.key)

def touch : AccountsM Unit := do
  let a ← get
  if index.toNat < a.len then
    set (a.modifySlot index fun s => { s with touched := true })
  else
    throw .MissingAccount

/-- The accounts after `update_accounts_resize_delta`, which never fails. -/
def addResizeDelta (oldLen newLen : Nat) : TransactionAccounts :=
  { a with resizeDelta := iSatAdd 64 a.resizeDelta (iSatSub 64 (asSigned 64 newLen) (asSigned 64 oldLen)) }

def updateAccountsResizeDelta (oldLen newLen : Nat) : AccountsM Unit :=
  modify fun a => a.addResizeDelta oldLen newLen

def canDataBeResized (oldLen newLen : Nat) : Except InstructionError Unit :=
  -- The new length can not exceed the maximum permitted length
  if newLen > MAX_ACCOUNT_DATA_LEN then .error .InvalidRealloc
  else
    -- The resize can not exceed the per-transaction maximum
    let lengthDelta := iSatSub 64 (asSigned 64 newLen) (asSigned 64 oldLen)
    if iSatAdd 64 a.resizeDelta lengthDelta > MAX_ACCOUNT_DATA_GROWTH_PER_TRANSACTION then
      .error .MaxAccountsDataAllocationsExceeded
    else .ok ()

/-- `try_borrow_mut`: the account's counter is taken; what the caller then reads
and writes is the account at `index`, until `releaseBorrowMut`. -/
def tryBorrowMut (index : UInt16) : AccountsM Unit := do
  let a ← get
  if index.toNat < a.len then
    let counter ← MonadExcept.ofExcept (BorrowCounter.tryBorrowMut (a.slot index).borrowCounter)
    set (a.modifySlot index fun s => { s with borrowCounter := counter })
  else
    throw .MissingAccount

/-- `Drop for AccountRefMut`: the published length is the payload's, and the
counter is released. -/
def releaseBorrowMut (a : TransactionAccounts) (index : UInt16) : TransactionAccounts :=
  a.modifySlot index fun s =>
    { s with view := s.view.setLen s.view.data.length
             borrowCounter := BorrowCounter.releaseBorrowMut s.borrowCounter }

/-- `try_borrow`: a counted borrow that only reads, until `releaseBorrow`. -/
def tryBorrow (index : UInt16) : AccountsM Unit := do
  let a ← get
  if index.toNat < a.len then
    let counter ← MonadExcept.ofExcept (BorrowCounter.tryBorrow (a.slot index).borrowCounter)
    set (a.modifySlot index fun s => { s with borrowCounter := counter })
  else
    throw .MissingAccount

/-- `Drop for AccountRef`. -/
def releaseBorrow (a : TransactionAccounts) (index : UInt16) : TransactionAccounts :=
  a.modifySlot index fun s => { s with borrowCounter := BorrowCounter.releaseBorrow s.borrowCounter }

def addLamportsDelta (balance : Int) : AccountsM Unit := do
  let a ← get
  match iCheckedAdd 128 a.lamportsDelta balance with
  | some delta => set { a with lamportsDelta := delta }
  | none => throw .ArithmeticOverflow

end TransactionAccounts

end Svm
