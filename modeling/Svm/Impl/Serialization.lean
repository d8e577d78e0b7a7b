import Svm.Framework.Bytes
import Svm.Impl.InvokeContext
import Mathlib.Data.List.ModifyLast

/-!
# Serialization of the program input

`serialization.rs`: the accounts of an instruction are written into one buffer,
with the memory regions through which the program sees it, and read back when
the program has returned. Loader v1 has an unaligned layout (ABIv0), later
loaders an aligned one (ABIv1). With address space adjustments the data of each
account has a region of its own; with direct mapping it is not in the buffer at
all. Only the growth of the buffer that is checked can fail: the other writes
rely on the size that was computed before.
-/

namespace Svm

open Machine Run Bytes Sbpf

def MAX_PERMITTED_DATA_INCREASE : Nat := 10 * 1024
def MAX_PERMITTED_DATA_LENGTH : Nat := 10 * 1024 * 1024
def BPF_ALIGN_OF_U128 : Nat := 8
def NON_DUP_MARKER : UInt8 := 255

/-- `(n as *const u8).align_offset(BPF_ALIGN_OF_U128)`. -/
def alignOffset (n : Nat) : Nat := (BPF_ALIGN_OF_U128 - n % BPF_ALIGN_OF_U128) % BPF_ALIGN_OF_U128

/-- What serialization takes from other crates. -/
structure SerializeExternals extends Externals where
  bpfLoaderDeprecatedId : Pubkey

variable (ic : InstructionContext)

/-- `get_program_key`, over the accounts. -/
def InstructionContext.getProgramKey (a : TransactionAccounts) :
    Except InstructionError Pubkey := do
  match a.accountKey (← ic.getIndexOfProgramAccountInTransaction) with
  | some key => return key
  | none => throw .MissingAccount

/-- `get_program_owner`: the program account is borrowed and given back. -/
def InstructionContext.getProgramOwner : AccountsM Pubkey := do
  let index ← MonadExcept.ofExcept ic.getIndexOfProgramAccountInTransaction
  TransactionAccounts.tryBorrow index
  let a ← get
  set (a.releaseBorrow index)
  return (a.view index).owner

/-! ## Regions of accounts -/

variable (b : BorrowedInstructionAccount)

/-- `modify_memory_region_of_account`. -/
def modifyMemoryRegionOfAccount (a : TransactionAccounts)
    (region : MemoryRegion) : MemoryRegion :=
  let region := { region with len := .ofNat (b.getData a).length }
  match b.canDataBeChanged a with
  | .ok () =>
    { region with writable := true, accessViolationHandlerPayload := some b.getIndexInTransaction }
  | .error _ => { region with writable := false, accessViolationHandlerPayload := none }

variable (ext : Externals)

/-- A region over the payload of an account. -/
def payloadRegion (b : BorrowedInstructionAccount) (a : TransactionAccounts) (writable : Bool)
    (vaddr : UInt64) : MemoryRegion :=
  .new (ext.payloadAddr b.getIndexInTransaction (b.account a).privateFields.payload)
    (.ofNat (b.getData a).length) writable vaddr

/-- `create_memory_region_of_account`. -/
def createMemoryRegionOfAccount (b : BorrowedInstructionAccount) (vaddr : UInt64) :
    AccountsM MemoryRegion := do
  let a ← get
  match b.canDataBeChanged a with
  | .error _ => return payloadRegion ext b a false vaddr
  | .ok () =>
    let handled := fun region : MemoryRegion =>
      { region with accessViolationHandlerPayload := some b.getIndexInTransaction }
    if b.isShared a then return handled (payloadRegion ext b a false vaddr)
    else do
      b.getDataMut
      return handled (payloadRegion ext b (← get) true vaddr)

/-! ## The serializer -/

/-- Which features shape the program input. -/
structure InputFeatures where
  virtualAddressSpaceAdjustments : Bool
  accountDataDirectMapping : Bool
  directAccountPointersInProgramInput : Bool
  deriving DecidableEq, Repr

/-- The account data is not in the buffer. -/
def InputFeatures.dataOutside (f : InputFeatures) : Bool :=
  f.virtualAddressSpaceAdjustments && f.accountDataDirectMapping

structure Serializer where
  buffer : List UInt8
  capacity : Nat
  /-- The host address of the buffer. -/
  bufferAddr : UInt64
  regions : List MemoryRegion
  vaddr : UInt64
  regionStart : Nat
  isLoaderV1 : Bool
  features : InputFeatures
  deriving DecidableEq, Repr

/-- The serializer at work on the accounts it has borrowed. -/
structure Serializing where
  accounts : TransactionAccounts
  serializer : Serializer

abbrev SerializeM := EStateM Fault Serializing

/-- Code on the accounts, run by the serializer. -/
def onBorrowed {α : Type} (x : AccountsM α) : SerializeM α :=
  mapError .error (zoom Serializing.accounts (fun st a => { st with accounts := a }) x)

namespace Serializer

def new (size : Nat) (bufferAddr startAddr : UInt64) (isLoaderV1 : Bool) (features : InputFeatures) : Serializer :=
  { buffer := []
    capacity := size
    bufferAddr := bufferAddr
    regions := []
    vaddr := startAddr
    regionStart := 0
    isLoaderV1 := isLoaderV1
    features := features }

variable (s : Serializer)

/-- The guest address of the next byte. -/
def nextVaddr : UInt64 :=
  U64.satSub (U64.satAdd s.vaddr (.ofNat s.buffer.length)) (.ofNat s.regionStart)

/-- The buffer with bytes appended. -/
def append (bytes : List UInt8) : Serializer := { s with buffer := s.buffer ++ bytes }

/-- The region from `region_start` to the end of the buffer. -/
def openRegion : MemoryRegion :=
  .new (s.bufferAddr + .ofNat s.regionStart) (.ofNat (s.buffer.length - s.regionStart)) true s.vaddr

/-- The serializer with the open region closed. -/
def closeRegion : Serializer :=
  { s with
    regions := s.regions ++ [s.openRegion]
    regionStart := s.buffer.length
    vaddr := s.vaddr + .ofNat (s.buffer.length - s.regionStart) }

end Serializer

/-- Changes the serializer. -/
def modifySerializer (f : Serializer → Serializer) : SerializeM Unit :=
  modify fun st => { st with serializer := f st.serializer }

/-- `fill_write`, whose failure is an invalid argument at every call. -/
def fillWrite (num : Nat) (value : UInt8) : SerializeM Unit := do
  let s := (← get).serializer
  if s.buffer.length + num ≤ s.capacity then modifySerializer (·.append (.replicate num value))
  else throw (.error .InvalidArgument)

/-- `write_all`, and `write` of the bytes of a value. -/
def writeAll (value : List UInt8) : SerializeM UInt64 := do
  let s := (← get).serializer
  modifySerializer (·.append value)
  return s.nextVaddr

def writeU8 (value : UInt8) : SerializeM UInt64 := writeAll [value]
def writeU64 (value : UInt64) : SerializeM UInt64 := writeAll (toLe 8 value.toNat)

/-- `b as u8`. -/
def boolByte (b : Bool) : UInt8 := if b then 1 else 0

/-- `push_region`: the slice it unwraps exists if the region starts in the buffer. -/
def pushRegion : SerializeM Unit := do
  let s := (← get).serializer
  if s.regionStart ≤ s.buffer.length then modifySerializer (·.closeRegion)
  else throw .panic

/-- The address space of an account: its data, and its growth unless the loader is v1. -/
def addressSpaceReserved (isLoaderV1 : Bool) (dataLen : Nat) : Nat :=
  if isLoaderV1 then dataLen else satAdd 64 dataLen MAX_PERMITTED_DATA_INCREASE

/-- The region of an account whose data is in the buffer. -/
def pushAccountRegion : SerializeM Unit := do
  pushRegion
  let a := (← get).accounts
  modifySerializer fun s =>
    { s with regions := s.regions.modifyLast (modifyMemoryRegionOfAccount b a) }

/-- The region of an account whose data is mapped directly. -/
def pushPayloadRegion (b : BorrowedInstructionAccount) (reserved : Nat) : SerializeM Unit := do
  let s := (← get).serializer
  let region ← onBorrowed (createMemoryRegionOfAccount ext b s.vaddr)
  modifySerializer fun s => { s with regions := s.regions ++ [region], vaddr := s.vaddr + .ofNat reserved }

/-- Zeros that loader v1 does not have. -/
def writePadding (num : Nat) : SerializeM Unit := do
  if (← get).serializer.isLoaderV1 then pure () else fillWrite num 0

/-- The data with its growth, unless it is mapped directly. -/
def writeMappedData : SerializeM Unit := do
  let st ← get
  if st.serializer.features.accountDataDirectMapping then pure ()
  else do
    let _ ← writeAll (b.getData st.accounts)
    writePadding MAX_PERMITTED_DATA_INCREASE

/-- The region of the account, unless it has no address space at all. -/
def pushReservedRegion (b : BorrowedInstructionAccount) (reserved : Nat) : SerializeM Unit := do
  let st ← get
  if reserved = 0 then pure ()
  else if st.serializer.features.accountDataDirectMapping then pushPayloadRegion ext b reserved
  else pushAccountRegion b

/-- The padding behind a mapped account. Where the data is not in the buffer, a whole
word is written and the next region starts inside it, so that its host address is
aligned as its guest address will be. -/
def writeMappedPadding : SerializeM Unit := do
  let st ← get
  let offset := alignOffset (b.getData st.accounts).length
  if st.serializer.isLoaderV1 then pure ()
  else if st.serializer.features.accountDataDirectMapping then do
    fillWrite BPF_ALIGN_OF_U128 0
    modifySerializer fun s => { s with regionStart := s.regionStart + (BPF_ALIGN_OF_U128 - offset) }
  else fillWrite offset 0

/-- `write_account`: returns the guest address of the data. -/
def writeAccount (b : BorrowedInstructionAccount) : SerializeM UInt64 := do
  let st ← get
  if st.serializer.features.virtualAddressSpaceAdjustments then do
    pushRegion
    let vmDataAddr := (← get).serializer.vaddr
    writeMappedData b
    pushReservedRegion ext b (addressSpaceReserved st.serializer.isLoaderV1 (b.getData st.accounts).length)
    writeMappedPadding b
    return vmDataAddr
  else do
    let vmDataAddr := U64.satAdd st.serializer.vaddr (.ofNat st.serializer.buffer.length)
    let data := b.getData st.accounts
    let _ ← writeAll data
    writePadding (MAX_PERMITTED_DATA_INCREASE + alignOffset data.length)
    return vmDataAddr

/-! ## The two layouts -/

inductive SerializeAccount where
  | Account (index : UInt16) (account : BorrowedInstructionAccount)
  | Duplicate (position : UInt16)

/-- What serialization returns. -/
structure SerializedParameters where
  mem : List UInt8
  regions : List MemoryRegion
  accountsMetadata : List SerializedAccountMetadata
  instructionDataOffset : Nat
  deriving DecidableEq, Repr

/-- The bytes an account adds to the size of the buffer. -/
def SerializeAccount.size (isLoaderV1 dataOutside : Bool) (a : TransactionAccounts) : SerializeAccount → Nat
  | .Duplicate _ => if isLoaderV1 then 1 else 1 + 7
  | .Account _ b =>
    let dataLen := (b.getData a).length
    if isLoaderV1 then 1 + (1 + 1 + 32 + 8 + 8 + 32 + 1 + 8) + (if dataOutside then 0 else dataLen)
    else 1 + (1 + 1 + 1 + 4 + 32 + 32 + 8 + 8 + 8) +
      (if dataOutside then BPF_ALIGN_OF_U128
       else dataLen + MAX_PERMITTED_DATA_INCREASE + alignOffset dataLen)

/-- The size of the buffer without the pointers to the accounts. -/
def serializedSize (isLoaderV1 dataOutside : Bool) (a : TransactionAccounts) (accounts : List SerializeAccount)
    (instructionData : List UInt8) : Nat :=
  8 + (accounts.map (SerializeAccount.size isLoaderV1 dataOutside a)).sum + (8 + instructionData.length + 32)

variable (accountsMetadata : List SerializedAccountMetadata)

/-- The metadata of the account at a position, which is unwrapped. -/
def duplicateMetadata (position : UInt16) :
    SerializeM SerializedAccountMetadata :=
  match accountsMetadata[position.toNat]? with
  | some metadata => pure metadata
  | none => throw .panic

/-- One account in the layout of ABIv0. -/
def serializeAccountForAbiv0 :
    SerializeAccount → SerializeM SerializedAccountMetadata
  | .Duplicate position => do
    let metadata ← duplicateMetadata accountsMetadata position
    let _ ← writeU8 (.ofNat position.toNat)
    return metadata
  | .Account _ b => do
    let a := (← get).accounts
    let _ ← writeU8 NON_DUP_MARKER
    let _ ← writeU8 (boolByte b.isSigner)
    let _ ← writeU8 (boolByte b.isWritable)
    let vmKeyAddr ← writeAll (b.getKey a).toList
    let vmLamportsAddr ← writeU64 (b.getLamports a)
    let _ ← writeU64 (.ofNat (b.getData a).length)
    let vmDataAddr ← writeAccount ext b
    let a := (← get).accounts
    let vmOwnerAddr ← writeAll (b.getOwner a).toList
    let _ ← writeU8 (boolByte (b.isExecutable a))
    let _ ← writeU64 U64.max
    return { originalDataLen := (b.getData a).length, vmDataAddr, vmKeyAddr, vmLamportsAddr, vmOwnerAddr }

/-- One account in the layout of ABIv1. -/
def serializeAccountForAbiv1 :
    SerializeAccount → SerializeM SerializedAccountMetadata
  | .Account _ b => do
    let a := (← get).accounts
    let _ ← writeU8 NON_DUP_MARKER
    let _ ← writeU8 (boolByte b.isSigner)
    let _ ← writeU8 (boolByte b.isWritable)
    let _ ← writeU8 (boolByte (b.isExecutable a))
    let _ ← writeAll [0, 0, 0, 0]
    let vmKeyAddr ← writeAll (b.getKey a).toList
    let vmOwnerAddr ← writeAll (b.getOwner a).toList
    let vmLamportsAddr ← writeU64 (b.getLamports a)
    let _ ← writeU64 (.ofNat (b.getData a).length)
    let vmDataAddr ← writeAccount ext b
    let _ ← writeU64 U64.max
    let a := (← get).accounts
    return { originalDataLen := (b.getData a).length, vmDataAddr, vmKeyAddr, vmLamportsAddr, vmOwnerAddr }
  | .Duplicate position => do
    let metadata ← duplicateMetadata accountsMetadata position
    let _ ← writeU8 (.ofNat position.toNat)
    let _ ← writeAll [0, 0, 0, 0, 0, 0, 0]
    return metadata

/-- The loop over the accounts, with the metadata so far. -/
def serializeAccounts
    (serializeAccount : List SerializedAccountMetadata → SerializeAccount → SerializeM SerializedAccountMetadata) :
    List SerializedAccountMetadata → List SerializeAccount → SerializeM (List SerializedAccountMetadata)
  | accountsMetadata, [] => pure accountsMetadata
  | accountsMetadata, account :: accounts => do
    let metadata ← serializeAccount accountsMetadata account
    serializeAccounts serializeAccount (accountsMetadata ++ [metadata]) accounts

/-- The instruction data and the program id: returns the address of the data. -/
def writeInstruction (instructionData : List UInt8) (programId : Pubkey) : SerializeM UInt64 := do
  let _ ← writeU64 (.ofNat instructionData.length)
  let instructionDataOffset ← writeAll instructionData
  let _ ← writeAll programId.toList
  return instructionDataOffset

/-- `finish`, with the rest of what is returned. -/
def finish (instructionDataOffset : UInt64) :
    SerializeM SerializedParameters := do
  pushRegion
  let s := (← get).serializer
  return { mem := s.buffer
           regions := s.regions
           accountsMetadata := accountsMetadata
           instructionDataOffset := instructionDataOffset.toNat }

def serializeParametersForAbiv0 (accounts : List SerializeAccount) (instructionData : List UInt8)
    (programId : Pubkey) : SerializeM SerializedParameters := do
  let _ ← writeU64 (.ofNat accounts.length)
  let accountsMetadata ← serializeAccounts (serializeAccountForAbiv0 ext) [] accounts
  let instructionDataOffset ← writeInstruction instructionData programId
  finish accountsMetadata instructionDataOffset

/-- The guest addresses of the data of all accounts. -/
def writePointers : List SerializedAccountMetadata → SerializeM Unit
  | [] => pure ()
  | entry :: entries => do
    let _ ← writeU64 entry.vmDataAddr
    writePointers entries

/-- The array of pointers, behind a padding, if the program input has it. -/
def writePointerArray (accountPointersOffset : Option Nat) (accountsMetadata : List SerializedAccountMetadata) :
    SerializeM Unit :=
  match accountPointersOffset with
  | none => pure ()
  | some offset => do
    fillWrite offset 0
    writePointers accountsMetadata

def serializeParametersForAbiv1 (accounts : List SerializeAccount) (instructionData : List UInt8)
    (programId : Pubkey) (accountPointersOffset : Option Nat) : SerializeM SerializedParameters := do
  let _ ← writeU64 (.ofNat accounts.length)
  let accountsMetadata ← serializeAccounts (serializeAccountForAbiv1 ext) [] accounts
  let instructionDataOffset ← writeInstruction instructionData programId
  writePointerArray accountPointersOffset accountsMetadata
  finish accountsMetadata instructionDataOffset

/-! ## Serialization -/

/-- Code on the accounts that may also panic. -/
abbrev FaultyM := EStateM Fault TransactionAccounts

/-- The account at an index of the instruction, which is unwrapped: borrowed, or a
duplicate. -/
def collectAccount (rent : Rent) (index : UInt16) : FaultyM SerializeAccount :=
  match ic.isInstructionAccountDuplicate index with
  | .error _ => throw .panic
  | .ok (some position) => pure (.Duplicate position)
  | .ok none => do
    let b ← mapError (fun _ => .panic) (ic.tryBorrowInstructionAccount rent index)
    return .Account index b

def collectAccounts (ic : InstructionContext) (rent : Rent) : List UInt16 → FaultyM (List SerializeAccount)
  | [] => pure []
  | index :: indices => do
    let account ← collectAccount ic rent index
    let accounts ← collectAccounts ic rent indices
    return account :: accounts

/-- The indices `0..get_number_of_instruction_accounts()`. -/
def InstructionContext.indices : List UInt16 :=
  (List.range ic.getNumberOfInstructionAccounts.toNat).map .ofNat

/-- The accounts when the borrowed ones have been dropped. -/
def dropAccounts (a : TransactionAccounts) : List SerializeAccount → TransactionAccounts
  | [] => a
  | .Account _ b :: accounts => dropAccounts (a.releaseBorrowMut b.getIndexInTransaction) accounts
  | .Duplicate _ :: accounts => dropAccounts a accounts

variable (features : InputFeatures)

/-- The layout of the loader, over the borrowed accounts. -/
def serializeBorrowed (isLoaderDeprecated : Bool)
    (bufferAddr : UInt64) (accounts : List SerializeAccount) (instructionData : List UInt8) (programId : Pubkey) :
    FaultyM SerializedParameters := fun a =>
  let size := serializedSize isLoaderDeprecated features.dataOutside a accounts instructionData
  -- space for the pointers, which only ABIv1 has
  let accountPointersOffset :=
    if features.directAccountPointersInProgramInput then some (alignOffset size) else none
  let layout :=
    if isLoaderDeprecated then
      (serializeParametersForAbiv0 ext accounts instructionData programId).run
        ⟨a, .new size bufferAddr MM_INPUT_START true features⟩
    else
      let size := match accountPointersOffset with
        | some offset => size + (offset + accounts.length * 8)
        | none => size
      (serializeParametersForAbiv1 ext accounts instructionData programId accountPointersOffset).run
        ⟨a, .new size bufferAddr MM_INPUT_START false features⟩
  -- every borrowed account is dropped, also when the layout fails
  match layout with
  | .ok parameters st => .ok parameters (dropAccounts st.accounts accounts)
  | .error fault st => .error fault (dropAccounts st.accounts accounts)

/-- `serialize_parameters`, into a buffer at `bufferAddr`. -/
def serializeParameters (ext : SerializeExternals) (ic : InstructionContext) (rent : Rent)
    (features : InputFeatures) (bufferAddr : UInt64) : FaultyM SerializedParameters := do
  if ic.getNumberOfInstructionAccounts > .ofNat MAX_ACCOUNTS_PER_INSTRUCTION then
    throw (.error .MaxAccountsExceeded)
  else do
    let programId ← mapError .error (do MonadExcept.ofExcept (ic.getProgramKey (← get)))
    let owner ← mapError .error ic.getProgramOwner
    let accounts ← collectAccounts ic rent ic.indices
    serializeBorrowed ext.toExternals features (owner = ext.bpfLoaderDeprecatedId) bufferAddr accounts
      ic.instructionData programId

/-! ## Deserialization -/

variable (buffer : List UInt8)

/-- A `u64` of the buffer. -/
def readU64 (start : Nat) : Except InstructionError UInt64 :=
  match slice buffer start (satAdd 64 start 8) with
  | some bytes => if bytes.length = 8 then .ok (.ofNat (ofLe bytes)) else .error .InvalidArgument
  | none => .error .InvalidArgument

/-- A key of the buffer. -/
def readPubkey (start : Nat) : Except InstructionError Pubkey :=
  match slice buffer start (start + 32) with
  | some bytes => if h : bytes.toArray.size = 32 then .ok ⟨bytes.toArray, h⟩ else .error .InvalidArgument
  | none => .error .InvalidArgument

/-- Data of the buffer. -/
def readData (start len : Nat) : Except InstructionError (List UInt8) :=
  match slice buffer start (start + len) with
  | some bytes => .ok bytes
  | none => .error .InvalidArgument

/-- Borrows an account of the instruction for `body`, and drops it however that ends. -/
def withBorrowed {α : Type} (rent : Rent) (index : UInt16)
    (body : BorrowedInstructionAccount → AccountsM α) : AccountsM α := do
  let b ← ic.tryBorrowInstructionAccount rent index
  let result ← attempt (body b)
  modify fun a => a.releaseBorrowMut b.getIndexInTransaction
  MonadExcept.ofExcept result

def updateLamports (lamports : UInt64) : AccountsM Unit := do
  if b.getLamports (← get) ≠ lamports then b.setLamports lamports else pure ()

def updateOwner (owner : Pubkey) : AccountsM Unit := do
  if b.getOwner (← get) ≠ owner then b.setOwner owner else pure ()

/-- The data of an account is all in the buffer: it is written back if it may be, and
must not differ if it may not. -/
def updateInlineData (data : List UInt8) : AccountsM Unit := do
  let a ← get
  match b.canDataBeResized a data.length with
  | .ok () => b.setDataFromSlice data
  | .error err => if b.getData a ≠ data then throw err else pure ()

/-- Reads the data of an account back, from `len` bytes at `start` if they are there. -/
def deserializeData (b : BorrowedInstructionAccount) (buffer : List UInt8)
    (start len : Nat) : AccountsM Unit := do
  let a ← get
  if !features.virtualAddressSpaceAdjustments then do
    updateInlineData b (← MonadExcept.ofExcept (readData buffer start len))
  else if !features.accountDataDirectMapping ∧ b.canDataBeChanged a = .ok () then do
    b.setDataFromSlice (← MonadExcept.ofExcept (readData buffer start len))
  else if (b.getData a).length ≠ len then b.setDataLength len
  else pure ()

/-- One account in the layout of ABIv0, from the byte behind its marker on: returns
where it ends. -/
def deserializeAccountForAbiv0 (preLen start : Nat)
    (b : BorrowedInstructionAccount) : AccountsM Nat := do
  let start := start + (1 + 1 + 32)
  let lamports ← MonadExcept.ofExcept (readU64 buffer start)
  updateLamports b lamports
  let start := start + (8 + 8)
  deserializeData features b buffer start preLen
  return start + (if features.dataOutside then 0 else preLen) + (32 + 1 + 8)

/-- One account in the layout of ABIv1, from the byte behind its marker on: returns
where it ends. -/
def deserializeAccountForAbiv1 (preLen start : Nat)
    (b : BorrowedInstructionAccount) : AccountsM Nat := do
  let start := start + (1 + 1 + 1 + 4 + 32)
  let owner ← MonadExcept.ofExcept (readPubkey buffer start)
  let start := start + 32
  let lamports ← MonadExcept.ofExcept (readU64 buffer start)
  updateLamports b lamports
  let start := start + 8
  let postLen := (← MonadExcept.ofExcept (readU64 buffer start)).toNat
  let start := start + 8
  if postLen - preLen > MAX_PERMITTED_DATA_INCREASE ∨ postLen > MAX_PERMITTED_DATA_LENGTH then
    throw .InvalidRealloc
  else do
    deserializeData features b buffer start postLen
    let start := start + (if features.dataOutside then BPF_ALIGN_OF_U128
      else satAdd 64 (satAdd 64 preLen MAX_PERMITTED_DATA_INCREASE) (alignOffset preLen))
    -- Change the owner at the end so that we are allowed to change the lamports and data before
    updateOwner b owner
    return start + 8

/-- The loop over the accounts: `duplicateLen` bytes follow the marker of a duplicate. -/
def deserializeAccounts (ic : InstructionContext) (rent : Rent) (duplicateLen : Nat)
    (deserializeAccount : (preLen start : Nat) → BorrowedInstructionAccount → AccountsM Nat) :
    List (UInt16 × Nat) → (start : Nat) → AccountsM Unit
  | [], _ => pure ()
  | (index, preLen) :: rest, start => do
    let duplicate ← MonadExcept.ofExcept (ic.isInstructionAccountDuplicate index)
    let start := start + 1
    match duplicate with
    | some _ => deserializeAccounts ic rent duplicateLen deserializeAccount rest (start + duplicateLen)
    | none => do
      let start ← withBorrowed ic rent index (deserializeAccount preLen start)
      deserializeAccounts ic rent duplicateLen deserializeAccount rest start

/-- `deserialize_parameters`. -/
def deserializeParameters (ext : SerializeExternals) (ic : InstructionContext) (rent : Rent)
    (features : InputFeatures) (buffer : List UInt8) (accountsMetadata : List SerializedAccountMetadata) :
    AccountsM Unit := do
  let owner ← ic.getProgramOwner
  let accountLengths := accountsMetadata.map (·.originalDataLen)
  if owner = ext.bpfLoaderDeprecatedId then
    deserializeAccounts ic rent 0 (deserializeAccountForAbiv0 features buffer) (ic.indices.zip accountLengths) 8
  else
    deserializeAccounts ic rent 7 (deserializeAccountForAbiv1 features buffer) (ic.indices.zip accountLengths) 8

end Svm
