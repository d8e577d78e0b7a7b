import Svm.Impl.Serialization

/-!
# The program input

Where the accounts of an instruction lie in the buffer a program is given, and
what it means that the buffer holds them. A record starts with a marker; its
length depends only on the length the data had when the buffer was made, so the
positions stay while the fields change. `Holds` says that the record at a
position agrees with an account, `SameAccounts` that nothing a program can
observe of the accounts has changed.
-/

namespace Svm

open Machine Bytes

/-! ## The layout -/

structure Layout where
  isLoaderV1 : Bool
  /-- The data of the accounts is mapped directly. -/
  dataOutside : Bool
  deriving DecidableEq, Repr

namespace Layout

variable (l : Layout)

/-- The growth an account has room for. -/
def growth : Nat := if l.isLoaderV1 then 0 else MAX_PERMITTED_DATA_INCREASE

/-- The bytes between the length of the data and the field behind the data. -/
def areaLen (preLen : Nat) : Nat :=
  if l.dataOutside then (if l.isLoaderV1 then 0 else BPF_ALIGN_OF_U128)
  else if l.isLoaderV1 then preLen
  else preLen + MAX_PERMITTED_DATA_INCREASE + alignOffset preLen

/-! Positions in a record, counted from its marker. -/

def keyAt : Nat := if l.isLoaderV1 then 1 + 1 + 1 else 1 + 1 + 1 + 1 + 4
def lamportsAt : Nat := if l.isLoaderV1 then l.keyAt + 32 else l.keyAt + 32 + 32
def lenAt : Nat := l.lamportsAt + 8
def dataAt : Nat := l.lenAt + 8
def ownerAt (preLen : Nat) : Nat := if l.isLoaderV1 then l.dataAt + l.areaLen preLen else l.keyAt + 32

/-- The length of the record of an account with `preLen` bytes, or of a duplicate. -/
def recordLen : Option Nat → Nat
  | none => if l.isLoaderV1 then 1 else 1 + 7
  | some preLen => l.dataAt + l.areaLen preLen + (if l.isLoaderV1 then 32 + 1 + 8 else 8)

/-- Where the record behind the records `entries` starts. -/
def recordStart (entries : List (Option Nat)) : Nat := 8 + (entries.map l.recordLen).sum

end Layout

variable (features : InputFeatures)

/-- The layout that the features give the input of a loader. -/
def InputFeatures.layout (isLoaderV1 : Bool) : Layout :=
  ⟨isLoaderV1, features.dataOutside⟩

/-- The record at `start` holds the account. -/
structure Layout.Holds (l : Layout) (buffer : List UInt8) (start preLen : Nat) (v : TransactionAccountView) :
    Prop where
  lamports : readU64 buffer (start + l.lamportsAt) = .ok v.lamports
  owner : readPubkey buffer (start + l.ownerAt preLen) = .ok v.owner
  len : readU64 buffer (start + l.lenAt) = .ok (.ofNat v.data.length)
  data : l.dataOutside = false → readData buffer (start + l.dataAt) v.data.length = .ok v.data
  /-- The data has not outgrown its room. -/
  fits : v.data.length ≤ preLen + l.growth

variable (ic : InstructionContext)

/-- What the instruction has at an index: nothing of its own for a duplicate, else an
account whose data had the recorded length. -/
def InstructionContext.entry (accountsMetadata : List SerializedAccountMetadata)
    (index : UInt16) : Option Nat :=
  match ic.isInstructionAccountDuplicate index with
  | .ok none => accountsMetadata[index.toNat]?.map (·.originalDataLen)
  | _ => none

/-- Where the record of an index starts. -/
def InstructionContext.recordStart (ic : InstructionContext) (l : Layout)
    (accountsMetadata : List SerializedAccountMetadata) (index : UInt16) : Nat :=
  l.recordStart ((ic.indices.take index.toNat).map (ic.entry accountsMetadata))

/-- The buffer holds every account of the instruction. -/
structure InstructionContext.Holds (ic : InstructionContext) (l : Layout) (buffer : List UInt8)
    (accountsMetadata : List SerializedAccountMetadata) (a : TransactionAccounts) : Prop where
  length : accountsMetadata.length = ic.indices.length
  account : ∀ index ∈ ic.indices, ic.isInstructionAccountDuplicate index = .ok none →
    ∀ ia, ic.instructionAccounts[index.toNat]? = some ia → ∀ m, accountsMetadata[index.toNat]? = some m →
      l.Holds buffer (ic.recordStart l accountsMetadata index) m.originalDataLen (a.view ia.indexInTransaction)

/-! ## The size of the buffer -/

/-- The padding in front of the pointers to the accounts, if the program input has them. -/
def pointersOffset (isLoaderV1 : Bool) (a : TransactionAccounts)
    (accounts : List SerializeAccount) (instructionData : List UInt8) : Option Nat :=
  if isLoaderV1 = false ∧ features.directAccountPointersInProgramInput = true then
    some (alignOffset (serializedSize isLoaderV1 features.dataOutside a accounts instructionData))
  else none

/-- The size that the first pass computes. -/
def allocatedSize (isLoaderV1 : Bool) (a : TransactionAccounts)
    (accounts : List SerializeAccount) (instructionData : List UInt8) : Nat :=
  serializedSize isLoaderV1 features.dataOutside a accounts instructionData +
    ((pointersOffset features isLoaderV1 a accounts instructionData).map (· + accounts.length * 8)).getD 0

/-- The second pass: the accounts are written into a new buffer of that size. -/
def writeLayout (ext : Externals) (features : InputFeatures) (isLoaderV1 : Bool) (bufferAddr : UInt64)
    (accounts : List SerializeAccount) (instructionData : List UInt8) (programId : Pubkey) (a : TransactionAccounts) :
    EStateM.Result Fault Serializing SerializedParameters :=
  (if isLoaderV1 then serializeParametersForAbiv0 ext accounts instructionData programId
    else serializeParametersForAbiv1 ext accounts instructionData programId
      (pointersOffset features isLoaderV1 a accounts instructionData)).run
    ⟨a, .new (allocatedSize features isLoaderV1 a accounts instructionData) bufferAddr Sbpf.MM_INPUT_START isLoaderV1
      features⟩

/-! ## What a program can observe of the accounts -/

/-- The fields of an account, its published length apart, which is the length of the
data whenever no borrow is live. -/
structure TransactionAccountView.Same (v v' : TransactionAccountView) : Prop where
  key : v'.key = v.key
  owner : v'.owner = v.owner
  lamports : v'.lamports = v.lamports
  data : v'.data = v.data
  executable : v'.executable = v.executable
  rentEpoch : v'.rentEpoch = v.rentEpoch

structure SameAccounts (a a' : TransactionAccounts) : Prop where
  len : a'.len = a.len
  view : ∀ i, (a.view i).Same (a'.view i)
  resizeDelta : a'.resizeDelta = a.resizeDelta
  lamportsDelta : a'.lamportsDelta = a.lamportsDelta
  borrowCounter : ∀ i, (a'.slot i).borrowCounter = (a.slot i).borrowCounter

/-! ## Two instructions -/

/-- What a program is told of an account. -/
structure TransactionAccountView.Alike (v v' : TransactionAccountView) : Prop where
  key : v.key = v'.key
  executable : v.executable = v'.executable
  owner : v.owner = v'.owner
  lamports : v.lamports = v'.lamports
  data : v.data = v'.data

/-- Every duplicate of an account is the entry that its first occurrence is. -/
def InstructionContext.Deduplicated : Prop :=
  ∀ index position, ic.isInstructionAccountDuplicate index = .ok (some position) →
    ic.instructionAccounts[position.toNat]? = ic.instructionAccounts[index.toNat]?

/-- Two instructions have the same account at an index, with the same flags. -/
def AlikeAt (ic ic' : InstructionContext) (a a' : TransactionAccounts) (index : UInt16) : Prop :=
  ∃ ia ia', ic.instructionAccounts[index.toNat]? = some ia ∧ ic'.instructionAccounts[index.toNat]? = some ia' ∧
    ia.isSigner = ia'.isSigner ∧ ia.isWritable = ia'.isWritable ∧
    (a.view ia.indexInTransaction).Alike (a'.view ia'.indexInTransaction)

/-- Two instructions, over the accounts `a` and `a'`, that a program cannot tell apart. -/
structure SameInput (ic ic' : InstructionContext) (a a' : TransactionAccounts) : Prop where
  count : ic.getNumberOfInstructionAccounts = ic'.getNumberOfInstructionAccounts
  duplicates : ∀ index ∈ ic.indices,
    ic.isInstructionAccountDuplicate index = ic'.isInstructionAccountDuplicate index
  account : ∀ index ∈ ic.indices, ic.isInstructionAccountDuplicate index = .ok none → AlikeAt ic ic' a a' index
  repeated : ic.Deduplicated → ic'.Deduplicated → ∀ index ∈ ic.indices, AlikeAt ic ic' a a' index
  instructionData : ic.instructionData = ic'.instructionData
  program : ic.getProgramKey a = ic'.getProgramKey a'

/-- The data of the accounts has a length that a word can hold. -/
def InstructionContext.Countable (a : TransactionAccounts) : Prop :=
  ∀ ia ∈ ic.instructionAccounts, (a.view ia.indexInTransaction).data.length < 2 ^ 64

end Svm
