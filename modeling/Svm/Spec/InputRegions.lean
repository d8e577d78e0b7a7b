import Svm.Spec.Mapping
import Svm.Spec.ProgramInput

/-!
# How a program sees its input

A program reads its input through memory regions. Whatever of the data is
mapped directly, in guest addresses the records lie as in a buffer that holds
all of it. `locate` is the translation of an address by the regions, `Shows`
says that a program reads given bytes at an address, and `InputLayout` what the
regions, the recorded addresses and the reads of deserialization have to do
with each other.
-/

namespace Svm

open Machine Run Bytes Sbpf

/-! ## Looking up an address -/

variable (regions : List MemoryRegion)

/-- The last region that starts at or below an address. -/
def regionAt (vmAddr : UInt64) : Option MemoryRegion :=
  (regions.filter fun r => decide (r.vmAddr ≤ vmAddr)).getLast?

/-- The host address of `len` bytes that the regions give a program to read. -/
def locate (vmAddr len : UInt64) : Option UInt64 :=
  (regionAt regions vmAddr).bind fun r => r.vmToHost .Load vmAddr len

/-- The memory of the host has the bytes, from an address on. -/
structure HostHas (host : UInt64 → UInt8) (addr : UInt64) (bytes : List UInt8) : Prop where
  inSpace : addr.toNat + bytes.length < 2 ^ 64
  byte : ∀ (i : Nat) (x : UInt8), bytes[i]? = some x → host (addr + .ofNat i) = x

/-- A program reads the bytes at an address. -/
def Shows (host : UInt64 → UInt8) (vmAddr : UInt64) (bytes : List UInt8) : Prop :=
  ∃ h, locate regions vmAddr (.ofNat bytes.length) = some h ∧ HostHas host h bytes

/-- The position in the buffer that an address resolves to. -/
def bufferPosition (bufferAddr vmAddr len : UInt64) : Nat :=
  match locate regions vmAddr len with
  | some h => (h - bufferAddr).toNat
  | none => 0

/-- An address is a multiple of a word, and resolves to a multiple of a word in the
buffer. -/
def WordAligned (bufferAddr vmAddr len : UInt64) : Prop :=
  8 ∣ vmAddr.toNat ∧ ∃ h, locate regions vmAddr len = some h ∧ 8 ∣ (h - bufferAddr).toNat

/-! ## Guest addresses -/

/-- The layout of the records in guest addresses. -/
def guestLayout (isLoaderV1 : Bool) : Layout := ⟨isLoaderV1, false⟩

/-- The guest addresses that the input takes up, with room for the pointers. -/
def InstructionContext.addressSpace (ic : InstructionContext) (isLoaderV1 : Bool)
    (accountsMetadata : List SerializedAccountMetadata) : Nat :=
  (guestLayout isLoaderV1).recordStart (ic.indices.map (ic.entry accountsMetadata)) +
    (8 + ic.instructionData.length + 32) + 8 * (accountsMetadata.length + 1)

/-- The data of an account starts at the address. -/
def DataStart (accountsMetadata : List SerializedAccountMetadata) (vmAddr : UInt64) : Prop :=
  ∃ m ∈ accountsMetadata, m.vmDataAddr = vmAddr

/-- The regions follow one another, with nothing between them but the room for the
growth of an account behind its data. -/
structure RegionsInOrder (growth : Nat) (accountsMetadata : List SerializedAccountMetadata)
    (regions : List MemoryRegion) : Prop where
  first : regions.head?.map (·.vmAddr) = some MM_INPUT_START
  increasing : regions.Pairwise fun r r' => r.vmAddr < r'.vmAddr
  disjoint : NoOverlap regions
  contiguous : regions.IsChain fun r r' =>
    (DataStart accountsMetadata r.vmAddr → r'.vmAddr.toNat = r.vmAddr.toNat + r.len.toNat + growth) ∧
      (¬ DataStart accountsMetadata r.vmAddr → r'.vmAddr.toNat = r.vmAddr.toNat + r.len.toNat)

/-- The recorded addresses show the fields of the account, and the length of its data
in front of the data. -/
structure ShowsAccount (regions : List MemoryRegion) (host : UInt64 → UInt8) (m : SerializedAccountMetadata)
    (v : TransactionAccountView) : Prop where
  key : Shows regions host m.vmKeyAddr v.key.toList
  owner : Shows regions host m.vmOwnerAddr v.owner.toList
  lamports : Shows regions host m.vmLamportsAddr (toLe 8 v.lamports.toNat)
  len : Shows regions host (m.vmDataAddr - 8) (toLe 8 v.data.length)
  data : Shows regions host m.vmDataAddr v.data

/-! ## Reading at given positions -/

/-- Where the fields of an account are read. -/
structure FieldPositions where
  owner : Nat
  lamports : Nat
  len : Nat
  data : Nat

/-- The positions that the recorded addresses of an account resolve to. -/
def SerializedAccountMetadata.positions (m : SerializedAccountMetadata) (regions : List MemoryRegion)
    (bufferAddr : UInt64) : FieldPositions :=
  { owner := bufferPosition regions bufferAddr m.vmOwnerAddr 32
    lamports := bufferPosition regions bufferAddr m.vmLamportsAddr 8
    len := bufferPosition regions bufferAddr (m.vmDataAddr - 8) 8
    data := bufferPosition regions bufferAddr m.vmDataAddr (.ofNat m.originalDataLen) }

/-- Reads an account back from given positions. -/
def deserializeFields (features : InputFeatures) (isLoaderV1 : Bool) (buffer : List UInt8) (preLen : Nat)
    (positions : FieldPositions) (b : BorrowedInstructionAccount) : AccountsM Unit :=
  if isLoaderV1 then do
    let lamports ← MonadExcept.ofExcept (readU64 buffer positions.lamports)
    updateLamports b lamports
    deserializeData features b buffer positions.data preLen
  else do
    let owner ← MonadExcept.ofExcept (readPubkey buffer positions.owner)
    let lamports ← MonadExcept.ofExcept (readU64 buffer positions.lamports)
    updateLamports b lamports
    let postLen := (← MonadExcept.ofExcept (readU64 buffer positions.len)).toNat
    if postLen - preLen > MAX_PERMITTED_DATA_INCREASE ∨ postLen > MAX_PERMITTED_DATA_LENGTH then
      throw .InvalidRealloc
    else do
      deserializeData features b buffer positions.data postLen
      updateOwner b owner

/-- Reads every account of the instruction that is not a duplicate. -/
def deserializeEach (ic : InstructionContext) (rent : Rent)
    (fields : SerializedAccountMetadata → BorrowedInstructionAccount → AccountsM Unit) :
    List (UInt16 × SerializedAccountMetadata) → AccountsM Unit
  | [] => pure ()
  | (index, m) :: rest => do
    match ← MonadExcept.ofExcept (ic.isInstructionAccountDuplicate index) with
    | some _ => deserializeEach ic rent fields rest
    | none => do
      withBorrowed ic rent index (fields m)
      deserializeEach ic rent fields rest

/-- Deserialization that reads where the recorded addresses resolve to. -/
def deserializeResolved (ext : SerializeExternals) (ic : InstructionContext) (rent : Rent)
    (features : InputFeatures) (p : SerializedParameters) (bufferAddr : UInt64) (buffer : List UInt8) :
    AccountsM Unit := do
  let owner ← ic.getProgramOwner
  deserializeEach ic rent (fun m => deserializeFields features (owner = ext.bpfLoaderDeprecatedId) buffer
    m.originalDataLen (m.positions p.regions bufferAddr)) (ic.indices.zip p.accountsMetadata)

/-! ## The layout -/

/-- The words of the aligned layout: three of the header of each account, the length of
the instruction data, and the pointers to the accounts. -/
structure WordsAligned (ic : InstructionContext) (features : InputFeatures) (bufferAddr : UInt64)
    (host : UInt64 → UInt8) (p : SerializedParameters) : Prop where
  account : ∀ m ∈ p.accountsMetadata, WordAligned p.regions bufferAddr m.vmOwnerAddr 32 ∧
    WordAligned p.regions bufferAddr m.vmLamportsAddr 8 ∧ WordAligned p.regions bufferAddr (m.vmDataAddr - 8) 8
  instructionLen : WordAligned p.regions bufferAddr (.ofNat p.instructionDataOffset - 8) 8
  pointers : features.directAccountPointersInProgramInput = true → ∃ start : Nat,
    p.instructionDataOffset + ic.instructionData.length + 32 ≤ start ∧
      start < p.instructionDataOffset + ic.instructionData.length + 32 + 8 ∧ 8 ∣ start ∧
      ∀ k m, p.accountsMetadata[k]? = some m →
        WordAligned p.regions bufferAddr (.ofNat (start + 8 * k)) 8 ∧
          Shows p.regions host (.ofNat (start + 8 * k)) (toLe 8 m.vmDataAddr.toNat)

/-- The regions, the recorded addresses and the positions that deserialization reads at
agree. The program input `p` was made of the accounts `a`, into a buffer of the host
at `bufferAddr`. -/
structure InputLayout (ext : SerializeExternals) (ic : InstructionContext) (rent : Rent) (features : InputFeatures)
    (isLoaderV1 : Bool) (bufferAddr : UInt64) (host : UInt64 → UInt8) (a : TransactionAccounts)
    (p : SerializedParameters) : Prop where
  regions : RegionsInOrder (guestLayout isLoaderV1).growth p.accountsMetadata p.regions
  account : ∀ index ∈ ic.indices, ic.isInstructionAccountDuplicate index = .ok none →
    ∃ ia m, ic.instructionAccounts[index.toNat]? = some ia ∧ p.accountsMetadata[index.toNat]? = some m ∧
      ShowsAccount p.regions host m (a.view ia.indexInTransaction)
  duplicate : ∀ index ∈ ic.indices, ∀ position, ic.isInstructionAccountDuplicate index = .ok (some position) →
    ∃ m, p.accountsMetadata[index.toNat]? = some m ∧ p.accountsMetadata[position.toNat]? = some m
  instruction : Shows p.regions host (.ofNat p.instructionDataOffset - 8) (toLe 8 ic.instructionData.length) ∧
    Shows p.regions host (.ofNat p.instructionDataOffset) ic.instructionData
  reads : ∀ (buffer : List UInt8) (a' : TransactionAccounts),
    (∀ owner, result ic.getProgramOwner a' = .ok owner → decide (owner = ext.bpfLoaderDeprecatedId) = isLoaderV1) →
      (deserializeParameters ext ic rent features buffer p.accountsMetadata).run a' =
        (deserializeResolved ext ic rent features p bufferAddr buffer).run a'
  aligned : isLoaderV1 = false → WordsAligned ic features bufferAddr host p

end Svm
