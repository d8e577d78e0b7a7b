import Svm.Framework.Machine
import Mathlib.Data.List.Sort

/-!
# Memory regions and mappings

`memory_region.rs`: a region of guest memory backed by host memory, and the two
kinds of mapping that find the region of an address. The unaligned mapping
searches the region starts in Eytzinger order behind a small cache; the aligned
one takes the upper half of the address for the index.
-/

namespace Svm.Sbpf

open Machine

def VIRTUAL_ADDRESS_BITS : Nat := 32
def MM_REGION_SIZE : UInt64 := (1 : UInt64) <<< 32
def MM_BYTECODE_START : UInt64 := MM_REGION_SIZE
def MM_STACK_START : UInt64 := MM_REGION_SIZE * 2
def MM_HEAP_START : UInt64 := MM_REGION_SIZE * 3
def MM_INPUT_START : UInt64 := MM_REGION_SIZE * 4

inductive AccessType where
  | Load
  | Store
  deriving DecidableEq, Repr

/-- The errors of `error.rs` that the interpreter and the mappings return. -/
inductive EbpfError where
  | CallDepthExceeded
  | ExitRootCallFrame
  | DivideByZero
  | DivideOverflow
  | ExecutionOverrun
  | CallOutsideTextSegment
  | ExceededMaxInstructions
  | InvalidMemoryRegion (index : Nat)
  | AccessViolation (accessType : AccessType) (vmAddr len : UInt64) (section_ : String)
  | StackAccessViolation (accessType : AccessType) (vmAddr len : UInt64) (frame : Int)
  | InvalidInstruction
  | UnsupportedInstruction
  | SyscallError (message : String)
  deriving DecidableEq, Repr

/-- The SBPF versions of `program.rs`. -/
inductive SBPFVersion where
  | V0
  | V1
  | V2
  | V3
  | V4
  | Reserved
  deriving DecidableEq, Repr

/-- The derived `PartialOrd` goes by the order of declaration. -/
def SBPFVersion.rank : SBPFVersion → Nat
  | .V0 => 0
  | .V1 => 1
  | .V2 => 2
  | .V3 => 3
  | .V4 => 4
  | .Reserved => 5

instance : LE SBPFVersion := ⟨fun v w => v.rank ≤ w.rank⟩

instance : DecidableRel ((· ≤ ·) : SBPFVersion → SBPFVersion → Prop) :=
  fun v w => inferInstanceAs (Decidable (v.rank ≤ w.rank))

structure MemoryRegion where
  hostAddr : UInt64
  vmAddr : UInt64
  len : UInt64
  vmGapShift : UInt8
  writable : Bool
  accessViolationHandlerPayload : Option UInt16
  deriving DecidableEq, Repr

/-- A half-open range of guest addresses. -/
structure VmRange where
  start : UInt64
  stop : UInt64
  deriving DecidableEq, Repr

def VmRange.contains (r : VmRange) (vmAddr : UInt64) : Bool := decide (r.start ≤ vmAddr ∧ vmAddr < r.stop)

namespace MemoryRegion

/-- `u64::leading_zeros`. -/
def leadingZeros (n : UInt64) : Nat := if n = 0 then 64 else 63 - n.toNat.log2

def newInternal (address len : UInt64) (vmAddr vmGapSize : UInt64) (writable : Bool) : MemoryRegion :=
  { hostAddr := address
    vmAddr := vmAddr
    len := len
    vmGapShift := if vmGapSize > 0 then .ofNat (63 - leadingZeros vmGapSize) else 63
    writable := writable
    accessViolationHandlerPayload := none }

/-- `new`, over the host object's address, length and `WRITABLE`. -/
def new (hostAddress byteLength : UInt64) (writable : Bool) (vmAddr : UInt64) : MemoryRegion :=
  newInternal hostAddress byteLength vmAddr 0 writable

def newGapped (hostAddress byteLength : UInt64) (writable : Bool) (vmAddr vmGapSize : UInt64) :
    MemoryRegion :=
  newInternal hostAddress byteLength vmAddr vmGapSize writable

/-- The guest addresses a region covers, gaps included. -/
def vmAddrRange (r : MemoryRegion) : VmRange :=
  if r.vmGapShift = 63 then ⟨r.vmAddr, U64.satAdd r.vmAddr r.len⟩
  else ⟨r.vmAddr, U64.satAdd r.vmAddr (U64.satMul r.len 2)⟩

/-- `x.checked_shr(n).unwrap_or(0)`. -/
def checkedShr (x : UInt64) (n : Nat) : UInt64 := if n < 64 then x >>> .ofNat n else 0

/-- `(-1i64).checked_shl(n).unwrap_or(0) as u64`. -/
def gapMask (n : Nat) : UInt64 := if n < 64 then U64.max <<< .ofNat n else 0

/-- The offset into the backing memory of the offset `beginOffset` into a gapped
region: the bit that tells a frame from its gap is taken out. -/
def gappedOffset (vmGapShift : UInt8) (beginOffset : UInt64) : UInt64 :=
  let gapMask := gapMask vmGapShift.toNat
  checkedShr (beginOffset &&& gapMask) 1 ||| (beginOffset &&& ~~~gapMask)

def isInGap (vmGapShift : UInt8) (beginOffset : UInt64) : Bool :=
  checkedShr beginOffset vmGapShift.toNat &&& 1 == 1

def vmToHost (r : MemoryRegion) (accessType : AccessType) (vmAddr len : UInt64) : Option UInt64 :=
  if accessType = .Store ∧ ¬ r.writable then none
  -- This can happen if a region starts at an offset from the base region address
  else if vmAddr < r.vmAddr then none
  else
    let beginOffset := U64.satSub vmAddr r.vmAddr
    if r.vmGapShift = 63 then
      -- fast path for non-gapped regions
      match U64.checkedAdd beginOffset len with
      | some endOffset => if endOffset ≤ r.len then some (U64.satAdd r.hostAddr beginOffset) else none
      | none => none
    else
      let gappedOffset := gappedOffset r.vmGapShift beginOffset
      match U64.checkedAdd gappedOffset len with
      | some endOffset =>
        if endOffset ≤ r.len ∧ ¬ isInGap r.vmGapShift beginOffset then
          some (U64.satAdd r.hostAddr gappedOffset)
        else none
      | none => none

/-- The order of `Ord for MemoryRegion`. -/
def le (a b : MemoryRegion) : Prop := a.vmAddr ≤ b.vmAddr

instance : DecidableRel le := fun a b => inferInstanceAs (Decidable (a.vmAddr ≤ b.vmAddr))

/-- `regions.sort()`, which is stable. -/
def sort (regions : List MemoryRegion) : List MemoryRegion := regions.insertionSort le

end MemoryRegion

/-! ## The cache of the unaligned mapping -/

structure MappingCache where
  entries : Vector (VmRange × Nat) 4
  head : Fin 4
  deriving DecidableEq, Repr

namespace MappingCache

def new : MappingCache := { entries := .replicate 4 (⟨0, 0⟩, 0), head := 0 }

/-- The first entry from the head on whose range has the address. -/
def find (c : MappingCache) (vmAddr : UInt64) : Option Nat :=
  ([0, 1, 2, 3].find? fun i : Fin 4 => c.entries[c.head + i].1.contains vmAddr).map
    fun i => c.entries[c.head + i].2

def insert (c : MappingCache) (vmRange : VmRange) (regionIndex : Nat) : MappingCache :=
  let head := c.head - 1
  { entries := c.entries.set head (vmRange, regionIndex), head := head }

def flush (_ : MappingCache) : MappingCache := new

end MappingCache

/-! ## The unaligned mapping -/

structure UnalignedMemoryMapping where
  regions : List MemoryRegion
  regionAddresses : List UInt64
  regionIndexLookup : List Nat
  cache : MappingCache
  deriving DecidableEq, Repr

/-- How making the regions of a mapping ready fails. -/
inductive InitFailure where
  | error (e : EbpfError)
  | panic
  deriving DecidableEq, Repr

/-- What a read without a bound check yields past the end of the slice. -/
structure PastEnd where
  index : (at_ : Nat) → Nat
  region : (at_ : Nat) → MemoryRegion

namespace UnalignedMemoryMapping

def newUninitialized (regions : List MemoryRegion) : UnalignedMemoryMapping :=
  { regions := regions
    regionAddresses := .replicate regions.length 0
    regionIndexLookup := .replicate regions.length 0
    cache := .new }

variable (m : UnalignedMemoryMapping)

/-- The node `write.1` of the tables gets the region `write.2`. It panics at an index out
of bounds. -/
def writeNode (write : Nat × Nat) : Option UnalignedMemoryMapping := do
  let region ← m.regions[write.2]?
  if write.1 < m.regionAddresses.length ∧ write.1 < m.regionIndexLookup.length then
    return { m with
      regionAddresses := m.regionAddresses.set write.1 region.vmAddr
      regionIndexLookup := m.regionIndexLookup.set write.1 write.2 }
  else none

/-- Fills the subtree below `outIndex` in order, from the region `inIndex` on; the
next region is returned, with a log of the writes. -/
def constructEytzingerOrder (inIndex outIndex : Nat) :
    Option (UnalignedMemoryMapping × Nat × List (Nat × Nat)) :=
  go m.regions.length m inIndex outIndex
where
  /-- The recursion, over the mapping as it is filled. -/
  go (n : Nat) (m : UnalignedMemoryMapping) (inIndex outIndex : Nat) :
      Option (UnalignedMemoryMapping × Nat × List (Nat × Nat)) :=
    if outIndex ≥ n then some (m, inIndex, [])
    else do
      let (m, inIndex, before) ← go n m inIndex (outIndex * 2 + 1)
      let m ← m.writeNode (outIndex, inIndex)
      let (m, next, after) ← go n m (inIndex + 1) (outIndex * 2 + 2)
      return (m, next, before ++ (outIndex, inIndex) :: after)
  termination_by n - outIndex

/-- The first index at which a region runs into the next one. -/
def overlapAt : List MemoryRegion → Option Nat
  | first :: second :: rest =>
    if first.vmAddrRange.stop > second.vmAddr then some 1
    else (overlapAt (second :: rest)).map (· + 1)
  | _ => none

/-- `initialize`. -/
def initializeRegions : Except InitFailure UnalignedMemoryMapping :=
  let m := { m with regions := MemoryRegion.sort m.regions }
  match overlapAt m.regions with
  | some index => .error (.error (.InvalidMemoryRegion index))
  | none =>
    match m.constructEytzingerOrder 0 0 with
    | some (m, _) => .ok m
    | none => .error .panic

/-- The descent of `find_region`: to the right at every start that is not above
the address. -/
def search (addresses : List UInt64) (vmAddr : UInt64) (index : Nat) : Nat :=
  if 1 ≤ index ∧ index ≤ addresses.length then
    search addresses vmAddr
      (2 * index + if (addresses[index - 1]?).getD 0 ≤ vmAddr then 1 else 0)
  else index
termination_by addresses.length + 1 - index

/-- `index >>= index.trailing_zeros() + 1`: the node of the last step to the
right. -/
def lastRight (index : Nat) : Nat :=
  if index = 0 then 0 else if index % 2 = 0 then lastRight (index / 2) else index / 2

/-- `find_region`, which reads without bound checks. -/
def findRegion (pastEnd : PastEnd) (m : UnalignedMemoryMapping) (vmAddr : UInt64) :
    Option (Nat × MemoryRegion) × UnalignedMemoryMapping :=
  match m.cache.find vmAddr with
  | some index => (some (index, m.regions[index]?.getD (pastEnd.region index)), m)
  | none =>
    let index := lastRight (search m.regionAddresses vmAddr 1)
    if index = 0 then (none, m)
    else
      let index := m.regionIndexLookup[index - 1]?.getD (pastEnd.index (index - 1))
      let region := m.regions[index]?.getD (pastEnd.region index)
      (some (index, region), { m with cache := m.cache.insert region.vmAddrRange index })

def replaceRegion (index : Nat) (region : MemoryRegion) :
    Except EbpfError UnalignedMemoryMapping :=
  .ok { m with regions := m.regions.set index region, cache := m.cache.flush }

end UnalignedMemoryMapping

/-! ## The aligned mapping -/

structure AlignedMemoryMapping where
  regions : List MemoryRegion
  allowMemoryRegionZero : Bool
  deriving DecidableEq, Repr

/-- The index of the 4 GiB window of an address. -/
def windowOf (vmAddr : UInt64) : Nat := vmAddr.toNat / 2 ^ VIRTUAL_ADDRESS_BITS

namespace AlignedMemoryMapping

def newUninitialized (regions : List MemoryRegion) (allowMemoryRegionZero : Bool) :
    AlignedMemoryMapping :=
  { regions := regions, allowMemoryRegionZero := allowMemoryRegionZero }

/-- A region over the empty slice, whose host address is `emptySlice`. -/
def emptyRegion (emptySlice : UInt64) (vmAddr : UInt64) : MemoryRegion := .new emptySlice 0 false vmAddr

/-- The loop of `initialize` that fills the windows without a region, from the
window `expected` on; `rest` are the regions not looked at. -/
def fillGaps (emptySlice : UInt64) (expected : Nat) :
    List MemoryRegion → Except EbpfError (List MemoryRegion)
  | [] => .ok []
  | region :: rest =>
    let actual := windowOf region.vmAddr
    if actual < expected then .error (.InvalidMemoryRegion actual)
    else do
      let filled := (List.range' expected (actual - expected)).map fun i =>
        emptyRegion emptySlice (U64.satMul (.ofNat i) MM_REGION_SIZE)
      let rest ← fillGaps emptySlice (actual + 1) rest
      return filled ++ region :: rest

/-- The first index from `index` on that is not the window of its region. -/
def misplacedAt (index : Nat) : List MemoryRegion → Option Nat
  | [] => none
  | region :: rest => if windowOf region.vmAddr ≠ index then some index else misplacedAt (index + 1) rest

def initializeRegions (m : AlignedMemoryMapping) (emptySlice : UInt64) : Except EbpfError AlignedMemoryMapping :=
  if m.allowMemoryRegionZero then do
    let regions ← fillGaps emptySlice 0 (MemoryRegion.sort m.regions)
    return { m with regions := regions }
  else
    let regions := MemoryRegion.sort (m.regions ++ [emptyRegion emptySlice 0])
    match misplacedAt 0 regions with
    | some index => .error (.InvalidMemoryRegion index)
    | none => .ok { m with regions := regions }

def findRegion (m : AlignedMemoryMapping) (vmAddr : UInt64) : Option (Nat × MemoryRegion) :=
  let index := windowOf vmAddr
  if index > 0 ∨ m.allowMemoryRegionZero then m.regions[index]?.map (index, ·) else none

def replaceRegion (m : AlignedMemoryMapping) (index : Nat) (region : MemoryRegion) :
    Except EbpfError AlignedMemoryMapping :=
  let beginIndex := windowOf region.vmAddr
  let endIndex := windowOf (U64.satAdd region.vmAddr (U64.satSub region.len 1))
  if beginIndex ≠ index ∨ endIndex ≠ index then .error (.InvalidMemoryRegion index)
  else .ok { m with regions := m.regions.set index region }

end AlignedMemoryMapping

end Svm.Sbpf
