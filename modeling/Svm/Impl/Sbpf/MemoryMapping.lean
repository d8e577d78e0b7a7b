import Svm.Impl.Sbpf.MemoryRegion

/-!
# The memory mapping

`MemoryMapping` of `memory_region.rs`: the translation of guest addresses over
either kind of mapping, with the handler that may change a region after a failed
access, and the replacement of regions.
-/

namespace Svm.Sbpf

open Machine

def SBPFVersion.manualStackFrameBump (v : SBPFVersion) : Bool := v == .V1 || v == .V2

/-- What the mapping takes from the `Config` of `vm.rs`. -/
structure MappingConfig where
  maxCallDepth : Int
  stackFrameSize : Int
  enableAddressTranslation : Bool
  allowMemoryRegionZero : Bool
  alignedMemoryMapping : Bool
  deriving DecidableEq, Repr

inductive MemoryMappingType where
  | Aligned (inner : AlignedMemoryMapping)
  | Unaligned (inner : UnalignedMemoryMapping)
  deriving DecidableEq, Repr

structure MemoryMapping where
  maxCallDepth : Int
  stackFrameSize : Int
  disableAddressTranslation : Bool
  sbpfVersion : SBPFVersion
  initialized : Bool
  ty : MemoryMappingType
  deriving DecidableEq, Repr

/-- The handler, over a state of its own: it is given the region, the length the
region may have, and the access. -/
abbrev AccessViolationHandler (σ : Type) :=
  σ → MemoryRegion → (regionMaxLen : UInt64) → AccessType → (vmAddr len : UInt64) → σ × MemoryRegion

/-- What the mapping takes from its surroundings: the address of the empty slice and
what lies past the end of its slices. -/
structure Host where
  emptySlice : UInt64
  pastEnd : PastEnd

namespace MemoryMapping

def newUninitialized (regions : List MemoryRegion) (config : MappingConfig) (sbpfVersion : SBPFVersion) :
    MemoryMapping :=
  { maxCallDepth := config.maxCallDepth
    stackFrameSize := config.stackFrameSize
    disableAddressTranslation := !config.enableAddressTranslation
    sbpfVersion := sbpfVersion
    initialized := false
    ty :=
      if sbpfVersion ≥ .V4 ∨ config.alignedMemoryMapping then
        .Aligned (.newUninitialized regions config.allowMemoryRegionZero)
      else .Unaligned (.newUninitialized regions) }

variable (host : Host)

/-- `initialize`. A failure leaves the mapping uninitialized, with regions that are
not looked at. -/
def initializeRegions (m : MemoryMapping) : Except InitFailure MemoryMapping :=
  match m.ty with
  | .Aligned inner => do
    let inner ← (inner.initializeRegions host.emptySlice).mapError .error
    return { m with ty := .Aligned inner, initialized := true }
  | .Unaligned inner => do
    return { m with ty := .Unaligned (← inner.initializeRegions), initialized := true }

/-- `new_with_access_violation_handler`, without the handler. -/
def new (regions : List MemoryRegion) (config : MappingConfig) (sbpfVersion : SBPFVersion) :
    Except InitFailure MemoryMapping :=
  (newUninitialized regions config sbpfVersion).initializeRegions host

def getRegions (m : MemoryMapping) : List MemoryRegion :=
  match m.ty with
  | .Aligned inner => inner.regions
  | .Unaligned inner => inner.regions

def findRegion (m : MemoryMapping) (vmAddr : UInt64) : Option (Nat × MemoryRegion) × MemoryMapping :=
  match m.ty with
  | .Aligned inner => (inner.findRegion vmAddr, m)
  | .Unaligned inner =>
    let (found, inner) := inner.findRegion host.pastEnd vmAddr
    (found, { m with ty := .Unaligned inner })

/-- The start of the region behind the one at `index`. -/
def nextRegionStart (m : MemoryMapping) (index : Nat) : UInt64 :=
  match m.getRegions[index + 1]? with
  | some nextRegion => nextRegion.vmAddr
  | none => U64.max

def replaceRegion (m : MemoryMapping) (index : Nat) (region : MemoryRegion) : Except EbpfError MemoryMapping :=
  match m.getRegions[index]? with
  | none => .error (.InvalidMemoryRegion index)
  | some old =>
    if old.vmAddr ≠ region.vmAddr ∨ region.vmAddrRange.stop > m.nextRegionStart index then
      .error (.InvalidMemoryRegion index)
    else
      match m.ty with
      | .Aligned inner => do return { m with ty := .Aligned (← inner.replaceRegion index region) }
      | .Unaligned inner => do return { m with ty := .Unaligned (← inner.replaceRegion index region) }

/-- The name of the 4 GiB window of an address. -/
def regionName (vmAddr : UInt64) : String :=
  let start := vmAddr &&& ~~~U64.satSub MM_BYTECODE_START 1
  if start = MM_BYTECODE_START then "program"
  else if start = MM_STACK_START then "stack"
  else if start = MM_HEAP_START then "heap"
  else if start = MM_INPUT_START then "input"
  else "unknown"

/-- `i64::checked_div`, or zero. -/
def checkedDiv (a b : Int) : Int :=
  if b = 0 ∨ (a = iMin 64 ∧ b = -1) then 0 else a.tdiv b

def generateAccessViolation (m : MemoryMapping) (accessType : AccessType) (vmAddr len : UInt64) : EbpfError :=
  let stackFrame :=
    checkedDiv (iSatSub 64 (asSigned 64 vmAddr.toNat) (asSigned 64 MM_STACK_START.toNat)) m.stackFrameSize
  if !m.sbpfVersion.manualStackFrameBump ∧ -1 ≤ stackFrame ∧ stackFrame < iSatAdd 64 m.maxCallDepth 1 then
    .StackAccessViolation accessType vmAddr len stackFrame
  else .AccessViolation accessType vmAddr len (regionName vmAddr)

def map (m : MemoryMapping) (accessType : AccessType) (vmAddr len : UInt64) :
    Except EbpfError UInt64 × MemoryMapping :=
  if m.disableAddressTranslation then (.ok vmAddr, m)
  else
    let (found, m) := m.findRegion host vmAddr
    match found with
    | some (_, region) =>
      match region.vmToHost accessType vmAddr len with
      | some hostAddr => (.ok hostAddr, m)
      | none => (.error (m.generateAccessViolation accessType vmAddr len), m)
    | none => (.error (m.generateAccessViolation accessType vmAddr len), m)

/-- `map_with_access_violation_handler`. -/
def mapWithAccessViolationHandler {σ : Type} (handler : AccessViolationHandler σ) (m : MemoryMapping) (s : σ)
    (accessType : AccessType) (vmAddr len : UInt64) : Except EbpfError UInt64 × MemoryMapping × σ :=
  if m.disableAddressTranslation then (.ok vmAddr, m, s)
  else
    let (found, m) := m.findRegion host vmAddr
    match found with
    | some (index, region) =>
      match region.vmToHost accessType vmAddr len with
      | some hostAddr => (.ok hostAddr, m, s)
      | none =>
        let maxLen := U64.satSub (m.nextRegionStart index) region.vmAddr
        let (s, region) := handler s region maxLen accessType vmAddr len
        match region.vmToHost accessType vmAddr len with
        | some hostAddr =>
          match m.replaceRegion index region with
          | .error err => (.error err, m, s)
          | .ok m => (.ok hostAddr, m, s)
        | none => (.error (m.generateAccessViolation accessType vmAddr len), m, s)
    | none => (.error (m.generateAccessViolation accessType vmAddr len), m, s)

end MemoryMapping

end Svm.Sbpf
