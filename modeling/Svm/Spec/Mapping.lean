import Svm.Framework.Run
import Svm.Impl.Sbpf.MemoryMapping

/-!
# What a memory mapping is for

A mapping hands out host addresses for guest addresses. `Backed` is what makes
one safe to use, and `NoOverlap` what makes the region of an address unique. A
mapping is used by any sequence of translations and replacements (`MappingOp`), and
mappings of the two kinds are used alike (`UsedAlike`).
-/

namespace Svm.Sbpf

open Machine

/-- The host range of the region ends below the end of the address space. -/
def MemoryRegion.HostValid (r : MemoryRegion) : Prop := r.hostAddr.toNat + r.len.toNat < 2 ^ 64

/-- The translated access lies in the host range of one region of the mapping, which
starts at or below it and allows the access. -/
def Backed (m : MemoryMapping) (accessType : AccessType) (vmAddr len hostAddr : UInt64) : Prop :=
  ∃ r ∈ m.getRegions, r.hostAddr.toNat ≤ hostAddr.toNat ∧
    hostAddr.toNat + len.toNat ≤ r.hostAddr.toNat + r.len.toNat ∧
    r.vmAddr ≤ vmAddr ∧ (accessType = .Store → r.writable = true)

variable (regions : List MemoryRegion)

/-- Each region ends at or before the start of every later one. -/
def NoOverlap : Prop :=
  regions.Pairwise fun r r' => r.vmAddrRange.stop ≤ r'.vmAddr

/-- The starts do not decrease. -/
def SortedRegions : Prop := regions.Pairwise fun r r' => r.vmAddr ≤ r'.vmAddr

/-- No address lies in two regions. -/
def DisjointRegions : Prop :=
  regions.Pairwise fun r r' => ∀ vmAddr, ¬ (r.vmAddrRange.contains vmAddr ∧ r'.vmAddrRange.contains vmAddr)

/-- The region ends within the 4 GiB window it starts in. -/
def MemoryRegion.WithinWindow (r : MemoryRegion) : Prop :=
  r.vmAddrRange.stop.toNat ≤ 2 ^ VIRTUAL_ADDRESS_BITS * (windowOf r.vmAddr + 1)

/-- One use of a mapping. A handler keeps a state of its own between two calls, so
every use has its own. -/
inductive MappingOp where
  | map (accessType : AccessType) (vmAddr len : UInt64)
  | mapWithAccessViolationHandler (handler : AccessViolationHandler Unit) (accessType : AccessType)
      (vmAddr len : UInt64)
  | replaceRegion (index : Nat) (region : MemoryRegion)

/-- The mapping after one use. -/
def MappingOp.step (host : Host) : MappingOp → MemoryMapping → MemoryMapping
  | .map accessType vmAddr len, m => (m.map host accessType vmAddr len).2
  | .mapWithAccessViolationHandler handler accessType vmAddr len, m =>
    (m.mapWithAccessViolationHandler host handler () accessType vmAddr len).2.1
  | .replaceRegion index region, m =>
    match m.replaceRegion index region with
    | .ok m => m
    | .error _ => m

/-- A handler that leaves the region or gives it a valid host range. -/
def SafeHandler {σ : Type} (handler : AccessViolationHandler σ) : Prop :=
  ∀ s r maxLen accessType vmAddr len, let r' := (handler s r maxLen accessType vmAddr len).2
    r' = r ∨ r'.HostValid

/-- What is asked of who uses a mapping. -/
def MappingOp.Safe : MappingOp → Prop
  | .map _ _ _ => True
  | .mapWithAccessViolationHandler handler _ _ _ => SafeHandler handler
  | .replaceRegion _ region => region.HostValid

/-- An aligned and an unaligned mapping of the same regions, used alike: for translations,
and with regions replaced, on both, by regions that keep to their windows. -/
inductive UsedAlike (host : Host) (regions : List MemoryRegion) (config : MappingConfig) (version : SBPFVersion) :
    MemoryMapping → MemoryMapping → Prop where
  | new {a u : MemoryMapping}
      (ha : MemoryMapping.new host regions { config with alignedMemoryMapping := true } version = .ok a)
      (hu : MemoryMapping.new host regions { config with alignedMemoryMapping := false } version = .ok u) :
      UsedAlike host regions config version a u
  | map {a u : MemoryMapping} (accessType : AccessType) (vmAddr len : UInt64)
      (h : UsedAlike host regions config version a u) :
      UsedAlike host regions config version (a.map host accessType vmAddr len).2 (u.map host accessType vmAddr len).2
  | replace {a a' u u' : MemoryMapping} {i j : Nat} {region : MemoryRegion}
      (h : UsedAlike host regions config version a u) (hwindow : region.WithinWindow)
      (ha : a.replaceRegion i region = .ok a') (hu : u.replaceRegion j region = .ok u') :
      UsedAlike host regions config version a' u'

end Svm.Sbpf
