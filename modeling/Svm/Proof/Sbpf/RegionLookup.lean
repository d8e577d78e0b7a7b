import Svm.Proof.Sbpf.MemoryMapping

/-!
# Looking up regions

The tables of the unaligned mapping are filled by one write for each region, every one
at a slot of its own, and the search over them finds the last region that starts at or
below an address (`region_search_correct`).
-/

namespace Svm.Sbpf

open Machine Eytzinger MemoryRegion UnalignedMemoryMapping
open List hiding getElem?_eq_some_iff

variable {regions : List MemoryRegion}

namespace UnalignedMemoryMapping

variable {m : UnalignedMemoryMapping} {vmAddr : UInt64}

/-! ## The tables and the search -/

/-- The writes `(slot, region)` that `construct_eytzinger_order` makes: every slot of the
tables and every region comes once, and what was written is still there. -/
structure FilledBy (regions : List MemoryRegion) (m : UnalignedMemoryMapping) (writes : List (Nat × Nat)) : Prop where
  filled : (sorted regions).constructEytzingerOrder 0 0 = some (m, regions.length, writes)
  addresses : m.regionAddresses.length = regions.length
  lookup : m.regionIndexLookup.length = regions.length
  slots : (writes.map Prod.fst).Perm (range regions.length)
  regions : writes.map Prod.snd = range regions.length
  kept : ∀ slot index, (slot, index) ∈ writes →
    m.regionIndexLookup[slot]? = some index ∧ m.regionAddresses[slot]? = m.regions[index]?.map (·.vmAddr)

/-- What the search for an address does: it ends behind the last start, the node it comes
from is in bounds, and so is the region there; with nothing cached that is the result. -/
structure SearchesFor (m : UnalignedMemoryMapping) (vmAddr : UInt64) : Prop where
  ends : m.regionAddresses.length < search m.regionAddresses vmAddr 1
  inBounds : lastRight (search m.regionAddresses vmAddr 1) = 0 ∨ ∃ index,
    m.regionIndexLookup[lastRight (search m.regionAddresses vmAddr 1) - 1]? = some index ∧ index < m.regions.length
  finds : ∀ pastEnd, Finds m.regions vmAddr (m.findRegion pastEnd vmAddr).1
  missing : ∀ pastEnd, (m.findRegion pastEnd vmAddr).1 = none ↔ ∀ r ∈ m.regions, vmAddr < r.vmAddr

theorem length_lt_search (h : 0 < index) : addresses.length < search addresses vmAddr index := by
  fun_induction search addresses vmAddr index with
  | case1 index hi ih => exact ih (by omega)
  | case2 index hi => omega

theorem Finds.eq_none_iff (h : Finds regions vmAddr found) : found = none ↔ ∀ r ∈ regions, vmAddr < r.vmAddr := by
  cases found with
  | none => exact iff_of_true rfl h
  | some found =>
    obtain ⟨hr, hle, -⟩ := h
    exact iff_of_false (by simp) fun h => UInt64.not_lt.mpr hle (h _ (mem_of_getElem? hr))

theorem InBounds.searchesFor (h : m.InBounds) (vmAddr) : SearchesFor m vmAddr := by
  have hfinds : ∀ pastEnd, Finds m.regions vmAddr (m.findRegion pastEnd vmAddr).1 :=
    fun pastEnd => (h.findRegion pastEnd vmAddr).2.2
  refine ⟨length_lt_search one_pos, ?_, hfinds, fun pastEnd => (hfinds pastEnd).eq_none_iff⟩
  obtain ⟨count, -, ⟨-, hzero⟩ | ⟨j, r, -, hr, -, hindex⟩⟩ := h.search vmAddr
  · exact .inl hzero
  · exact .inr ⟨j, hindex, (getElem?_eq_some_iff.mp hr).1⟩

theorem filledBy_initializeRegions (h : (newUninitialized regions).initializeRegions = .ok m) :
    FilledBy regions m ((inorder regions.length 0).zipIdx) := by
  obtain ⟨-, hf, hconstruct⟩ := filled_initializeRegions h
  refine ⟨hconstruct, hf.addresses.trans length_replicate, hf.lookup.trans length_replicate, ?_, ?_,
    fun slot index hmem => ?_⟩
  · rw [zipIdx_map_fst]
    exact perm_inorder _
  · rw [zipIdx_map_snd, length_inorder, range_eq_range']
  · have hnode := hf.nodes index slot (mem_zipIdx_iff_getElem?.mp hmem)
    rw [zero_add, ← hf.regions] at hnode
    exact Prod.mk.inj hnode

/-- No index is out of bounds, whatever the regions are. -/
theorem initializeRegions_ne_panic (regions) : (newUninitialized regions).initializeRegions ≠ .error .panic := by
  obtain ⟨index, -, herror⟩ | ⟨-, m, hm, -⟩ := initializeRegions_cases regions
  · rw [herror]
    nofun
  · rw [hm]
    nofun

end UnalignedMemoryMapping

/-- Region search is correct: `initialize` never panics, and for regions that it accepts, in
any order and of any number, it fills the tables once, and the search finds the last region
in sorted order that starts at or below an address. -/
theorem region_search_correct (regions : List MemoryRegion) :
    (newUninitialized regions).initializeRegions ≠ .error .panic ∧
    ∀ m, (newUninitialized regions).initializeRegions = .ok m →
      m.regions = sort regions ∧ (∃ writes, FilledBy regions m writes) ∧ ∀ vmAddr, SearchesFor m vmAddr := by
  refine ⟨initializeRegions_ne_panic regions, fun m h => ?_⟩
  obtain ⟨hbounds, hregions⟩ := inBounds_initializeRegions h
  exact ⟨hregions, ⟨_, filledBy_initializeRegions h⟩, hbounds.searchesFor⟩

/-- Two regions of one start, the first of which is empty. -/
theorem region_search_correct_equal_starts : ∃ m,
    (newUninitialized [.new 64 0 true 16, .new 64 8 true 16]).initializeRegions = .ok m ∧ SearchesFor m 20 := by
  obtain ⟨index, hoverlap, -⟩ | ⟨-, m, h, -⟩ := initializeRegions_cases [.new 64 0 true 16, .new 64 8 true 16]
  · have hnone : overlapAt (sort [.new 64 0 true 16, .new 64 8 true 16]) = none := by decide
    rw [hnone] at hoverlap
    cases hoverlap
  · exact ⟨m, h, ((region_search_correct _).2 m h).2.2 20⟩

end Svm.Sbpf
