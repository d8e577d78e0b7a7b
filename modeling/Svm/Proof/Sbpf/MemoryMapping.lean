import Svm.Framework.Eytzinger
import Svm.Proof.Sbpf.MemoryRegion
import Svm.Spec.Mapping

/-!
# Address translation is memory safe

The unaligned mapping finds the last region that starts at or below the address
(`InBounds.findRegion`): its tables hold the regions in the order of a search tree
(`go_eq_foldl`), the search ends below a node (`search_splits`), and the cache holds what
was found. So every translation is that of a region of the mapping, and `Backed`. A
replaced region starts where the old one did and ends before the next one, so
regions that do not overlap never will.
-/

namespace Svm.Sbpf

open Machine Run Eytzinger MemoryRegion UnalignedMemoryMapping AlignedMemoryMapping
open List hiding getElem?_eq_some_iff

variable {regions : List MemoryRegion} {m : MemoryMapping} {emptySlice : UInt64} {index : Nat}
  {region r : MemoryRegion}

/-! ## Overlaps -/

theorem MemoryRegion.start_le_stop (r : MemoryRegion) : r.vmAddr ≤ r.vmAddrRange.stop := by
  have hle : ∀ n, r.vmAddr ≤ U64.satAdd r.vmAddr n := by
    intro n
    have := r.vmAddr.toNat_lt
    rw [UInt64.le_iff_toNat_le, U64.toNat_satAdd]
    omega
  rw [vmAddrRange]
  split <;> exact hle _

theorem NoOverlap.sorted (h : NoOverlap regions) : SortedRegions regions :=
  h.imp fun {r _} hr => UInt64.le_trans r.start_le_stop hr

theorem MemoryRegion.vmAddrRange_start (r : MemoryRegion) : r.vmAddrRange.start = r.vmAddr := by
  rw [vmAddrRange]
  split <;> rfl

/-- Empty regions hold no address, wherever they are. -/
theorem disjointRegions_of_filter (h : NoOverlap (regions.filter fun r => r.vmAddr < r.vmAddrRange.stop)) :
    DisjointRegions regions := by
  rw [NoOverlap, pairwise_filter] at h
  refine h.imp fun {r r'} hr vmAddr => ?_
  simp only [VmRange.contains, decide_eq_true_eq, vmAddrRange_start] at hr ⊢
  rintro ⟨⟨hle, hlt⟩, hle', hlt'⟩
  have hstop := hr (UInt64.lt_of_le_of_lt hle hlt) (UInt64.lt_of_le_of_lt hle' hlt')
  exact UInt64.lt_irrefl _ (UInt64.lt_of_lt_of_le hlt (UInt64.le_trans hstop hle'))

theorem NoOverlap.disjoint (h : NoOverlap regions) : DisjointRegions regions :=
  disjointRegions_of_filter (Pairwise.filter _ h)

theorem NoOverlap.later (h : NoOverlap regions) (hr : regions[index]? = some r) :
    ∀ r' ∈ regions.drop (index + 1), r.vmAddrRange.stop ≤ r'.vmAddr := by
  obtain ⟨hi, rfl⟩ := getElem?_eq_some_iff.mp hr
  have hdrop := Pairwise.drop (i := index) h
  rw [drop_eq_getElem_cons hi] at hdrop
  exact (pairwise_cons.mp hdrop).1

theorem starts_set (hold : regions[index]? = some old) (hstart : old.vmAddr = region.vmAddr) :
    (regions.set index region).map (·.vmAddr) = regions.map (·.vmAddr) := by
  obtain ⟨hi, rfl⟩ := getElem?_eq_some_iff.mp hold
  rw [map_set, ← hstart, ← getElem_map vmAddr, set_getElem_self]
  rwa [length_map]

/-- A region that starts where the old one did and ends before the next one. -/
theorem NoOverlap.set (h : NoOverlap regions)
    (hold : regions[index]? = some old) (hstart : old.vmAddr = region.vmAddr)
    (hstop : ∀ next, regions[index + 1]? = some next → region.vmAddrRange.stop ≤ next.vmAddr) :
    NoOverlap (regions.set index region) := by
  rw [NoOverlap, pairwise_iff_getElem] at h ⊢
  obtain ⟨hi, hget⟩ := getElem?_eq_some_iff.mp hold
  intro j k hj hk hjk
  rw [length_set] at hj hk
  rw [getElem_set, getElem_set]
  by_cases hij : index = j
  · rw [if_pos hij, if_neg (by omega)]
    have hnext : index + 1 < regions.length := by omega
    refine UInt64.le_trans (hstop _ (getElem?_eq_getElem hnext)) ?_
    by_cases hk' : k = index + 1
    · subst hk'
      exact UInt64.le_refl _
    · exact UInt64.le_trans (start_le_stop _) (h (index + 1) k hnext hk (by omega))
  · rw [if_neg hij]
    split
    · rename_i hik
      subst hik
      rw [← hstart, ← hget]
      exact h j index hj hi hjk
    · exact h j k hj hk hjk

theorem noOverlap_of_overlapAt (h : overlapAt regions = none) : NoOverlap regions := by
  fun_induction overlapAt regions with
  | case1 first second rest hlt => cases h
  | case2 first second rest hle ih =>
    have htail := ih (Option.map_eq_none_iff.mp h)
    have hfirst : first.vmAddrRange.stop ≤ second.vmAddr := UInt64.not_lt.mp hle
    refine pairwise_cons.mpr ⟨fun r hr => ?_, htail⟩
    rcases mem_cons.mp hr with rfl | hr
    · exact hfirst
    · exact UInt64.le_trans hfirst
        (UInt64.le_trans second.start_le_stop ((pairwise_cons.mp htail).1 r hr))
  | case3 regions hshort =>
    match regions, hshort with
    | [], _ => exact List.Pairwise.nil
    | [r], _ => exact pairwise_singleton _ _
    | a :: b :: l, hshort => exact absurd rfl (hshort a b l)

/-! ## The search of the unaligned mapping -/

namespace UnalignedMemoryMapping

/-- What the lookup of an address is to find: the last region that starts at or below it. -/
def Finds (regions : List MemoryRegion) (vmAddr : UInt64) : Option (Nat × MemoryRegion) → Prop
  | some (index, r) =>
    regions[index]? = some r ∧ r.vmAddr ≤ vmAddr ∧ ∀ r' ∈ regions.drop (index + 1), vmAddr < r'.vmAddr
  | none => ∀ r ∈ regions, vmAddr < r.vmAddr

section Search

variable {vmAddr : UInt64} {before after : List Nat}

/-- The start at a node of the tree. -/
def startAt (addresses : List UInt64) (node : Nat) : UInt64 := addresses[node]?.getD 0

theorem lastRight_double (h : 0 < index) : lastRight (2 * index) = lastRight index := by
  rw [lastRight, if_neg (by omega), if_pos (Nat.mul_mod_right 2 index), Nat.mul_div_cancel_left _ (by decide)]

theorem lastRight_succ_double (index : Nat) : lastRight (2 * index + 1) = index := by
  rw [lastRight, if_neg (by omega), if_neg (by omega)]
  omega

/-- The nodes in order: those whose start is not above the address, those still to be
searched, and those whose start is above it. -/
structure Splits (addresses : List UInt64) (vmAddr : UInt64) (before middle after : List Nat) : Prop where
  nodes : inorder addresses.length 0 = before ++ (middle ++ after)
  before : ∀ x ∈ before, startAt addresses x ≤ vmAddr
  after : ∀ x ∈ after, vmAddr < startAt addresses x

variable (hsorted : (inorder addresses.length 0).Pairwise fun x y => startAt addresses x ≤ startAt addresses y)

include hsorted

/-- One step of the search, to the left or to the right of a node. -/
theorem Splits.step (h : Splits addresses vmAddr before (left ++ node :: right) after) :
    (vmAddr < startAt addresses node → Splits addresses vmAddr before left (node :: right ++ after)) ∧
    (startAt addresses node ≤ vmAddr → Splits addresses vmAddr (before ++ left ++ [node]) right after) := by
  rw [h.nodes] at hsorted
  obtain ⟨-, hnode, hleft⟩ := pairwise_append.mp
    (pairwise_append.mp (pairwise_append.mp hsorted).2.1).1
  refine ⟨fun hlt => ⟨by simp [h.nodes], h.before, fun x hx => ?_⟩, fun hle => ⟨by simp [h.nodes], fun x hx => ?_, h.after⟩⟩
  · rcases mem_append.mp hx with hx | hx
    · rcases mem_cons.mp hx with rfl | hx
      · exact hlt
      · exact UInt64.lt_of_lt_of_le hlt ((pairwise_cons.mp hnode).1 x hx)
    · exact h.after x hx
  · rcases mem_append.mp hx with hx | hx
    · rcases mem_append.mp hx with hx | hx
      · exact h.before x hx
      · exact UInt64.le_trans (hleft x hx node mem_cons_self) hle
    · exact mem_singleton.mp hx ▸ hle

/-- The search ends below the last node whose start is not above the address. -/
theorem search_splits
    (hpos : 0 < index) (h : Splits addresses vmAddr before (inorder addresses.length (index - 1)) after)
    (hlast : lastRight index = (before.getLast?.map (· + 1)).getD 0) :
    ∃ before after, Splits addresses vmAddr before [] after ∧
      lastRight (search addresses vmAddr index) = (before.getLast?.map (· + 1)).getD 0 := by
  fun_induction search addresses vmAddr index generalizing before after with
  | case1 index hi ih =>
    rw [inorder, if_neg (by omega), show 2 * (index - 1) + 1 = 2 * index - 1 by omega,
      show 2 * (index - 1) + 2 = 2 * index + 1 - 1 by omega] at h
    obtain ⟨hleft, hright⟩ := h.step hsorted
    by_cases hle : addresses[index - 1]?.getD 0 ≤ vmAddr
    · simp only [hle, dite_true] at ih ⊢
      refine ih (by omega) (hright hle) ?_
      rw [lastRight_succ_double, getLast?_concat, Option.map_some, Option.getD_some]
      omega
    · simp only [hle] at ih ⊢
      exact ih (by omega) (hleft (UInt64.not_le.mp hle)) ((lastRight_double hpos).trans hlast)
  | case2 index hi =>
    rw [inorder, if_pos (by omega)] at h
    exact ⟨before, after, h, hlast⟩

end Search

/-- The entries of the tables at a node. -/
def entryAt (m : UnalignedMemoryMapping) (node : Nat) : Option Nat × Option UInt64 :=
  (m.regionIndexLookup[node]?, m.regionAddresses[node]?)

/-- The nodes of a subtree get the regions from `inIndex` on, in order. -/
theorem go_eq_foldlM (n : Nat) (m) (inIndex outIndex : Nat) :
    constructEytzingerOrder.go n m inIndex outIndex =
      (((inorder n outIndex).zipIdx inIndex).foldlM writeNode m).map
        (·, inIndex + (inorder n outIndex).length, (inorder n outIndex).zipIdx inIndex) := by
  induction hsize : n - outIndex using Nat.strong_induction_on generalizing m inIndex outIndex with
  | _ size ih =>
    rw [constructEytzingerOrder.go, inorder]
    by_cases h : outIndex ≥ n
    · rw [if_pos h, if_pos h]
      rfl
    · rw [if_neg h, if_neg h, ih _ (by omega) _ _ _ rfl, zipIdx_append, foldlM_append, mul_comm 2]
      cases hleft : ((inorder n (outIndex * 2 + 1)).zipIdx inIndex).foldlM writeNode m with
      | none => rfl
      | some m1 =>
        simp only [Option.map_some, Option.bind_eq_bind, Option.bind_some, zipIdx_cons, foldlM_cons]
        cases hnode : m1.writeNode (outIndex, inIndex + (inorder n (outIndex * 2 + 1)).length) with
        | none => rfl
        | some m2 =>
          simp only [Option.bind_some]
          rw [ih _ (by omega) _ _ _ rfl]
          cases ((inorder n (outIndex * 2 + 2)).zipIdx _).foldlM writeNode m2 with
          | none => rfl
          | some m3 =>
            simp only [Option.map_some, Option.bind_some, length_append, length_cons]
            rw [Nat.add_assoc, Nat.add_assoc, Nat.add_comm 1]
            rfl

/-- What writing nodes leaves: in order they have the regions from `inIndex` on. -/
structure Filled (m m' : UnalignedMemoryMapping) (written : List Nat) (inIndex : Nat) : Prop where
  regions : m'.regions = m.regions
  cache : m'.cache = m.cache
  addresses : m'.regionAddresses.length = m.regionAddresses.length
  lookup : m'.regionIndexLookup.length = m.regionIndexLookup.length
  nodes : ∀ j x, written[j]? = some x →
    m'.entryAt x = (some (inIndex + j), m.regions[inIndex + j]?.map (·.vmAddr))
  others : ∀ x ∉ written, m'.entryAt x = m.entryAt x

theorem writeNode_eq {m : UnalignedMemoryMapping} (hr : m.regions[index]? = some r)
    (haddresses : node < m.regionAddresses.length) (hlookup : node < m.regionIndexLookup.length) :
    m.writeNode (node, index) = some { m with
      regionAddresses := m.regionAddresses.set node r.vmAddr
      regionIndexLookup := m.regionIndexLookup.set node index } := by
  rw [writeNode, hr]
  exact if_pos ⟨haddresses, hlookup⟩

/-- Nodes and regions that exist are written without a panic. -/
theorem filled_foldlM {m : UnalignedMemoryMapping} (hnodup : nodes.Nodup)
    (hlookup : ∀ x ∈ nodes, x < m.regionIndexLookup.length) (haddresses : ∀ x ∈ nodes, x < m.regionAddresses.length)
    (hregions : inIndex + nodes.length ≤ m.regions.length) :
    ∃ m', (nodes.zipIdx inIndex).foldlM writeNode m = some m' ∧ Filled m m' nodes inIndex := by
  induction nodes generalizing inIndex m with
  | nil => exact ⟨m, rfl, rfl, rfl, rfl, rfl, nofun, fun _ _ => rfl⟩
  | cons node nodes ih =>
    obtain ⟨hnode, hnodup⟩ := nodup_cons.mp hnodup
    obtain ⟨hnodel, hlookup⟩ := forall_mem_cons.mp hlookup
    obtain ⟨hnodea, haddresses⟩ := forall_mem_cons.mp haddresses
    rw [length_cons] at hregions
    have hr : m.regions[inIndex]? = some _ := getElem?_eq_getElem (by omega)
    obtain ⟨m', hm', h⟩ := ih
      (m := { m with
        regionAddresses := m.regionAddresses.set node (m.regions.get ⟨inIndex, by omega⟩).vmAddr
        regionIndexLookup := m.regionIndexLookup.set node inIndex })
      hnodup (by simpa only [length_set] using hlookup) (by simpa only [length_set] using haddresses)
      (by omega : inIndex + 1 + nodes.length ≤ m.regions.length)
    refine ⟨m', ?_, h.regions, h.cache, h.addresses.trans length_set, h.lookup.trans length_set, fun j x hx => ?_,
      fun x hx => ?_⟩
    · rw [zipIdx_cons, foldlM_cons, writeNode_eq hr hnodea hnodel]
      exact hm'
    · cases j with
      | zero =>
        cases hx
        rw [h.others _ hnode, entryAt, getElem?_set_self hnodel, getElem?_set_self hnodea, add_zero, hr]
        rfl
      | succ j => rw [h.nodes j x hx, add_right_comm, add_assoc]
    · obtain ⟨hne, hx⟩ := ne_and_not_mem_of_not_mem_cons hx
      rw [h.others x hx, entryAt, getElem?_set_ne hne.symm, getElem?_set_ne hne.symm]
      rfl

/-- The nodes of the tree in order have the regions in order, and what is cached is the
range of a region. -/
structure InBounds (m : UnalignedMemoryMapping) : Prop where
  addresses : m.regionAddresses.length = m.regions.length
  nodes : ∀ j x, (inorder m.regions.length 0)[j]? = some x →
    m.entryAt x = (some j, (m.regions.map (·.vmAddr))[j]?)
  cache : ∀ (i : Fin 4) (vmAddr : UInt64), m.cache.entries[i].1.contains vmAddr = true →
    ∃ r, m.regions[m.cache.entries[i].2]? = some r ∧ m.cache.entries[i].1 = r.vmAddrRange
  noOverlap : NoOverlap m.regions

theorem not_contains_empty (vmAddr) (i : Fin 4) :
    MappingCache.new.entries[i].1.contains vmAddr ≠ true := by
  have hentry : MappingCache.new.entries[i] = (⟨0, 0⟩, 0) := by
    simp [MappingCache.new]
  rw [hentry, VmRange.contains]
  simp

/-- The sorted regions, before the tables are filled. -/
def sorted (regions : List MemoryRegion) : UnalignedMemoryMapping :=
  { newUninitialized regions with regions := sort regions }

/-- The tables are filled without a panic. -/
theorem filled_constructEytzingerOrder (regions) : ∃ m,
    (sorted regions).constructEytzingerOrder 0 0 = some (m, regions.length, (inorder regions.length 0).zipIdx) ∧
      Filled (sorted regions) m (inorder regions.length 0) 0 := by
  have hlen : (sorted regions).regions.length = regions.length := length_insertionSort ..
  have hbelow {α : Type} (a : α) : ∀ x ∈ inorder regions.length 0, x < (replicate regions.length a).length :=
    fun x hx => by
      rw [length_replicate]
      exact (below_of_mem hx).1
  have hlength := length_inorder regions.length
  obtain ⟨m, hm, hf⟩ := filled_foldlM (m := sorted regions) (nodup_inorder regions.length 0) (hbelow 0)
    (hbelow 0) (by rw [hlen, hlength, zero_add])
  refine ⟨m, ?_, hf⟩
  rw [constructEytzingerOrder, go_eq_foldlM, hlen, hm, Option.map_some, hlength, zero_add]

/-- Regions are refused because they overlap, or the tables are filled. -/
theorem initializeRegions_cases (regions) :
    (∃ index, overlapAt (sort regions) = some index ∧
      (newUninitialized regions).initializeRegions = .error (.error (.InvalidMemoryRegion index))) ∨
    overlapAt (sort regions) = none ∧ ∃ m, (newUninitialized regions).initializeRegions = .ok m ∧
      (sorted regions).constructEytzingerOrder 0 0 = some (m, regions.length, (inorder regions.length 0).zipIdx) ∧
      Filled (sorted regions) m (inorder regions.length 0) 0 := by
  obtain ⟨m, hm, hf⟩ := filled_constructEytzingerOrder regions
  cases hoverlap : overlapAt (sort regions) with
  | some index =>
    refine .inl ⟨index, rfl, ?_⟩
    simp only [initializeRegions, newUninitialized, hoverlap]
  | none =>
    refine .inr ⟨rfl, m, ?_, hm, hf⟩
    simp only [sorted, newUninitialized] at hm
    simp only [initializeRegions, newUninitialized, hoverlap, hm]

theorem filled_initializeRegions {m : UnalignedMemoryMapping}
    (h : (newUninitialized regions).initializeRegions = .ok m) :
    NoOverlap (sort regions) ∧ Filled (sorted regions) m (inorder regions.length 0) 0 ∧
      (sorted regions).constructEytzingerOrder 0 0 = some (m, regions.length, (inorder regions.length 0).zipIdx) := by
  obtain ⟨index, -, herror⟩ | ⟨hoverlap, m', hm', hconstruct, hf⟩ := initializeRegions_cases regions
  · rw [herror] at h
    cases h
  · rw [hm'] at h
    cases h
    exact ⟨noOverlap_of_overlapAt hoverlap, hf, hconstruct⟩

theorem inBounds_initializeRegions {m : UnalignedMemoryMapping}
    (h : (newUninitialized regions).initializeRegions = .ok m) : m.InBounds ∧ m.regions = sort regions := by
  obtain ⟨hoverlap, hf, -⟩ := filled_initializeRegions h
  have hregions : m.regions = sort regions := hf.regions
  have hlen : (sort regions).length = regions.length := length_insertionSort ..
  refine ⟨⟨?_, ?_, ?_, ?_⟩, hregions⟩
  · rw [hf.addresses, hregions, hlen]
    exact length_replicate
  · intro j x hx
    rw [hregions, hlen] at hx
    rw [hregions, hf.nodes j x hx, getElem?_map, zero_add]
    rfl
  · intro i vmAddr hc
    rw [hf.cache] at hc
    exact absurd hc (not_contains_empty vmAddr i)
  · rwa [hregions]

theorem find_eq_some {c : MappingCache} {vmAddr : UInt64} (h : c.find vmAddr = some index) :
    ∃ i : Fin 4, c.entries[i].1.contains vmAddr = true ∧ c.entries[i].2 = index := by
  simp only [MappingCache.find, Option.map_eq_some_iff] at h
  obtain ⟨i, hi, rfl⟩ := h
  have hcontains := find?_some hi
  exact ⟨c.head + i, hcontains, rfl⟩

namespace InBounds

variable {m : UnalignedMemoryMapping} {vmAddr : UInt64}

/-- The node of a region, and the start there. -/
theorem node (h : m.InBounds) (hr : m.regions[j]? = some r) :
    ∃ x, (inorder m.regionAddresses.length 0)[j]? = some x ∧ m.regionIndexLookup[x]? = some j ∧
      startAt m.regionAddresses x = r.vmAddr := by
  have hj := (getElem?_eq_some_iff.mp hr).1
  obtain ⟨x, hx⟩ : ∃ x, (inorder m.regions.length 0)[j]? = some x :=
    ⟨_, getElem?_eq_getElem (by rwa [length_inorder])⟩
  have hentry := h.nodes j x hx
  rw [entryAt, Prod.mk.injEq, getElem?_map, hr] at hentry
  exact ⟨x, h.addresses ▸ hx, hentry.1, by rw [startAt, hentry.2]; rfl⟩

/-- The search tells the regions apart, and ends at the last that starts at or below the
address. -/
theorem search (h : m.InBounds) (vmAddr) :
    ∃ count, (∀ j r, m.regions[j]? = some r → if j < count then r.vmAddr ≤ vmAddr else vmAddr < r.vmAddr) ∧
      (count = 0 ∧ lastRight (search m.regionAddresses vmAddr 1) = 0 ∨
        ∃ j r, count = j + 1 ∧ m.regions[j]? = some r ∧ 0 < lastRight (search m.regionAddresses vmAddr 1) ∧
          m.regionIndexLookup[lastRight (search m.regionAddresses vmAddr 1) - 1]? = some j) := by
  have hsorted : (inorder m.regionAddresses.length 0).Pairwise
      fun x y => startAt m.regionAddresses x ≤ startAt m.regionAddresses y := by
    rw [pairwise_iff_getElem]
    intro i j hi hj hij
    rw [length_inorder, h.addresses] at hi hj
    obtain ⟨x, hx, -, hxs⟩ := h.node (getElem?_eq_getElem hi)
    obtain ⟨y, hy, -, hys⟩ := h.node (getElem?_eq_getElem hj)
    rw [(getElem?_eq_some_iff.mp hx).2, (getElem?_eq_some_iff.mp hy).2, hxs, hys]
    exact pairwise_iff_getElem.mp h.noOverlap.sorted i j hi hj hij
  obtain ⟨before, after, hs, hlast⟩ := search_splits hsorted one_pos
    (show Splits _ vmAddr [] _ [] from ⟨(append_nil _).symm, nofun, nofun⟩) (lastRight_succ_double 0)
  have hnodes := hs.nodes
  refine ⟨before.length, fun j r hr => ?_, ?_⟩
  · obtain ⟨x, hx, -, hstart⟩ := h.node hr
    rw [hnodes] at hx
    rw [← hstart]
    split
    · rename_i hj
      rw [getElem?_append_left hj] at hx
      exact hs.before x (mem_of_getElem? hx)
    · rename_i hj
      rw [getElem?_append_right (Nat.not_lt.mp hj)] at hx
      exact hs.after x (mem_of_getElem? hx)
  · rw [hlast]
    rcases eq_nil_or_concat before with rfl | ⟨front, x, rfl⟩
    · exact .inl ⟨rfl, rfl⟩
    · have hlen : front.length < m.regions.length := by
        rw [← h.addresses, ← length_inorder m.regionAddresses.length, hnodes]
        simp
      obtain ⟨y, hy, hindex, -⟩ := h.node (getElem?_eq_getElem hlen)
      rw [hnodes] at hy
      obtain rfl : x = y := by simpa using hy
      exact .inr ⟨front.length, _, by simp, getElem?_eq_getElem hlen, by simp, by simpa using hindex⟩

/-- A lookup finds what it is to find. -/
theorem findRegion (h : m.InBounds) (pastEnd) (vmAddr) :
    (m.findRegion pastEnd vmAddr).2.InBounds ∧ (m.findRegion pastEnd vmAddr).2.regions = m.regions ∧
    Finds m.regions vmAddr (m.findRegion pastEnd vmAddr).1 := by
  simp only [UnalignedMemoryMapping.findRegion]
  split
  · rename_i index hfind
    obtain ⟨i, hi, rfl⟩ := find_eq_some hfind
    obtain ⟨r, hr, hrange⟩ := h.cache i vmAddr hi
    rw [hrange, VmRange.contains, decide_eq_true_eq, vmAddrRange_start] at hi
    rw [hr]
    exact ⟨h, rfl, hr, hi.1, fun r' hr' => UInt64.lt_of_lt_of_le hi.2 (h.noOverlap.later hr r' hr')⟩
  · obtain ⟨count, hsplit, ⟨rfl, hnode⟩ | ⟨j, r, rfl, hr, hpos, hindex⟩⟩ := h.search vmAddr
    · rw [if_pos hnode]
      refine ⟨h, rfl, fun r hr => ?_⟩
      obtain ⟨j, hj⟩ := mem_iff_getElem?.mp hr
      exact hsplit j r hj
    · rw [if_neg (ne_of_gt hpos), hindex, Option.getD_some, hr]
      refine ⟨⟨h.addresses, h.nodes, ?_, h.noOverlap⟩, rfl, hr, ?_, fun r' hr' => ?_⟩
      · intro i a hc
        simp only [MappingCache.insert, Fin.getElem_fin, Vector.getElem_set] at hc ⊢
        split
        · exact ⟨r, hr, rfl⟩
        · rename_i hi
          rw [if_neg hi] at hc
          exact h.cache i a hc
      · simpa using hsplit j r hr
      · obtain ⟨k, hk⟩ := mem_iff_getElem?.mp hr'
        rw [getElem?_drop] at hk
        simpa [show ¬ j + 1 + k < j + 1 by omega] using hsplit (j + 1 + k) r' hk

/-- A region that starts where the old one did keeps the tables as they are. -/
theorem replaceRegion (h : m.InBounds) (hold : m.regions[index]? = some old) (hstart : old.vmAddr = region.vmAddr)
    (hstop : ∀ next, m.regions[index + 1]? = some next → region.vmAddrRange.stop ≤ next.vmAddr) :
    InBounds { m with regions := m.regions.set index region, cache := m.cache.flush } := by
  refine ⟨h.addresses.trans length_set.symm, fun j x hx => ?_,
    fun i a hc => absurd hc (not_contains_empty a i), h.noOverlap.set hold hstart hstop⟩
  rw [length_set] at hx
  rw [starts_set hold hstart]
  exact h.nodes j x hx

end InBounds

end UnalignedMemoryMapping

/-! ## Regions in their windows -/

namespace AlignedMemoryMapping

/-- Each region is at the index of its window, from `first` on. -/
def Placed (first : Nat) (regions : List MemoryRegion) : Prop :=
  ∀ i r, regions[i]? = some r → windowOf r.vmAddr = first + i

variable {first : Nat}

theorem window_le (vmAddr) :
    2 ^ 32 * windowOf vmAddr ≤ vmAddr.toNat ∧ vmAddr.toNat < 2 ^ 32 * (windowOf vmAddr + 1) := by
  rw [windowOf, VIRTUAL_ADDRESS_BITS]
  omega

theorem Placed.noOverlap (h : Placed first regions) (hwindow : ∀ r ∈ regions, r.WithinWindow) : NoOverlap regions := by
  rw [NoOverlap, pairwise_iff_getElem]
  intro i j hi hj hij
  have hwi := h i _ (getElem?_eq_getElem hi)
  have hwj := h j _ (getElem?_eq_getElem hj)
  have hend := hwindow _ (getElem_mem hi)
  have hstart := (window_le regions[j].vmAddr).1
  rw [MemoryRegion.WithinWindow, VIRTUAL_ADDRESS_BITS] at hend
  rw [UInt64.le_iff_toNat_le]
  omega

theorem placed_of_misplacedAt (h : misplacedAt first regions = none) : Placed first regions := by
  induction regions generalizing first with
  | nil => nofun
  | cons region rest ih =>
    rw [misplacedAt] at h
    split at h
    · cases h
    rename_i hwindow
    intro i r hr
    cases i with
    | zero => exact Option.some.inj hr ▸ not_not.mp hwindow
    | succ i => rw [ih h i r hr, add_right_comm, add_assoc]

/-- What filling the windows leaves: the regions, and empty ones between them. -/
structure Arranged (emptySlice : UInt64) (regions arranged : List MemoryRegion) : Prop where
  subperm : regions.Subperm arranged
  real : ∀ r ∈ arranged, r ∈ regions ∨ ∃ vmAddr, r = emptyRegion emptySlice vmAddr

theorem window_fill {i : Nat} (hi : i < 2 ^ 32) : windowOf (U64.satMul (.ofNat i) MM_REGION_SIZE) = i := by
  have hsize : MM_REGION_SIZE.toNat = 2 ^ 32 := by decide
  rw [windowOf, U64.toNat_satMul, UInt64.toNat_ofNat', hsize, Nat.mod_eq_of_lt (by omega), min_eq_left (by omega)]
  exact Nat.mul_div_cancel i (by decide)

theorem fillGaps_ok (h : fillGaps emptySlice first regions = .ok filled) :
    Placed first filled ∧ Arranged emptySlice regions filled := by
  induction regions generalizing first filled with
  | nil =>
    cases h
    exact ⟨nofun, List.Subperm.refl _, nofun⟩
  | cons region rest ih =>
    simp only [fillGaps] at h
    have hlt : windowOf region.vmAddr < 2 ^ 32 := by
      have := region.vmAddr.toNat_lt
      rw [windowOf, VIRTUAL_ADDRESS_BITS]
      omega
    generalize hwindow : windowOf region.vmAddr = window at h hlt
    split at h
    · cases h
    obtain ⟨rest', hrest, h⟩ := except_inv h
    cases h
    obtain ⟨hplaced, harranged⟩ := ih hrest
    refine ⟨fun i r hr => ?_, ?_, fun r hr => ?_⟩
    · rcases lt_or_ge i (window - first) with hi | hi
      · rw [getElem?_append_left (by simpa using hi), getElem?_map, getElem?_range' hi] at hr
        cases hr
        rw [one_mul]
        exact window_fill (by omega)
      · rw [getElem?_append_right (by simpa using hi), length_map, length_range'] at hr
        cases hk : i - (window - first) with
        | zero =>
          rw [hk] at hr
          cases hr
          omega
        | succ k =>
          rw [hk] at hr
          have := hplaced k r hr
          omega
    · exact ((subperm_cons region).mpr harranged.subperm).trans (sublist_append_right _ _).subperm
    · rcases mem_append.mp hr with hr | hr
      · obtain ⟨i, -, rfl⟩ := mem_map.mp hr
        exact .inr ⟨_, rfl⟩
      · rcases mem_cons.mp hr with rfl | hr
        · exact .inl mem_cons_self
        · exact (harranged.real r hr).imp_left (mem_cons_of_mem _)

theorem perm_sort (regions) : (sort regions).Perm regions :=
  perm_insertionSort _ _

/-- What initializing leaves. Without a region in the first window there is an empty one
there, besides the regions that were given. -/
theorem initializeRegions_ok {m : AlignedMemoryMapping} (h : m.initializeRegions emptySlice = .ok m') :
    Placed 0 m'.regions ∧ Arranged emptySlice m.regions m'.regions ∧
    m'.allowMemoryRegionZero = m.allowMemoryRegionZero ∧
    (m.allowMemoryRegionZero = false → (emptyRegion emptySlice 0 :: m.regions).Subperm m'.regions) := by
  rw [initializeRegions] at h
  split at h
  · rename_i hallow
    obtain ⟨regions, hfill, h⟩ := except_inv h
    cases h
    obtain ⟨hplaced, harranged⟩ := fillGaps_ok hfill
    exact ⟨hplaced, ⟨(perm_sort _).symm.subperm.trans harranged.subperm,
      fun r hr => (harranged.real r hr).imp_left (perm_sort _).mem_iff.mp⟩, rfl, fun hno => by simp [hno] at hallow⟩
  · dsimp only at h
    split at h
    · cases h
    rename_i hplaced
    cases h
    have hperm := perm_sort (m.regions ++ [emptyRegion emptySlice 0])
    refine ⟨placed_of_misplacedAt hplaced, ⟨(sublist_append_left _ _).subperm.trans hperm.symm.subperm,
      fun r hr => ?_⟩, rfl, fun _ => ?_⟩
    · rcases mem_append.mp (hperm.mem_iff.mp hr) with hr | hr
      · exact .inl hr
      · exact .inr ⟨0, mem_singleton.mp hr⟩
    · exact (perm_append_singleton _ _).symm.subperm.trans hperm.symm.subperm

theorem hostValid_emptyRegion (emptySlice vmAddr) : (emptyRegion emptySlice vmAddr).HostValid :=
  emptySlice.toNat_lt

theorem withinWindow_emptyRegion (emptySlice vmAddr) : (emptyRegion emptySlice vmAddr).WithinWindow := by
  have hstop : (emptyRegion emptySlice vmAddr).vmAddrRange.stop.toNat = vmAddr.toNat := by
    have := vmAddr.toNat_lt
    show (U64.satAdd vmAddr 0).toNat = _
    rw [U64.toNat_satAdd]
    show min (vmAddr.toNat + 0) _ = _
    omega
  rw [MemoryRegion.WithinWindow, hstop]
  exact le_of_lt (window_le vmAddr).2

/-- What holds of empty regions and of the regions that were given. -/
theorem Arranged.forall {P : MemoryRegion → Prop}
    (h : Arranged emptySlice regions arranged) (hempty : ∀ vmAddr, P (emptyRegion emptySlice vmAddr))
    (hregions : ∀ r ∈ regions, P r) : ∀ r ∈ arranged, P r := by
  intro r hr
  rcases h.real r hr with hr | ⟨vmAddr, rfl⟩
  · exact hregions r hr
  · exact hempty vmAddr

end AlignedMemoryMapping

/-! ## Uses of a mapping -/

namespace MemoryMapping

/-- Lookups find their way: the regions of the aligned mapping are at the index of their
window, and the tables of the unaligned one are in order. -/
def InBounds (m : MemoryMapping) : Prop :=
  match m.ty with
  | .Aligned inner => AlignedMemoryMapping.Placed 0 inner.regions
  | .Unaligned inner => inner.InBounds

variable (host : Host)

theorem InBounds.findRegion (h : m.InBounds) (vmAddr) :
    (m.findRegion host vmAddr).2.InBounds ∧ (m.findRegion host vmAddr).2.getRegions = m.getRegions ∧
    (m.findRegion host vmAddr).2.disableAddressTranslation = m.disableAddressTranslation ∧
    ∀ index region, (m.findRegion host vmAddr).1 = some (index, region) → m.getRegions[index]? = some region := by
  simp only [InBounds, MemoryMapping.findRegion, getRegions] at h ⊢
  cases hty : m.ty with
  | Aligned inner =>
    simp only [hty] at h ⊢
    refine ⟨h, trivial, trivial, fun index region heq => ?_⟩
    simp only [AlignedMemoryMapping.findRegion] at heq
    split at heq
    · simp only [Option.map_eq_some_iff] at heq
      obtain ⟨r, hr, rfl, rfl⟩ := heq
      exact hr
    · cases heq
  | Unaligned inner =>
    simp only [hty] at h ⊢
    obtain ⟨h1, h2, h3⟩ := h.findRegion host.pastEnd vmAddr
    refine ⟨h1, h2, trivial, fun index region heq => ?_⟩
    rw [heq] at h3
    exact h3.1

/-- The mapping with another region, and an empty cache. -/
def setRegion (index : Nat) (region : MemoryRegion) : MemoryMappingType → MemoryMappingType
  | .Aligned inner => .Aligned { inner with regions := inner.regions.set index region }
  | .Unaligned inner => .Unaligned { inner with regions := inner.regions.set index region, cache := inner.cache.flush }

/-- What a successful replacement checked and did. -/
structure Replaced (m m' : MemoryMapping) (index : Nat) (region : MemoryRegion) : Prop where
  start : ∃ old, m.getRegions[index]? = some old ∧ old.vmAddr = region.vmAddr
  stop : ∀ next, m.getRegions[index + 1]? = some next → region.vmAddrRange.stop ≤ next.vmAddr
  ty : m'.ty = setRegion index region m.ty
  inBounds : m.InBounds → m'.InBounds
  translates : m'.disableAddressTranslation = m.disableAddressTranslation

theorem Replaced.getRegions_eq (h : Replaced m m' index region) : m'.getRegions = m.getRegions.set index region := by
  rw [getRegions, h.ty, getRegions]
  cases m.ty <;> rfl

theorem replaceRegion_ok (h : m.replaceRegion index region = .ok m') : Replaced m m' index region := by
  simp only [replaceRegion] at h
  split at h
  · cases h
  rename_i old hold
  split at h
  · cases h
  rename_i hchecks
  simp only [not_or, not_not, UInt64.not_lt] at hchecks
  have hstop : ∀ next, m.getRegions[index + 1]? = some next → region.vmAddrRange.stop ≤ next.vmAddr := by
    intro next hnext
    rw [nextRegionStart, hnext] at hchecks
    exact hchecks.2
  cases hty : m.ty with
  | Aligned inner =>
    simp only [hty] at h
    obtain ⟨inner', hinner, h⟩ := except_inv h
    cases h
    simp only [AlignedMemoryMapping.replaceRegion] at hinner
    split at hinner
    · cases hinner
    rename_i hwindow
    cases hinner
    refine ⟨⟨old, hold, hchecks.1⟩, hstop, by rw [hty]; rfl, fun hin i r hr => ?_, rfl⟩
    simp only [InBounds, hty] at hin
    rw [getElem?_set] at hr
    split at hr
    · rename_i hi
      subst hi
      split at hr
      · cases hr
        rw [zero_add]
        exact not_not.mp (not_or.mp hwindow).1
      · cases hr
    · exact hin i r hr
  | Unaligned inner =>
    simp only [hty] at h
    cases h
    refine ⟨⟨old, hold, hchecks.1⟩, hstop, by rw [hty]; rfl, fun hin => ?_, rfl⟩
    simp only [InBounds, hty, getRegions] at hin hold hstop ⊢
    exact hin.replaceRegion hold hchecks.1 hstop

/-- What every use keeps. -/
structure Inv (m : MemoryMapping) : Prop where
  translates : m.disableAddressTranslation = false
  inBounds : m.InBounds
  valid : ∀ r ∈ m.getRegions, r.HostValid

/-- The regions after one use: as they were, or one of them replaced. -/
def StepRegions (m m' : MemoryMapping) : Prop :=
  m'.getRegions = m.getRegions ∨ ∃ m0 index region, m0.getRegions = m.getRegions ∧ Replaced m0 m' index region

theorem Inv.replaced (h : m.Inv) (hr : Replaced m m' index region) (hvalid : region.HostValid) : m'.Inv := by
  refine ⟨hr.translates.trans h.translates, hr.inBounds h.inBounds, fun r hmem => ?_⟩
  rw [hr.getRegions_eq] at hmem
  rcases mem_or_eq_of_mem_set hmem with hmem | rfl
  · exact h.valid r hmem
  · exact hvalid

theorem Inv.findRegion (h : m.Inv) (vmAddr) :
    (m.findRegion host vmAddr).2.Inv ∧ (m.findRegion host vmAddr).2.getRegions = m.getRegions ∧
    ∀ index region, (m.findRegion host vmAddr).1 = some (index, region) → m.getRegions[index]? = some region := by
  obtain ⟨h1, h2, h3, h4⟩ := h.inBounds.findRegion host vmAddr
  exact ⟨⟨h3.trans h.translates, h1, by rw [h2]; exact h.valid⟩, h2, h4⟩

/-- What a region of the mapping translates is backed. -/
theorem Inv.backed (h : m.Inv) (hr : r ∈ m.getRegions)
    {vmAddr len hostAddr : UInt64} (hh : r.vmToHost accessType vmAddr len = some hostAddr) :
    Backed m accessType vmAddr len hostAddr := by
  obtain ⟨hw, hle, -, hlen, heq⟩ := vmToHost_eq_some.mp hh
  have hvalid : r.hostAddr.toNat + r.len.toNat < 2 ^ 64 := h.valid r hr
  have heq := congrArg UInt64.toNat heq
  rw [U64.toNat_satAdd] at heq
  exact ⟨r, hr, by omega, by omega, hle, hw⟩

theorem Inv.mapWithAccessViolationHandler (h : m.Inv) {handler : AccessViolationHandler σ}
    (hsafe : SafeHandler handler) (s : σ) (accessType) (vmAddr len) :
    let result := m.mapWithAccessViolationHandler host handler s accessType vmAddr len
    result.2.1.Inv ∧ StepRegions m result.2.1 ∧
    ∀ hostAddr, result.1 = .ok hostAddr → Backed result.2.1 accessType vmAddr len hostAddr := by
  obtain ⟨hinv, hregions, hfound⟩ := h.findRegion host vmAddr
  simp only [MemoryMapping.mapWithAccessViolationHandler, h.translates]
  generalize m.findRegion host vmAddr = f at hinv hregions hfound
  obtain ⟨found, m₁⟩ := f
  cases found with
  | none => exact ⟨hinv, .inl hregions, fun _ heq => by cases heq⟩
  | some found =>
    obtain ⟨index, region⟩ := found
    have hmem : region ∈ m₁.getRegions := by
      rw [hregions]
      exact mem_of_getElem? (hfound index region rfl)
    cases hv : region.vmToHost accessType vmAddr len with
    | some a =>
      simp only [hv]
      refine ⟨hinv, .inl hregions, fun _ heq => ?_⟩
      cases heq
      exact hinv.backed hmem hv
    | none =>
      simp only [hv]
      have hhandled := hsafe s region (U64.satSub (m₁.nextRegionStart index) region.vmAddr) accessType vmAddr len
      generalize handler s region (U64.satSub (m₁.nextRegionStart index) region.vmAddr) accessType vmAddr len =
        handled at hhandled
      obtain ⟨s', region'⟩ := handled
      cases hv' : region'.vmToHost accessType vmAddr len with
      | none =>
        exact ⟨hinv, .inl hregions, fun _ heq => by cases heq⟩
      | some a =>
        cases hreplace : m₁.replaceRegion index region' with
        | error e => exact ⟨hinv, .inl hregions, fun _ heq => by cases heq⟩
        | ok m₂ =>
          have hreplaced := replaceRegion_ok hreplace
          have hvalid : region'.HostValid := by
            rcases hhandled with rfl | hvalid
            · exact hinv.valid _ hmem
            · exact hvalid
          have hinv' := hinv.replaced hreplaced hvalid
          refine ⟨hinv', .inr ⟨m₁, index, region', hregions, hreplaced⟩, fun _ heq => ?_⟩
          cases heq
          refine hinv'.backed ?_ hv'
          rw [hreplaced.getRegions_eq]
          obtain ⟨old, hold, -⟩ := hreplaced.start
          exact mem_set (getElem?_eq_some_iff.mp hold).1 _

/-- A translation is one with a handler that leaves the region as it is. -/
theorem map_eq (m : MemoryMapping) (accessType) (vmAddr len) :
    m.map host accessType vmAddr len =
      let result := m.mapWithAccessViolationHandler host (fun s r _ _ _ _ => (s, r)) () accessType vmAddr len
      (result.1, result.2.1) := by
  simp only [MemoryMapping.map, mapWithAccessViolationHandler]
  split
  · rfl
  · cases (m.findRegion host vmAddr).1 with
    | none => rfl
    | some found => cases h : found.2.vmToHost accessType vmAddr len <;> simp [h]

theorem Inv.map (h : m.Inv) (accessType) (vmAddr len) :
    (m.map host accessType vmAddr len).2.Inv ∧ StepRegions m (m.map host accessType vmAddr len).2 ∧
    ∀ hostAddr, (m.map host accessType vmAddr len).1 = .ok hostAddr →
      Backed (m.map host accessType vmAddr len).2 accessType vmAddr len hostAddr := by
  rw [map_eq]
  exact h.mapWithAccessViolationHandler host (fun _ _ _ _ _ _ => .inl rfl) () accessType vmAddr len

theorem Inv.step (h : m.Inv) {op : MappingOp} (hsafe : op.Safe) :
    (op.step host m).Inv ∧ StepRegions m (op.step host m) := by
  cases op with
  | map accessType vmAddr len =>
    obtain ⟨h1, h2, -⟩ := h.map host accessType vmAddr len
    exact ⟨h1, h2⟩
  | mapWithAccessViolationHandler handler accessType vmAddr len =>
    obtain ⟨h1, h2, -⟩ := h.mapWithAccessViolationHandler host hsafe () accessType vmAddr len
    exact ⟨h1, h2⟩
  | replaceRegion index region =>
    simp only [MappingOp.step]
    cases hreplace : m.replaceRegion index region with
    | error e => exact ⟨h, .inl rfl⟩
    | ok m' =>
      have hreplaced := replaceRegion_ok hreplace
      exact ⟨h.replaced hreplaced hsafe, .inr ⟨m, index, region, rfl, hreplaced⟩⟩

end MemoryMapping

/-! ## New mappings -/

theorem mapError_ok {x : Except EbpfError α} (h : x.mapError InitFailure.error = .ok a) : x = .ok a := by
  cases x with
  | error e => cases h
  | ok a' =>
    cases h
    rfl

theorem new_ok (htranslate : config.enableAddressTranslation = true) (hvalid : ∀ r ∈ regions, r.HostValid)
    (h : MemoryMapping.new host regions config version = .ok m) :
    m.Inv ∧ ((∃ inner, m.ty = .Unaligned inner) ∨ (∀ r ∈ regions, r.WithinWindow) → NoOverlap m.getRegions) := by
  simp only [MemoryMapping.new, MemoryMapping.newUninitialized, MemoryMapping.initializeRegions, htranslate] at h
  split at h
  · rename_i inner hty
    split at hty
    · cases hty
      obtain ⟨inner', hinner, h⟩ := except_inv h
      cases h
      obtain ⟨hplaced, harranged, -⟩ := initializeRegions_ok (mapError_ok hinner)
      refine ⟨⟨rfl, hplaced, harranged.forall (hostValid_emptyRegion _) hvalid⟩, ?_⟩
      rintro (⟨inner, hty⟩ | hwindow)
      · cases hty
      · exact hplaced.noOverlap (harranged.forall (withinWindow_emptyRegion _) hwindow)
    · cases hty
  · rename_i inner hty
    split at hty
    · cases hty
    · cases hty
      obtain ⟨inner', hinner, h⟩ := except_inv h
      cases h
      obtain ⟨hbounds, hregions⟩ := inBounds_initializeRegions hinner
      refine ⟨⟨rfl, hbounds, fun r hr => hvalid r ?_⟩, fun _ => hbounds.noOverlap⟩
      have hr : r ∈ inner'.regions := hr
      rw [hregions] at hr
      exact (perm_sort _).mem_iff.mp hr

theorem StepRegions.noOverlap (h : m.StepRegions m') (hno : NoOverlap m.getRegions) : NoOverlap m'.getRegions := by
  rcases h with h | ⟨m0, index, region, hregions, hreplaced⟩
  · rwa [h]
  · obtain ⟨old, hold, hstart⟩ := hreplaced.start
    rw [hreplaced.getRegions_eq, hregions]
    rw [hregions] at hold
    exact hno.set hold hstart (hregions ▸ hreplaced.stop)

/-- Address translation is memory safe: after any safe use of a mapping, what it
translates lies in the host range of one of its regions. Regions that do not overlap
at first stay sorted and disjoint; those of the unaligned mapping do not, nor do
those that keep to their 4 GiB windows. -/
theorem translation_memory_safe {host : Host} {regions : List MemoryRegion} {config : MappingConfig}
    {version : SBPFVersion} {m : MemoryMapping} (htranslate : config.enableAddressTranslation = true)
    (hvalid : ∀ r ∈ regions, r.HostValid) (hnew : MemoryMapping.new host regions config version = .ok m)
    (ops : List MappingOp) (hops : ∀ op ∈ ops, op.Safe) :
    let m' := runs (MappingOp.step host) ops m
    (∀ accessType vmAddr len hostAddr, (m'.map host accessType vmAddr len).1 = .ok hostAddr →
      Backed (m'.map host accessType vmAddr len).2 accessType vmAddr len hostAddr) ∧
    (∀ σ handler (s : σ), SafeHandler handler →
      ∀ accessType vmAddr len hostAddr,
        let result := m'.mapWithAccessViolationHandler host handler s accessType vmAddr len
        result.1 = .ok hostAddr → Backed result.2.1 accessType vmAddr len hostAddr) ∧
    (NoOverlap m.getRegions → SortedRegions m'.getRegions ∧ DisjointRegions m'.getRegions) ∧
    ((∃ inner, m.ty = .Unaligned inner) ∨ (∀ r ∈ regions, r.WithinWindow) → NoOverlap m.getRegions) := by
  intro m'
  obtain ⟨hinv, hno⟩ := new_ok htranslate hvalid hnew
  have hrun : m'.Inv ∧ (NoOverlap m.getRegions → NoOverlap m'.getRegions) := by
    refine runs_induction
      (I := fun m' : MemoryMapping => m'.Inv ∧ (NoOverlap m.getRegions → NoOverlap m'.getRegions)) ?_
      (admitted_of_forall hops) ⟨hinv, id⟩
    rintro op m₁ hsafe ⟨h₁, hno₁⟩
    obtain ⟨h₂, hstep⟩ := h₁.step host hsafe
    exact ⟨h₂, fun h => StepRegions.noOverlap hstep (hno₁ h)⟩
  refine ⟨?_, ?_, fun h => ⟨(hrun.2 h).sorted, (hrun.2 h).disjoint⟩, hno⟩
  · intro accessType vmAddr len
    exact (hrun.1.map host accessType vmAddr len).2.2
  · intro σ handler s hsafe accessType vmAddr len
    exact (hrun.1.mapWithAccessViolationHandler host hsafe s accessType vmAddr len).2.2

namespace SmallMapping

def host : Host := ⟨0x10, ⟨fun _ => 0, fun _ => .new 0 0 false 0⟩⟩

/-- Grows every region to the length, at another host address. -/
def grow (hostAddr len : UInt64) : AccessViolationHandler Unit := fun s r _ _ _ _ =>
  (s, { r with len := len, hostAddr := hostAddr, writable := true })

theorem new_aligned : MemoryMapping.new host [.new 0x1000 16 true 0x100000000] ⟨64, 4096, true, false, true⟩ .V0 =
      .ok ⟨64, 4096, false, .V0, true,
        .Aligned ⟨[.new 0x10 0 false 0, .new 0x1000 16 true 0x100000000], false⟩⟩ := rfl

end SmallMapping

open SmallMapping in
/-- A region of 16 bytes that its handler grows: the next access is backed. -/
theorem translation_memory_safe_grown :
    ∃ m, MemoryMapping.new host [.new 0x1000 16 true 0x100000000] ⟨64, 4096, true, false, true⟩ .V0 = .ok m ∧
      let m' := MappingOp.step host (.mapWithAccessViolationHandler (grow 0x2000 32) .Store 0x100000010 8) m
      (m'.map host .Store 0x100000018 8).1 = .ok 0x2018 ∧
        Backed (m'.map host .Store 0x100000018 8).2 .Store 0x100000018 8 0x2018 := by
  refine ⟨_, new_aligned, rfl, ?_⟩
  have hvalid : ∀ r ∈ [new 0x1000 16 true 0x100000000], r.HostValid := by
    intro r hr
    rw [mem_singleton.mp hr]
    exact show 0x1000 + 16 < 2 ^ 64 by decide
  refine (translation_memory_safe rfl hvalid new_aligned
    [.mapWithAccessViolationHandler (grow 0x2000 32) .Store 0x100000010 8] fun op hop => ?_).1 _ _ _ _ rfl
  rw [mem_singleton.mp hop]
  intro s r maxLen accessType vmAddr len
  exact .inr (show 0x2000 + 32 < 2 ^ 64 by decide)

namespace SmallMapping

/-- Two regions, of which the first covers two windows. -/
def long : MemoryRegion := .new 0x1000 0x200000000 false 0x100000000
def short : MemoryRegion := .new 0x20 1 false 0x400000000

/-- Empty regions fill the windows without a region; one of them lies in the first
region. -/
def filled : MemoryMapping :=
  ⟨64, 4096, false, .V0, true, .Aligned
    ⟨[.new 0x10 0 false 0, long, .new 0x10 0 false 0x200000000, .new 0x10 0 false 0x300000000, short], true⟩⟩

theorem new_filled : MemoryMapping.new host [long, short] ⟨64, 4096, true, true, true⟩ .V0 = .ok filled := rfl

end SmallMapping

open SmallMapping in
/-- Disjoint regions that end up overlapping: a handler grows the empty region that
fills a window, into the region that reaches into that window. -/
theorem regions_overlap_in_window :
    let op := MappingOp.mapWithAccessViolationHandler (grow 0x2000 32) .Load 0x200000000 1
    MemoryMapping.new host [long, short] ⟨64, 4096, true, true, true⟩ .V0 = .ok filled ∧
      (∀ r ∈ [long, short], r.HostValid) ∧ op.Safe ∧
      DisjointRegions [long, short] ∧ DisjointRegions filled.getRegions ∧
      ¬ DisjointRegions (op.step host filled).getRegions := by
  refine ⟨new_filled, ?_, ?_, ?_, ?_, ?_⟩
  · intro r hr
    simp only [mem_cons, not_mem_nil, or_false] at hr
    rcases hr with rfl | rfl
    · exact show 0x1000 + 0x200000000 < 2 ^ 64 by decide
    · exact show 0x20 + 1 < 2 ^ 64 by decide
  · intro s r maxLen accessType vmAddr len
    exact .inr (show 0x2000 + 32 < 2 ^ 64 by decide)
  · exact disjointRegions_of_filter (by unfold NoOverlap; decide)
  · exact disjointRegions_of_filter (by unfold NoOverlap; decide)
  · intro h
    have hpair := pairwise_iff_getElem.mp h 1 2 (by decide) (by decide) (by decide) 0x200000000
    exact hpair (by decide)

end Svm.Sbpf
