import Mathlib.Data.List.Chain
import Svm.Proof.InputInjective
import Svm.Proof.Sbpf.MemoryMapping
import Svm.Spec.InputRegions

/-!
# The regions of the program input

The serializer keeps two running offsets, in the buffer and in guest addresses.
`Serializer.At` relates them: the next byte has the guest address that the layout
with all of the data in it gives it. From it follow

* the addresses that are recorded (`Writes.recorded`);
* what the regions are (`Writes.inOrder`), where the open one counts as the last;
* where a recorded address resolves to (`Writes.located`), since a region that was
  once open stays, perhaps longer, in the final list (`KeepsRegions`).
-/

namespace Svm

open Machine Run Bytes Sbpf Layout MemoryRegion UInt64 List

variable {regions : List MemoryRegion} {starts : UInt64 → Prop} {growth : Nat} {host : UInt64} {direct : Bool}

theorem toNat_MM_INPUT_START : MM_INPUT_START.toNat = 2 ^ 34 := by decide

/-! ## Looking up an address in ordered regions -/

section Lookup

variable {r : MemoryRegion} {vmAddr len : UInt64}

/-- A region ends before the next starts. -/
def Sbpf.MemoryRegion.Before (r r' : MemoryRegion) : Prop :=
  r.vmAddr < r'.vmAddr ∧ r.vmAddr.toNat + r.len.toNat ≤ r'.vmAddr.toNat

theorem regionAt_eq (hordered : regions.Pairwise MemoryRegion.Before) (hmem : r ∈ regions) (hle : r.vmAddr ≤ vmAddr)
    (hbelow : vmAddr = r.vmAddr ∨ vmAddr.toNat < r.vmAddr.toNat + r.len.toNat) : regionAt regions vmAddr = some r := by
  obtain ⟨before, after, rfl⟩ := append_of_mem hmem
  have hafter : ∀ r' ∈ after, ¬ r'.vmAddr ≤ vmAddr := by
    intro r' hr'
    obtain ⟨hlt, hend⟩ := (pairwise_cons.mp (pairwise_append.mp hordered).2.1).1 r' hr'
    rw [le_iff_toNat_le]
    rw [lt_iff_toNat_lt] at hlt
    rcases hbelow with rfl | hbelow <;> omega
  have hnone : after.filter (fun r' => decide (r'.vmAddr ≤ vmAddr)) = [] := by
    simpa using hafter
  rw [regionAt, filter_append, filter_cons, if_pos (decide_eq_true hle), hnone]
  exact getLast?_concat

theorem vmToHost_flat (hgap : r.vmGapShift = 63) (hle : r.vmAddr ≤ vmAddr)
    (hfits : vmAddr.toNat + len.toNat ≤ r.vmAddr.toNat + r.len.toNat)
    (hhost : r.hostAddr.toNat + (vmAddr.toNat - r.vmAddr.toNat) < 2 ^ 64) :
    r.vmToHost .Load vmAddr len = some (r.hostAddr + (vmAddr - r.vmAddr)) := by
  rw [vmToHost_eq_some]
  rw [le_iff_toNat_le] at hle
  refine ⟨nofun, le_iff_toNat_le.mpr hle, fun h => absurd hgap h, ?_, ?_⟩
  · rw [hostOffset, if_pos hgap, U64.toNat_satSub]
    omega
  · rw [hostOffset, if_pos hgap]
    refine UInt64.toNat_inj.mp ?_
    rw [U64.toNat_satAdd, U64.toNat_satSub, UInt64.toNat_add, UInt64.toNat_sub_of_le _ _ (le_iff_toNat_le.mpr hle)]
    omega

theorem locate_eq (hordered : regions.Pairwise MemoryRegion.Before) (hmem : r ∈ regions) (hgap : r.vmGapShift = 63)
    (hle : r.vmAddr ≤ vmAddr) (hbelow : vmAddr = r.vmAddr ∨ vmAddr.toNat < r.vmAddr.toNat + r.len.toNat)
    (hfits : vmAddr.toNat + len.toNat ≤ r.vmAddr.toNat + r.len.toNat)
    (hhost : r.hostAddr.toNat + (vmAddr.toNat - r.vmAddr.toNat) < 2 ^ 64) :
    locate regions vmAddr len = some (r.hostAddr + (vmAddr - r.vmAddr)) := by
  rw [locate, regionAt_eq hordered hmem hle hbelow, Option.bind_some, vmToHost_flat hgap hle hfits hhost]

end Lookup

/-! ## Regions that stay -/

/-- A region, perhaps with more bytes by now. -/
structure Sbpf.MemoryRegion.Within (r r' : MemoryRegion) : Prop where
  vmAddr : r'.vmAddr = r.vmAddr
  hostAddr : r'.hostAddr = r.hostAddr
  len : r.len.toNat ≤ r'.len.toNat
  vmGapShift : r'.vmGapShift = r.vmGapShift

/-- Every region is still there. -/
def KeepsRegions (regions regions' : List MemoryRegion) : Prop :=
  ∀ r ∈ regions, ∃ r' ∈ regions', r.Within r'

theorem KeepsRegions.refl (regions) : KeepsRegions regions regions :=
  fun r hr => ⟨r, hr, rfl, rfl, le_rfl, rfl⟩

theorem KeepsRegions.trans (h : KeepsRegions regions1 regions2)
    (h' : KeepsRegions regions2 regions3) : KeepsRegions regions1 regions3 := by
  intro r hr
  obtain ⟨r', hr', hw⟩ := h r hr
  obtain ⟨r'', hr'', hw'⟩ := h' r' hr'
  exact ⟨r'', hr'', hw'.vmAddr.trans hw.vmAddr, hw'.hostAddr.trans hw.hostAddr, hw.len.trans hw'.len,
    hw'.vmGapShift.trans hw.vmGapShift⟩

theorem KeepsRegions.of_subset (h : regions ⊆ regions') : KeepsRegions regions regions' :=
  fun r hr => ⟨r, h hr, rfl, rfl, le_rfl, rfl⟩

namespace Serializer

variable {s : Serializer}

/-- The regions, the open one included. -/
def mapped (s : Serializer) : List MemoryRegion := s.regions ++ [s.openRegion]

/-! ## The two offsets -/

/-- The next byte has the guest offset `off`. -/
structure At (s : Serializer) (off : Nat) : Prop where
  start : s.regionStart ≤ s.buffer.length
  next : s.vaddr.toNat + (s.buffer.length - s.regionStart) = MM_INPUT_START.toNat + off
  short : s.buffer.length ≤ off
  flat : s.features.virtualAddressSpaceAdjustments = false → s.regionStart = 0

theorem At.new (size : Nat) (bufferAddr) (isLoaderV1 : Bool) (features) :
    (Serializer.new size bufferAddr MM_INPUT_START isLoaderV1 features).At 0 :=
  ⟨le_rfl, rfl, le_rfl, fun _ => rfl⟩

theorem At.append (h : s.At off) (bytes) : (s.append bytes).At (off + bytes.length) := by
  obtain ⟨hstart, hnext, hshort, hflat⟩ := h
  refine ⟨?_, ?_, ?_, hflat⟩ <;> simp only [Serializer.append, length_append] at * <;> omega

theorem At.toNat_vaddrAt (h : s.At off) (hspace : off + n < 2 ^ 62) :
    (s.vaddrAt n).toNat = MM_INPUT_START.toNat + off + n := by
  obtain ⟨hstart, hnext, hshort, -⟩ := h
  rw [toNat_MM_INPUT_START] at hnext ⊢
  simp only [vaddrAt, nextVaddr, Serializer.append, U64.toNat_satSub, U64.toNat_satAdd, toNat_ofNat',
    length_append, length_zeros]
  omega

theorem At.toNat_closeRegion_vaddr (h : s.At off) (hspace : off < 2 ^ 62) :
    s.closeRegion.vaddr.toNat = MM_INPUT_START.toNat + off := by
  obtain ⟨hstart, hnext, hshort, -⟩ := h
  rw [toNat_MM_INPUT_START] at hnext ⊢
  simp only [closeRegion, UInt64.toNat_add, toNat_ofNat']
  omega

theorem At.toNat_dataVaddr (h : s.At off) (hspace : off < 2 ^ 62) :
    s.dataVaddr.toNat = MM_INPUT_START.toNat + off := by
  unfold dataVaddr
  split
  · exact h.toNat_closeRegion_vaddr hspace
  · rename_i hvasa
    have hflat := h.flat (by simpa using hvasa)
    obtain ⟨hstart, hnext, hshort, -⟩ := h
    rw [toNat_MM_INPUT_START] at hnext ⊢
    rw [U64.toNat_satAdd, toNat_ofNat']
    omega

/-- The regions that the data of an account adds. -/
def accountRegions (s : Serializer) (remap : MemoryRegion → MemoryRegion) (data : List UInt8) :
    List MemoryRegion :=
  if addressSpaceReserved s.isLoaderV1 data.length = 0 then []
  else [remap (s.closeRegion.append (s.mappedData data)).openRegion]

/-- What the data of an account leaves with address space adjustments. -/
structure PutsMapped (s : Serializer) (remap : MemoryRegion → MemoryRegion) (data : List UInt8)
    (s1 : Serializer) : Prop where
  regions : s1.regions = s.mapped ++ s.accountRegions remap data
  vaddr : s1.vaddr = s.closeRegion.vaddr + .ofNat (addressSpaceReserved s.isLoaderV1 data.length)
  regionStart : s1.regionStart + (if s.isLoaderV1 then 0 else alignOffset data.length) = s1.buffer.length

theorem addressSpaceReserved_eq (isLoaderV1 : Bool) (h : n < 2 ^ 62) :
    addressSpaceReserved isLoaderV1 n = n + (guestLayout isLoaderV1).growth := by
  cases isLoaderV1 with
  | true => rfl
  | false =>
    have hsum : n + MAX_PERMITTED_DATA_INCREASE < 2 ^ 64 := by
      rw [MAX_PERMITTED_DATA_INCREASE]
      omega
    rw [addressSpaceReserved, satAdd_eq hsum]
    rfl

/-- Only loader v1 has accounts without address space. -/
theorem addressSpaceReserved_eq_zero {isLoaderV1 : Bool} (h : addressSpaceReserved isLoaderV1 n = 0) :
    isLoaderV1 = true ∧ n = 0 := by
  cases isLoaderV1 with
  | true => exact ⟨rfl, h⟩
  | false =>
    simp only [addressSpaceReserved, satAdd, MAX_PERMITTED_DATA_INCREASE] at h
    simp at h

theorem alignOffset_lt (n : Nat) : alignOffset n < 8 := Nat.mod_lt _ (by decide)

/-- The bytes of a mapped account in the buffer take up its address space. -/
theorem length_mappedData (s : Serializer) (hdata : data.length < 2 ^ 62)
    (hdm : s.features.accountDataDirectMapping = false) :
    (s.mappedData data).length = addressSpaceReserved s.isLoaderV1 data.length := by
  rw [addressSpaceReserved_eq _ hdata, mappedData, hdm]
  cases s.isLoaderV1 <;> simp [guestLayout, growth]

/-- The region of an account is made of the open bytes, if the data is in the buffer. -/
theorem pushReserved_mapped (remap) {t : Serializer}
    (hopen : t.buffer.length = t.regionStart + if t.features.accountDataDirectMapping then 0 else reserved) :
    (t.pushReserved remap reserved).regions = t.regions ++ (if reserved = 0 then [] else [remap t.openRegion]) ∧
      (t.pushReserved remap reserved).vaddr = t.vaddr + .ofNat reserved ∧
      (t.pushReserved remap reserved).regionStart = t.buffer.length := by
  unfold pushReserved
  by_cases hzero : reserved = 0
  · subst hzero
    simpa using hopen.symm
  · rw [if_neg hzero, if_neg hzero]
    by_cases hdm : t.features.accountDataDirectMapping = true
    · rw [if_pos hdm] at hopen ⊢
      exact ⟨rfl, rfl, hopen.symm⟩
    · rw [if_neg hdm] at hopen ⊢
      refine ⟨rfl, ?_, rfl⟩
      rw [closeRegion, hopen, Nat.add_sub_cancel_left]

theorem padMapped_mapped {t : Serializer} (n : Nat) (hopen : t.regionStart = t.buffer.length) :
    (t.padMapped n).regions = t.regions ∧ (t.padMapped n).vaddr = t.vaddr ∧
      (t.padMapped n).regionStart + (if t.isLoaderV1 then 0 else alignOffset n) = (t.padMapped n).buffer.length := by
  have halign := alignOffset_lt n
  unfold padMapped
  by_cases hv1 : t.isLoaderV1 = true
  · rw [if_pos hv1, if_pos hv1]
    exact ⟨rfl, rfl, hopen⟩
  · rw [if_neg hv1]
    split
    · refine ⟨rfl, rfl, ?_⟩
      simp only [append, length_append, length_zeros, BPF_ALIGN_OF_U128]
      omega
    · refine ⟨rfl, rfl, ?_⟩
      simp only [append, length_append, length_zeros]
      omega

theorem putsMapped (s : Serializer) (remap)
    (hvasa : s.features.virtualAddressSpaceAdjustments = true) (hdata : data.length < 2 ^ 62) :
    s.PutsMapped remap data (s.putData remap data) := by
  have hopen : (s.closeRegion.append (s.mappedData data)).buffer.length =
      (s.closeRegion.append (s.mappedData data)).regionStart +
        if s.features.accountDataDirectMapping then 0 else addressSpaceReserved s.isLoaderV1 data.length := by
    rw [buffer_append, length_append]
    refine congrArg (s.buffer.length + ·) ?_
    by_cases hdm : s.features.accountDataDirectMapping = true
    · rw [if_pos hdm, mappedData, if_pos hdm]
      rfl
    · rw [if_neg hdm, length_mappedData s hdata (by simpa using hdm)]
  obtain ⟨hbuffer, -, hv1, -, -⟩ := pushReserved_fields (s.closeRegion.append (s.mappedData data)) remap
    (addressSpaceReserved s.isLoaderV1 data.length)
  obtain ⟨hregions, hvaddr, hstart⟩ := pushReserved_mapped remap hopen
  obtain ⟨hregions', hvaddr', hstart'⟩ := padMapped_mapped data.length (hstart.trans (congrArg length hbuffer.symm))
  rw [putData, if_pos hvasa]
  rw [hv1] at hstart'
  exact ⟨hregions'.trans hregions, hvaddr'.trans hvaddr, hstart'⟩

/-- Without adjustments all goes into the one region. -/
theorem putData_flat (s : Serializer) (remap) (data)
    (hvasa : ¬ s.features.virtualAddressSpaceAdjustments = true) :
    s.putData remap data = s.append (s.layout.area data) := by
  have hout : s.layout.dataOutside = false := by
    simp [layout, InputFeatures.layout, InputFeatures.dataOutside, hvasa]
  have hv1 : s.layout.isLoaderV1 = s.isLoaderV1 := rfl
  rw [putData, if_neg hvasa, area, hout, hv1]
  cases s.isLoaderV1 <;> simp

theorem areaLen_guestLayout (isLoaderV1 : Bool) (n : Nat) : (guestLayout isLoaderV1).areaLen n =
      n + (guestLayout isLoaderV1).growth + if isLoaderV1 then 0 else alignOffset n := by
  cases isLoaderV1 <;> simp [guestLayout, areaLen, growth]

theorem areaLen_le (l : Layout) (n : Nat) : l.areaLen n ≤ (guestLayout l.isLoaderV1).areaLen n := by
  unfold areaLen guestLayout
  cases l.dataOutside <;> cases l.isLoaderV1 <;> simp [BPF_ALIGN_OF_U128, MAX_PERMITTED_DATA_INCREASE]
  omega

/-- What the data of an account leaves as it was. -/
theorem putData_fixed (s : Serializer) (remap) (data) :
    (s.putData remap data).features = s.features ∧ (s.putData remap data).bufferAddr = s.bufferAddr ∧
      (s.putData remap data).isLoaderV1 = s.isLoaderV1 := by
  unfold putData pushReserved padMapped
  repeat' split
  all_goals exact ⟨rfl, rfl, rfl⟩

theorem le_areaLen (l : Layout) (hout : l.dataOutside = false) (n : Nat) : n ≤ l.areaLen n := by
  unfold areaLen
  rw [hout]
  cases l.isLoaderV1 <;> simp
  omega

theorem At.putData (h : s.At off) (remap)
    (hspace : off + (guestLayout s.isLoaderV1).areaLen data.length < 2 ^ 62) :
    (s.putData remap data).At (off + (guestLayout s.isLoaderV1).areaLen data.length) := by
  have hle : s.layout.areaLen data.length ≤ (guestLayout s.isLoaderV1).areaLen data.length := areaLen_le s.layout _
  by_cases hvasa : s.features.virtualAddressSpaceAdjustments = true
  · rw [areaLen_guestLayout] at hspace hle ⊢
    have hdata : data.length < 2 ^ 62 := by omega
    obtain ⟨-, hvaddr, hstart⟩ := s.putsMapped remap hvasa hdata
    have hclose := h.toNat_closeRegion_vaddr (by omega)
    refine ⟨by omega, ?_, ?_, fun hflat => ?_⟩
    · rw [hvaddr, addressSpaceReserved_eq _ hdata, UInt64.toNat_add, toNat_ofNat', hclose]
      rw [toNat_MM_INPUT_START]
      omega
    · rw [putData_buffer, length_append, length_area]
      have := h.short
      omega
    · rw [(s.putData_fixed remap data).1, hvasa] at hflat
      cases hflat
  · rw [putData_flat s remap data hvasa]
    have hout : s.layout = guestLayout s.isLoaderV1 := by
      simp [layout, InputFeatures.layout, InputFeatures.dataOutside, hvasa, guestLayout]
    rw [← hout, ← length_area]
    exact h.append _

/-! ## Regions so far -/

section Mapped

theorem vmAddr_openRegion (s : Serializer) : s.openRegion.vmAddr = s.vaddr := rfl

theorem At.toNat_len_openRegion (h : s.At off) (hspace : off < 2 ^ 62) :
    s.openRegion.len.toNat = s.buffer.length - s.regionStart := by
  have hshort := h.short
  simp only [openRegion, MemoryRegion.new, newInternal, toNat_ofNat']
  omega

theorem At.grows_append (h : s.At off) (bytes) (hspace : off + bytes.length < 2 ^ 62) :
    KeepsRegions s.mapped (s.append bytes).mapped := by
  intro r hr
  rcases mem_append.mp hr with hr | hr
  · exact ⟨r, mem_append_left _ hr, rfl, rfl, le_rfl, rfl⟩
  · obtain rfl := mem_singleton.mp hr
    refine ⟨(s.append bytes).openRegion, mem_append_right _ (mem_singleton_self _), rfl, rfl, ?_, rfl⟩
    rw [h.toNat_len_openRegion (by omega), (h.append bytes).toNat_len_openRegion hspace]
    simp only [Serializer.append, length_append]
    omega

theorem At.grows_putData (h : s.At off) (remap)
    (hspace : off + (guestLayout s.isLoaderV1).areaLen data.length < 2 ^ 62) :
    KeepsRegions s.mapped (s.putData remap data).mapped := by
  by_cases hvasa : s.features.virtualAddressSpaceAdjustments = true
  · have hdata : data.length < 2 ^ 62 := by
      rw [areaLen_guestLayout] at hspace
      omega
    refine .of_subset fun r hr => mem_append_left _ ?_
    rw [(s.putsMapped remap hvasa hdata).regions]
    exact mem_append_left _ hr
  · have hle : s.layout.areaLen data.length ≤ (guestLayout s.isLoaderV1).areaLen data.length := areaLen_le s.layout _
    rw [putData_flat s remap data hvasa]
    exact h.grows_append _ (by rw [length_area]; omega)

/-- The list starts at the start of the input. -/
def StartsAtInput (regions : List MemoryRegion) : Prop := regions.head?.map (·.vmAddr) = some MM_INPUT_START

theorem startsAtInput_mapped_append (bytes) :
    StartsAtInput (s.append bytes).mapped ↔ StartsAtInput s.mapped := by
  unfold StartsAtInput mapped
  cases hregions : s.regions with
  | nil => simp [append, hregions, vmAddr_openRegion]
  | cons r regions => simp [append, hregions]

theorem StartsAtInput.append (h : StartsAtInput regions) (more) :
    StartsAtInput (regions ++ more) := by
  cases regions with
  | nil => cases h
  | cons r regions => exact h

theorem StartsAtInput.putData (h : StartsAtInput s.mapped) (remap)
    (hdata : data.length < 2 ^ 62) : StartsAtInput (s.putData remap data).mapped := by
  by_cases hvasa : s.features.virtualAddressSpaceAdjustments = true
  · rw [mapped, (s.putsMapped remap hvasa hdata).regions, append_assoc]
    exact h.append _
  · rw [putData_flat s remap data hvasa]
    exact (startsAtInput_mapped_append _).mpr h

/-- Regions of the input have no gaps in them. -/
def NoGaps (regions : List MemoryRegion) : Prop := ∀ r ∈ regions, r.vmGapShift = 63

theorem noGaps_mapped : NoGaps s.mapped ↔ NoGaps s.regions := by
  refine ⟨fun h r hr => h r (mem_append_left _ hr), fun h r hr => ?_⟩
  rcases mem_append.mp hr with hr | hr
  · exact h r hr
  · obtain rfl := mem_singleton.mp hr
    rfl

theorem NoGaps.append (h : NoGaps s.mapped) (bytes) : NoGaps (s.append bytes).mapped :=
  noGaps_mapped.mpr (show NoGaps s.regions from noGaps_mapped.mp h)

theorem NoGaps.putData (h : NoGaps s.mapped)
    (hregion : RegionOf direct host dataLen remap) (hdata : data.length < 2 ^ 62) :
    NoGaps (s.putData remap data).mapped := by
  rw [noGaps_mapped]
  by_cases hvasa : s.features.virtualAddressSpaceAdjustments = true
  · rw [(s.putsMapped remap hvasa hdata).regions]
    intro r hr
    rcases mem_append.mp hr with hr | hr
    · exact h r hr
    · unfold accountRegions at hr
      split at hr
      · cases hr
      · obtain rfl := mem_singleton.mp hr
        exact hregion.vmGapShift _ rfl
  · rw [putData_flat s remap data hvasa]
    exact fun r hr => h r (mem_append_left _ hr)

/-- What holds of the serializer after some accounts. -/
structure Mapping (s : Serializer) (off : Nat) : Prop where
  at_ : s.At off
  startsAtInput : StartsAtInput s.mapped
  noGaps : NoGaps s.mapped

theorem Mapping.append (h : s.Mapping off) (bytes) : (s.append bytes).Mapping (off + bytes.length) :=
  ⟨h.at_.append bytes, (startsAtInput_mapped_append bytes).mpr h.startsAtInput, h.noGaps.append bytes⟩

theorem Mapping.putData (h : s.Mapping off) (hregion : RegionOf direct host data.length remap)
    (hspace : off + (guestLayout s.isLoaderV1).areaLen data.length < 2 ^ 62) :
    (s.putData remap data).Mapping (off + (guestLayout s.isLoaderV1).areaLen data.length) := by
  have hat := h.at_.putData remap hspace
  rw [areaLen_guestLayout] at hspace
  exact ⟨hat, h.startsAtInput.putData remap (by omega), h.noGaps.putData hregion (by omega)⟩

end Mapped

end Serializer

/-! ## Regions in order -/

/-- A region is followed by the next one, behind `growth` bytes if it starts where the
data of an account does. -/
structure Follows (starts : UInt64 → Prop) (growth : Nat) (r r' : MemoryRegion) : Prop where
  lt : r.vmAddr < r'.vmAddr
  data : starts r.vmAddr → r'.vmAddr.toNat = r.vmAddr.toNat + r.len.toNat + growth
  plain : ¬ starts r.vmAddr → r'.vmAddr.toNat = r.vmAddr.toNat + r.len.toNat

theorem Follows.of_eq (hlt : r.vmAddr < r'.vmAddr)
    (heq : r'.vmAddr.toNat = r.vmAddr.toNat + r.len.toNat) (h : starts r.vmAddr → growth = 0) :
    Follows starts growth r r' :=
  ⟨hlt, fun hstarts => by rw [h hstarts, heq, add_zero], fun _ => heq⟩

theorem Follows.before (h : Follows starts growth r r') : r.Before r' := by
  refine ⟨h.lt, ?_⟩
  by_cases hstarts : starts r.vmAddr
  · exact h.data hstarts ▸ Nat.le_add_right _ _
  · exact h.plain hstarts ▸ le_rfl

instance : Trans Sbpf.MemoryRegion.Before Sbpf.MemoryRegion.Before Sbpf.MemoryRegion.Before where
  trans h h' := ⟨UInt64.lt_trans h.1 h'.1, h.2.trans (Nat.le_of_lt (UInt64.lt_iff_toNat_lt.mp h'.1))⟩

theorem pairwise_before (h : regions.IsChain (Follows starts growth)) : regions.Pairwise Sbpf.MemoryRegion.Before :=
  (h.imp fun _ _ => Follows.before).pairwise

theorem noOverlap_of_before (hgaps : Serializer.NoGaps regions) (h : regions.Pairwise Sbpf.MemoryRegion.Before) :
    NoOverlap regions := by
  refine Pairwise.imp_of_mem (fun {r r'} hr _ hbefore => ?_) h
  rw [vmAddrRange, if_pos (hgaps r hr), le_iff_toNat_le, U64.toNat_satAdd]
  exact (min_le_left _ _).trans hbefore.2

/-! ## An account -/

section Account

variable {a : TransactionAccounts} {s s1 : Serializer} {account : SerializeAccount} {m : SerializedAccountMetadata}
  {index : UInt16} {b : BorrowedInstructionAccount} {off : Nat}

/-- The recorded addresses, for an account whose record starts at the guest offset
`off`. -/
structure RecordedAt (isLoaderV1 : Bool) (m : SerializedAccountMetadata) (off preLen : Nat) : Prop where
  key : m.vmKeyAddr.toNat = MM_INPUT_START.toNat + off + (guestLayout isLoaderV1).keyAt
  lamports : m.vmLamportsAddr.toNat = MM_INPUT_START.toNat + off + (guestLayout isLoaderV1).lamportsAt
  owner : m.vmOwnerAddr.toNat = MM_INPUT_START.toNat + off + (guestLayout isLoaderV1).ownerAt preLen
  data : m.vmDataAddr.toNat = MM_INPUT_START.toNat + off + (guestLayout isLoaderV1).dataAt

namespace Serializer

theorem length_head_eq (s : Serializer) :
    (s.layout.head b a).length = (guestLayout s.isLoaderV1).dataAt := s.layout.length_head b a

theorem length_tail_eq (s : Serializer) :
    (s.layout.tail b a).length = if s.isLoaderV1 then 32 + 1 + 8 else 8 := s.layout.length_tail b a

variable (isLoaderV1 : Bool)

theorem recordLen_some (n : Nat) : (guestLayout isLoaderV1).recordLen (some n) =
    (guestLayout isLoaderV1).dataAt + (guestLayout isLoaderV1).areaLen n + if isLoaderV1 then 32 + 1 + 8 else 8 := rfl

/-- What an account leaves as it was. -/
theorem Writes.fixed (hw : s.Writes a hosts account m s1) :
    s1.features = s.features ∧ s1.bufferAddr = s.bufferAddr ∧ s1.isLoaderV1 = s.isLoaderV1 := by
  cases hw with
  | duplicate => exact ⟨rfl, rfl, rfl⟩
  | account region data =>
    subst data
    exact putData_fixed ..

theorem Writes.isLoaderV1_eq (hw : s.Writes a hosts account m s1) : s1.isLoaderV1 = s.isLoaderV1 := hw.fixed.2.2

/-- The data of an account starts behind the head of its record. -/
theorem At.afterHead (h : s.At off) (b) (a) :
    (s.append (s.layout.head b a)).At (off + (guestLayout s.isLoaderV1).dataAt) := by
  have := h.append (s.layout.head b a)
  rwa [length_head_eq] at this

theorem At.afterData (h : s.At off) (remap)
    (hspace : off + (guestLayout s.isLoaderV1).recordLen (some (b.getData a).length) < 2 ^ 62) :
    ((s.append (s.layout.head b a)).putData remap (b.getData a)).At
      (off + (guestLayout s.isLoaderV1).dataAt + (guestLayout s.isLoaderV1).areaLen (b.getData a).length) := by
  rw [recordLen_some] at hspace
  exact (h.afterHead b a).putData remap (show _ < _ by
    show off + (guestLayout s.isLoaderV1).dataAt + (guestLayout s.isLoaderV1).areaLen (b.getData a).length < 2 ^ 62
    omega)

theorem keyAt_lt : (guestLayout isLoaderV1).keyAt + 32 ≤ (guestLayout isLoaderV1).dataAt := by
  cases isLoaderV1 <;> decide

theorem lamportsAt_lt : (guestLayout isLoaderV1).lamportsAt + 16 = (guestLayout isLoaderV1).dataAt := by
  cases isLoaderV1 <;> decide

theorem ownerAt_eq (n : Nat) : (guestLayout isLoaderV1).ownerAt n =
    if isLoaderV1 then (guestLayout isLoaderV1).dataAt + (guestLayout isLoaderV1).areaLen n
    else (guestLayout isLoaderV1).keyAt + 32 := by
  cases isLoaderV1 <;> rfl

theorem At.toNat_nextVaddr (h : s.At off) (hspace : off < 2 ^ 62) :
    s.nextVaddr.toNat = MM_INPUT_START.toNat + off := by
  have hnext := s.nextVaddr_append []
  rw [append_nil] at hnext
  rw [hnext]
  exact h.toNat_vaddrAt hspace

theorem Writes.recorded (hw : s.Writes a hosts (.Account index b) m s1) (h : s.At off)
    (hspace : off + (guestLayout s.isLoaderV1).recordLen (some (b.getData a).length) < 2 ^ 62) :
    RecordedAt s.isLoaderV1 m off (b.getData a).length := by
  cases hw with
  | @account _ _ _ remap region data =>
    subst data
    have hafter := h.afterData remap hspace
    rw [recordLen_some] at hspace
    have hkey := keyAt_lt s.isLoaderV1
    have hlamports := lamportsAt_lt s.isLoaderV1
    have hdata := (h.afterHead b a).toNat_dataVaddr (by omega)
    refine ⟨h.toNat_vaddrAt ?_, h.toNat_vaddrAt ?_, ?_, hdata.trans (add_assoc _ _ _).symm⟩
    · show off + (guestLayout s.isLoaderV1).keyAt < 2 ^ 62
      omega
    · show off + (guestLayout s.isLoaderV1).lamportsAt < 2 ^ 62
      omega
    · rw [ownerAt_eq]
      by_cases hv1 : s.isLoaderV1 = true
      · rw [if_pos hv1, if_pos hv1, hafter.toNat_nextVaddr (by omega), add_assoc, add_assoc]
      · have howner : s.layout.ownerAt (b.getData a).length = (guestLayout s.isLoaderV1).keyAt + 32 := if_neg hv1
        rw [if_neg hv1, if_neg hv1, howner]
        exact h.toNat_vaddrAt (by omega)

/-! Where the bytes of a record are found. -/

/-- Bytes of the region that is open, once all regions are there. -/
theorem At.locate_open (h : s.At off) (hgrows : KeepsRegions (s.append bytes).mapped regions)
    (hordered : regions.Pairwise Sbpf.MemoryRegion.Before) (hspace : off + bytes.length < 2 ^ 62)
    (hhost : s.bufferAddr.toNat + (s.buffer.length + bytes.length) < 2 ^ 64) {vmAddr len : UInt64}
    (haddr : vmAddr.toNat = MM_INPUT_START.toNat + off + k) (hlt : k < bytes.length)
    (hfits : k + len.toNat ≤ bytes.length) :
    locate regions vmAddr len = some (s.bufferAddr + .ofNat (s.buffer.length + k)) := by
  obtain ⟨r, hr, hwithin⟩ := hgrows _ (mem_append_right _ (mem_singleton_self _))
  have hlen := (h.append bytes).toNat_len_openRegion hspace
  obtain ⟨hstart, hnext, hshort, -⟩ := h
  rw [buffer_append, length_append] at hlen
  have hvmAddr : r.vmAddr = s.vaddr := hwithin.vmAddr
  have hhostAddr : r.hostAddr = s.bufferAddr + .ofNat s.regionStart := hwithin.hostAddr
  have hrlen := hwithin.len
  have hregionStart : (s.append bytes).regionStart = s.regionStart := rfl
  have hle : r.vmAddr.toNat ≤ vmAddr.toNat := by
    rw [hvmAddr]
    omega
  have hhostNat : r.hostAddr.toNat = s.bufferAddr.toNat + s.regionStart := by
    rw [hhostAddr, UInt64.toNat_add, toNat_ofNat']
    omega
  rw [locate_eq hordered hr (hwithin.vmGapShift.trans rfl) (le_iff_toNat_le.mpr hle)]
  · refine congrArg some (UInt64.toNat_inj.mp ?_)
    rw [UInt64.toNat_add, UInt64.toNat_add, UInt64.toNat_sub_of_le _ _ (le_iff_toNat_le.mpr hle),
      hvmAddr, toNat_ofNat']
    omega
  · rw [hvmAddr]
    omega
  · rw [hvmAddr]
    omega
  · rw [hvmAddr]
    omega

/-- The region of an account, once all regions are there. -/
theorem PutsMapped.locate_data
    (hputs : s.PutsMapped remap data s1) (hregion : RegionOf direct host data.length remap)
    (hreserved : addressSpaceReserved s.isLoaderV1 data.length ≠ 0) (hgrows : KeepsRegions s1.mapped regions)
    (hordered : regions.Pairwise Sbpf.MemoryRegion.Before) :
    locate regions s.closeRegion.vaddr (.ofNat data.length) =
      some (if direct then host else s.bufferAddr + .ofNat s.buffer.length) := by
  obtain ⟨r, hr, hwithin⟩ := hgrows (remap (s.closeRegion.append (s.mappedData data)).openRegion) (by
    refine mem_append_left _ ?_
    rw [hputs.regions, accountRegions, if_neg hreserved]
    exact mem_append_right _ (mem_singleton_self _))
  have hvmAddr : r.vmAddr = s.closeRegion.vaddr := by
    rw [hwithin.vmAddr, hregion.vmAddr]
    rfl
  have hlen : (ofNat data.length).toNat ≤ r.len.toNat := by
    rw [← hregion.len]
    exact hwithin.len
  have hhost : r.hostAddr = if direct then host else s.bufferAddr + .ofNat s.buffer.length := by
    rw [hwithin.hostAddr, hregion.hostAddr]
    rfl
  rw [locate_eq hordered hr (hwithin.vmGapShift.trans (hregion.vmGapShift _ rfl)) (by rw [hvmAddr]; exact UInt64.le_refl _)
    (.inl hvmAddr.symm) (by rw [hvmAddr]; omega) (by rw [hvmAddr, Nat.sub_self]; exact r.hostAddr.toNat_lt), hvmAddr,
    UInt64.sub_self, UInt64.add_zero, hhost]

/-- Where the recorded addresses of an account resolve to, for a record at `start` of
the buffer. -/
structure LocatedAt (regions : List MemoryRegion) (bufferAddr : UInt64) (l : Layout) (payload : UInt64)
    (m : SerializedAccountMetadata) (start preLen : Nat) : Prop where
  key : locate regions m.vmKeyAddr 32 = some (bufferAddr + .ofNat (start + l.keyAt))
  lamports : locate regions m.vmLamportsAddr 8 = some (bufferAddr + .ofNat (start + l.lamportsAt))
  owner : locate regions m.vmOwnerAddr 32 = some (bufferAddr + .ofNat (start + l.ownerAt preLen))
  len : locate regions (m.vmDataAddr - 8) 8 = some (bufferAddr + .ofNat (start + l.lenAt))
  data : l.dataOutside = false →
    locate regions m.vmDataAddr (.ofNat preLen) = some (bufferAddr + .ofNat (start + l.dataAt))
  payload : l.dataOutside = true →
    ∃ h, locate regions m.vmDataAddr (.ofNat preLen) = some h ∧ (preLen = 0 ∨ h = payload)

/-- What is left of a written account: where its data starts, and its region. -/
theorem Writes.account_inv (hw : s.Writes a hosts (.Account index b) m s1) :
    m.vmDataAddr = (s.append (s.layout.head b a)).dataVaddr ∧ ∃ remap,
      RegionOf s.features.accountDataDirectMapping (hosts b.getIndexInTransaction) (b.getData a).length remap ∧
      s1 = ((s.append (s.layout.head b a)).putData remap (b.getData a)).append (s.layout.tail b a) := by
  cases hw with
  | account region data => exact ⟨rfl, _, region, by rw [data]⟩

theorem lenAddr_eq {isLoaderV1 : Bool} {x : UInt64}
    (hx : x.toNat = MM_INPUT_START.toNat + off + (guestLayout isLoaderV1).dataAt) :
    (x - 8).toNat = MM_INPUT_START.toNat + off + (guestLayout isLoaderV1).lenAt := by
  have hlen : (guestLayout isLoaderV1).dataAt = (guestLayout isLoaderV1).lenAt + 8 := rfl
  have hle : 8 ≤ x := le_iff_toNat_le.mpr (show 8 ≤ x.toNat by omega)
  rw [UInt64.toNat_sub_of_le _ _ hle]
  show _ - 8 = _
  omega

theorem Writes.located (hw : s.Writes a hosts (.Account index b) m s1) (h : s.At off)
    (hspace : off + (guestLayout s.isLoaderV1).recordLen (some (b.getData a).length) < 2 ^ 62)
    (hgrows : KeepsRegions s1.mapped regions) (hordered : regions.Pairwise Sbpf.MemoryRegion.Before)
    (hhost : s.bufferAddr.toNat + s1.buffer.length < 2 ^ 64) :
    LocatedAt regions s.bufferAddr s.layout (hosts b.getIndexInTransaction) m s.buffer.length (b.getData a).length := by
  obtain ⟨hrecKey, hrecLamports, hrecOwner, hrecData⟩ := hw.recorded h hspace
  obtain ⟨hdataAddr, remap, hregion, rfl⟩ := hw.account_inv
  have hafter := h.afterData remap hspace
  rw [recordLen_some] at hspace
  have hkey := keyAt_lt s.isLoaderV1
  have hlamports := lamportsAt_lt s.isLoaderV1
  have hlen : (guestLayout s.isLoaderV1).lenAt + 8 = (guestLayout s.isLoaderV1).dataAt := rfl
  have htail : (s.layout.tail b a).length = _ := s.length_tail_eq
  have hhead : (s.layout.head b a).length = _ := s.length_head_eq
  have hgrows2 : KeepsRegions ((s.append (s.layout.head b a)).putData remap (b.getData a)).mapped regions :=
    (hafter.grows_append _ (by omega)).trans hgrows
  have hgrows1 : KeepsRegions (s.append (s.layout.head b a)).mapped regions :=
    ((h.afterHead b a).grows_putData remap (by
      show off + (guestLayout s.isLoaderV1).dataAt + (guestLayout s.isLoaderV1).areaLen (b.getData a).length < 2 ^ 62
      omega)).trans hgrows2
  have hbuffer : ((s.append (s.layout.head b a)).putData remap (b.getData a)).buffer.length =
      s.buffer.length + (guestLayout s.isLoaderV1).dataAt + s.layout.areaLen (b.getData a).length := by
    rw [putData_buffer, buffer_append, length_append, length_append, hhead, layout_append, length_area]
  rw [buffer_append, length_append, hbuffer] at hhost
  -- a field of the head
  have hfield {k : Nat} {vmAddr : UInt64} len haddr
      (hlt : k < (guestLayout s.isLoaderV1).dataAt) (hfits : k + len.toNat ≤ (guestLayout s.isLoaderV1).dataAt) :
      locate regions vmAddr len = some (s.bufferAddr + .ofNat (s.buffer.length + k)) :=
    h.locate_open hgrows1 hordered (by omega) (by omega) haddr (by omega) (by omega)
  -- a field behind the data
  have hbehind {vmAddr len : UInt64} (haddr : vmAddr.toNat = MM_INPUT_START.toNat + off +
        ((guestLayout s.isLoaderV1).dataAt + (guestLayout s.isLoaderV1).areaLen (b.getData a).length))
      (hpos : 0 < (s.layout.tail b a).length) (hfits : len.toNat ≤ (s.layout.tail b a).length) :
      locate regions vmAddr len =
        some (s.bufferAddr + .ofNat (s.buffer.length + (s.layout.dataAt + s.layout.areaLen (b.getData a).length))) := by
    have hfixed := ((s.append (s.layout.head b a)).putData_fixed remap (b.getData a)).2.1
    have haddr : vmAddr.toNat = MM_INPUT_START.toNat + (off + (guestLayout s.isLoaderV1).dataAt +
        (guestLayout s.isLoaderV1).areaLen (b.getData a).length) + 0 := by omega
    have hlocate : locate regions vmAddr len = _ := hafter.locate_open hgrows hordered (by omega)
      (by rw [hfixed, hbuffer]; exact hhost) haddr hpos (by omega)
    rw [hlocate, hfixed, hbuffer, add_zero, add_assoc]
    rfl
  have howner : locate regions m.vmOwnerAddr 32 =
      some (s.bufferAddr + .ofNat (s.buffer.length + s.layout.ownerAt (b.getData a).length)) := by
    rw [ownerAt_eq] at hrecOwner
    by_cases hv1 : s.isLoaderV1 = true
    · rw [if_pos hv1] at hrecOwner htail
      rw [show s.layout.ownerAt (b.getData a).length = s.layout.dataAt + s.layout.areaLen (b.getData a).length from
        if_pos hv1]
      exact hbehind hrecOwner (by omega) (show 32 ≤ _ by omega)
    · rw [if_neg hv1] at hrecOwner
      have hroom : (guestLayout s.isLoaderV1).keyAt + 64 ≤ (guestLayout s.isLoaderV1).dataAt := by
        rw [Bool.eq_false_iff.mpr hv1]
        decide
      have hlocate := hfield 32 hrecOwner (by omega) (show _ + 32 ≤ _ by omega)
      rwa [show s.layout.ownerAt (b.getData a).length = (guestLayout s.isLoaderV1).keyAt + 32 from if_neg hv1]
  have hdata (hzero : ¬ addressSpaceReserved s.isLoaderV1 (b.getData a).length = 0)
      (hvasa : s.features.virtualAddressSpaceAdjustments = true) :
      locate regions m.vmDataAddr (.ofNat (b.getData a).length) =
        some (if s.features.accountDataDirectMapping then hosts b.getIndexInTransaction
          else s.bufferAddr + .ofNat (s.buffer.length + s.layout.dataAt)) := by
    have hdata : (b.getData a).length < 2 ^ 62 := by
      rw [areaLen_guestLayout] at hspace
      omega
    have hputs := (s.append (s.layout.head b a)).putsMapped remap hvasa hdata
    have hlocate := hputs.locate_data hregion hzero hgrows2 hordered
    rw [hdataAddr, dataVaddr, if_pos (by exact hvasa), hlocate, buffer_append, length_append, hhead]
    rfl
  -- without address space the data is empty, and the next field is in its place
  have hempty (hzero : addressSpaceReserved s.isLoaderV1 (b.getData a).length = 0) : (b.getData a).length = 0 ∧
      locate regions m.vmDataAddr (.ofNat (b.getData a).length) =
        some (s.bufferAddr + .ofNat (s.buffer.length + s.layout.dataAt)) := by
    obtain ⟨hv1, hlength⟩ := addressSpaceReserved_eq_zero hzero
    have hguest : (guestLayout s.isLoaderV1).areaLen (b.getData a).length = 0 := by rw [hv1, hlength]; rfl
    have harea : s.layout.areaLen (b.getData a).length = 0 := Nat.le_zero.mp (hguest ▸ areaLen_le s.layout _)
    rw [if_pos hv1] at htail
    have hlocate : locate regions m.vmDataAddr (.ofNat (b.getData a).length) = _ :=
      hbehind (by omega) (by omega) (by rw [hlength]; exact Nat.zero_le _)
    rw [harea] at hlocate
    exact ⟨hlength, hlocate⟩
  have hlocateKey := hfield 32 hrecKey (by omega) hkey
  have hlocateLamports := hfield 8 hrecLamports (by omega) (show _ + 8 ≤ _ by omega)
  have hlocateLen := hfield 8 (lenAddr_eq hrecData) (by omega) (show _ + 8 ≤ _ by omega)
  refine ⟨hlocateKey, hlocateLamports, howner, hlocateLen, fun hout => ?_, fun hout => ?_⟩
  · by_cases hzero : addressSpaceReserved s.isLoaderV1 (b.getData a).length = 0
    · exact (hempty hzero).2
    · by_cases hvasa : s.features.virtualAddressSpaceAdjustments = true
      · have hdm : s.features.accountDataDirectMapping = false := by
          simpa [layout, InputFeatures.layout, InputFeatures.dataOutside, hvasa] using hout
        rw [hdata hzero hvasa, hdm]
        rfl
      · have hone : ((s.append (s.layout.head b a)).putData remap (b.getData a)).append (s.layout.tail b a) =
            s.append (s.layout.head b a ++ (s.layout.area (b.getData a) ++ s.layout.tail b a)) := by
          rw [putData_flat (s.append (s.layout.head b a)) remap (b.getData a) hvasa]
          simp
        have hdataLen := le_areaLen s.layout hout (b.getData a).length
        have hareaLen := areaLen_le s.layout (b.getData a).length
        have hv1 : s.layout.isLoaderV1 = s.isLoaderV1 := rfl
        rw [hv1] at hareaLen
        have hpos : 0 < (s.layout.tail b a).length := by
          rw [htail]
          split <;> decide
        have hof : (ofNat (b.getData a).length).toNat ≤ (b.getData a).length := by
          exact Nat.mod_le _ _
        rw [hone] at hgrows
        have hlocate := h.locate_open hgrows hordered
          (by simp only [length_append, length_area]; omega)
          (by simp only [length_append, length_area]; omega) hrecData
          (by simp only [length_append]; omega)
          (show _ + (ofNat (b.getData a).length).toNat ≤ _ by
            simp only [length_append, length_area]; omega)
        exact hlocate
  · obtain ⟨hvasa, hdm⟩ : s.features.virtualAddressSpaceAdjustments = true ∧
        s.features.accountDataDirectMapping = true := by
      simpa [layout, InputFeatures.layout, InputFeatures.dataOutside] using hout
    by_cases hzero : addressSpaceReserved s.isLoaderV1 (b.getData a).length = 0
    · exact ⟨_, (hempty hzero).2, .inl (hempty hzero).1⟩
    · exact ⟨_, hdata hzero hvasa, .inr (if_pos hdm)⟩

/-! What an account does to the list of regions. -/

theorem recordLen_space (hspace : off + (guestLayout s.isLoaderV1).recordLen (some (b.getData a).length) < 2 ^ 62) :
    off + (guestLayout s.isLoaderV1).dataAt + (guestLayout s.isLoaderV1).areaLen (b.getData a).length +
      (s.layout.tail b a).length < 2 ^ 62 ∧ (b.getData a).length < 2 ^ 62 := by
  rw [recordLen_some, areaLen_guestLayout] at hspace
  rw [length_tail_eq, areaLen_guestLayout]
  omega

theorem Writes.grows (hw : s.Writes a hosts account m s1) (h : s.At off)
    (hspace : off + (guestLayout s.isLoaderV1).recordLen (account.entry a) < 2 ^ 62) : KeepsRegions s.mapped s1.mapped := by
  cases account with
  | Duplicate position =>
    cases hw
    exact h.grows_append _ (by rw [length_duplicate]; exact hspace)
  | Account index b =>
    obtain ⟨-, remap, -, rfl⟩ := hw.account_inv
    have hroom := (recordLen_space hspace).1
    have hhead : (s.layout.head b a).length = _ := s.length_head_eq
    refine (h.grows_append (s.layout.head b a) (by omega)).trans (((h.afterHead b a).grows_putData remap ?_).trans
      ((h.afterData remap hspace).grows_append _ (by omega)))
    show off + (guestLayout s.isLoaderV1).dataAt + (guestLayout s.isLoaderV1).areaLen (b.getData a).length < 2 ^ 62
    omega

theorem Writes.mapping (hw : s.Writes a hosts account m s1) (h : s.Mapping off)
    (hspace : off + (guestLayout s.isLoaderV1).recordLen (account.entry a) < 2 ^ 62) :
    s1.Mapping (off + (guestLayout s.isLoaderV1).recordLen (account.entry a)) := by
  cases account with
  | Duplicate position =>
    cases hw
    have := h.append (s.layout.duplicate position)
    rwa [length_duplicate] at this
  | Account index b =>
    obtain ⟨-, remap, hregion, rfl⟩ := hw.account_inv
    have hroom := (recordLen_space hspace).1
    have hhead := h.append (s.layout.head b a)
    rw [length_head_eq] at hhead
    have htail := (hhead.putData hregion (Nat.lt_of_add_right_lt hroom)).append (s.layout.tail b a)
    rw [length_tail_eq] at htail
    rw [SerializeAccount.entry, recordLen_some, ← add_assoc, ← add_assoc]
    exact htail

section Order

theorem isChain_concat : (regions ++ [r]).IsChain (Follows starts growth) ↔
      regions.IsChain (Follows starts growth) ∧ ∀ x ∈ regions.getLast?, Follows starts growth x r := by
  rw [isChain_append]
  simp

theorem follows_congr (h : Follows starts growth r r1) (haddr : r2.vmAddr = r1.vmAddr) :
    Follows starts growth r r2 := by
  obtain ⟨hlt, hdata, hplain⟩ := h
  rw [← haddr] at hlt hdata hplain
  exact ⟨hlt, hdata, hplain⟩

theorem isChain_mapped_append (bytes) (h : s.mapped.IsChain (Follows starts growth)) :
    (s.append bytes).mapped.IsChain (Follows starts growth) := by
  obtain ⟨hregions, hlast⟩ := isChain_concat.mp h
  exact isChain_concat.mpr ⟨hregions, fun x hx => follows_congr (hlast x hx) rfl⟩

/-- The data of an account ends the open region, if it is not empty, and starts the next
behind the region of the account. -/
theorem At.isChain_putData (h : s.At off)
    (hregion : RegionOf direct host data.length remap) (hdata : data.length < 2 ^ 62)
    (hspace : off + (data.length + growth) < 2 ^ 62) (hgrowth : growth = (guestLayout s.isLoaderV1).growth)
    (hopen : s.regionStart < s.buffer.length) (hplain : starts s.vaddr → growth = 0)
    (hstarts : starts s.dataVaddr) (hchain : s.mapped.IsChain (Follows starts growth)) :
    (s.putData remap data).mapped.IsChain (Follows starts growth) := by
  by_cases hvasa : s.features.virtualAddressSpaceAdjustments = true
  · obtain ⟨hregions, hvaddr, -⟩ := s.putsMapped remap hvasa hdata
    have hclose := h.toNat_closeRegion_vaddr (by omega)
    have hlen := h.toNat_len_openRegion (by omega)
    have hnext := h.next
    have hfirst {r : MemoryRegion} (hr : r.vmAddr = s.closeRegion.vaddr) : Follows starts growth s.openRegion r := by
      refine .of_eq ?_ ?_ hplain
      · rw [hr, lt_iff_toNat_lt, vmAddr_openRegion]
        omega
      · rw [hr, vmAddr_openRegion]
        omega
    rw [mapped, hregions]
    unfold accountRegions
    by_cases hzero : addressSpaceReserved s.isLoaderV1 data.length = 0
    · rw [if_pos hzero, List.append_nil]
      refine isChain_concat.mpr ⟨hchain, fun x hx => ?_⟩
      rw [mapped, getLast?_concat] at hx
      cases hx
      refine hfirst ?_
      rw [vmAddr_openRegion, hvaddr, hzero]
      simp
    · rw [if_neg hzero]
      refine isChain_concat.mpr ⟨isChain_concat.mpr ⟨hchain, fun x hx => ?_⟩, fun x hx => ?_⟩
      · rw [mapped, getLast?_concat] at hx
        cases hx
        refine hfirst ?_
        rw [hregion.vmAddr]
        rfl
      · rw [getLast?_concat] at hx
        cases hx
        have hstart : (remap (s.closeRegion.append (s.mappedData data)).openRegion).vmAddr =
            s.closeRegion.vaddr := by
          rw [hregion.vmAddr]
          rfl
        have hreserved := addressSpaceReserved_eq s.isLoaderV1 hdata
        have hnextAddr : (s.putData remap data).vaddr.toNat = s.closeRegion.vaddr.toNat + (data.length + growth) := by
          rw [hvaddr, UInt64.toNat_add, toNat_ofNat', hclose, toNat_MM_INPUT_START]
          omega
        refine ⟨?_, fun _ => ?_, fun hnot => ?_⟩
        · rw [hstart, vmAddr_openRegion, lt_iff_toNat_lt]
          omega
        · rw [hstart, vmAddr_openRegion, hregion.len, toNat_ofNat']
          omega
        · rw [hstart] at hnot
          rw [dataVaddr, if_pos hvasa] at hstarts
          exact absurd hstarts hnot
  · rw [putData_flat s remap data hvasa]
    exact isChain_mapped_append _ hchain

theorem vaddr_writes (hw : s.Writes a hosts account m s1) (h : s.At off)
    (hspace : off + (guestLayout s.isLoaderV1).recordLen (account.entry a) < 2 ^ 62)
    (hvasa : s.features.virtualAddressSpaceAdjustments = true) :
    s.vaddr.toNat ≤ s1.vaddr.toNat ∧ ∀ index b, account = .Account index b →
      s1.vaddr.toNat = m.vmDataAddr.toNat + ((b.getData a).length + (guestLayout s.isLoaderV1).growth) := by
  cases account with
  | Duplicate position =>
    cases hw
    exact ⟨le_rfl, nofun⟩
  | Account index b =>
    obtain ⟨hdataAddr, remap, -, rfl⟩ := hw.account_inv
    obtain ⟨hroom, hdata⟩ := recordLen_space hspace
    obtain ⟨-, hvaddr, -⟩ := (s.append (s.layout.head b a)).putsMapped remap hvasa hdata
    have hclose := (h.afterHead b a).toNat_closeRegion_vaddr (by omega)
    rw [areaLen_guestLayout] at hroom
    have hnext := h.next
    have heq : (((s.append (s.layout.head b a)).putData remap (b.getData a)).append
        (s.layout.tail b a)).vaddr.toNat =
        m.vmDataAddr.toNat + ((b.getData a).length + (guestLayout s.isLoaderV1).growth) := by
      show ((s.append (s.layout.head b a)).putData remap (b.getData a)).vaddr.toNat = _
      rw [hvaddr, hdataAddr, dataVaddr, if_pos (by exact hvasa), UInt64.toNat_add, hclose,
        addressSpaceReserved_eq _ hdata, toNat_MM_INPUT_START]
      show (2 ^ 34 + (off + (guestLayout s.isLoaderV1).dataAt) +
        ((b.getData a).length + (guestLayout s.isLoaderV1).growth) % 2 ^ 64) % 2 ^ 64 = _
      omega
    refine ⟨?_, fun index' b' heq' => ?_⟩
    · rw [heq, hdataAddr, dataVaddr, if_pos (by exact hvasa)]
      omega
    · cases heq'
      exact heq

theorem Writes.isChain (hw : s.Writes a hosts account m s1) (h : s.At off)
    (hspace : off + (guestLayout s.isLoaderV1).recordLen (account.entry a) < 2 ^ 62)
    (hgrowth : growth = (guestLayout s.isLoaderV1).growth) (hplain : starts s.vaddr → growth = 0)
    (hstarts : ∀ index b, account = .Account index b → starts m.vmDataAddr)
    (hchain : s.mapped.IsChain (Follows starts growth)) : s1.mapped.IsChain (Follows starts growth) := by
  cases account with
  | Duplicate position =>
    cases hw
    exact isChain_mapped_append _ hchain
  | Account index b =>
    have hdataStarts := hstarts index b rfl
    obtain ⟨hdataAddr, remap, hregion, rfl⟩ := hw.account_inv
    obtain ⟨hroom, hdata⟩ := recordLen_space hspace
    rw [areaLen_guestLayout] at hroom
    rw [hdataAddr] at hdataStarts
    refine isChain_mapped_append _ ((h.afterHead b a).isChain_putData hregion hdata ?_ hgrowth ?_ hplain hdataStarts
      (isChain_mapped_append _ hchain))
    · omega
    · have hpos : 0 < (guestLayout s.isLoaderV1).dataAt := by cases s.isLoaderV1 <;> decide
      have hstart := h.start
      rw [buffer_append, length_append, length_head_eq]
      show s.regionStart < _
      omega

end Order

end Serializer

end Account

/-! ## All accounts -/

/-- The addresses of the data of the accounts that are not duplicates. -/
def dataStarts : List SerializeAccount → List SerializedAccountMetadata → List UInt64
  | .Account _ _ :: accounts, m :: metas => m.vmDataAddr :: dataStarts accounts metas
  | .Duplicate _ :: accounts, _ :: metas => dataStarts accounts metas
  | _, _ => []

namespace Serializer

variable {a : TransactionAccounts} {hosts : UInt16 → UInt64} {s s' : Serializer} {accounts : List SerializeAccount}
  {metas : List SerializedAccountMetadata} {off : Nat}

/-- What the accounts leave as it was. -/
theorem Written.fixed (h : s.Written a hosts accounts metas s') :
    s'.features = s.features ∧ s'.bufferAddr = s.bufferAddr ∧ s'.isLoaderV1 = s.isLoaderV1 := by
  induction h with
  | nil => exact ⟨rfl, rfl, rfl⟩
  | cons head _ ih =>
    obtain ⟨hfeatures, hbufferAddr, hv1⟩ := head.fixed
    exact ⟨ih.1.trans hfeatures, ih.2.1.trans hbufferAddr, ih.2.2.trans hv1⟩

variable (hw : s.Written a hosts accounts metas s')

include hw

theorem Written.mapping (h : s.Mapping off)
    (hspace : off + recordsLen (guestLayout s.isLoaderV1) a accounts < 2 ^ 62) :
    s'.Mapping (off + recordsLen (guestLayout s.isLoaderV1) a accounts) ∧ KeepsRegions s.mapped s'.mapped := by
  induction hw generalizing off with
  | nil => exact ⟨h, .refl _⟩
  | @cons s s1 s2 account accounts m metas head tail ih =>
    rw [recordsLen_cons] at hspace ⊢
    have hroom : off + (guestLayout s.isLoaderV1).recordLen (account.entry a) < 2 ^ 62 := by omega
    obtain ⟨hmapping, hgrows⟩ := ih (head.mapping h hroom) (by rw [head.isLoaderV1_eq]; omega)
    rw [head.isLoaderV1_eq, add_assoc] at hmapping
    exact ⟨hmapping, (head.grows h.at_ hroom).trans hgrows⟩

/-- The data of the accounts that are to come starts behind the next byte. -/
theorem Written.dataStarts_gt (h : s.Mapping off)
    (hspace : off + recordsLen (guestLayout s.isLoaderV1) a accounts < 2 ^ 62) :
    ∀ x ∈ dataStarts accounts metas, MM_INPUT_START.toNat + off < x.toNat := by
  induction hw generalizing off with
  | nil => exact nofun
  | @cons s s1 s2 account accounts m metas head tail ih =>
    rw [recordsLen_cons] at hspace
    have hroom : off + (guestLayout s.isLoaderV1).recordLen (account.entry a) < 2 ^ 62 := by omega
    have htail := ih (head.mapping h hroom) (by rw [head.isLoaderV1_eq]; omega)
    cases account with
    | Duplicate position =>
      intro x hx
      have := htail x hx
      omega
    | Account index b =>
      have hrecorded := head.recorded h.at_ hroom
      have hpos : 0 < (guestLayout s.isLoaderV1).dataAt := by cases s.isLoaderV1 <;> decide
      refine forall_mem_cons.mpr ⟨?_, fun x hx => ?_⟩
      · rw [hrecorded.data]
        omega
      · have := htail x hx
        omega

/-- The regions of the accounts follow one another. -/
theorem Written.isChain (h : s.Mapping off)
    (hspace : off + recordsLen (guestLayout s.isLoaderV1) a accounts < 2 ^ 62)
    (hvasa : s.features.virtualAddressSpaceAdjustments = true)
    (hgrowth : growth = (guestLayout s.isLoaderV1).growth)
    (hpast : ∀ x, starts x → growth = 0 ∨ x.toNat < s.vaddr.toNat ∨ x ∈ dataStarts accounts metas)
    (hdata : ∀ x ∈ dataStarts accounts metas, starts x)
    (hchain : s.mapped.IsChain (Follows starts growth)) : s'.mapped.IsChain (Follows starts growth) := by
  induction hw generalizing off with
  | nil => exact hchain
  | @cons s s1 s2 account accounts m metas head tail ih =>
    have hgt := (Written.cons head tail).dataStarts_gt h hspace
    rw [recordsLen_cons] at hspace
    have hroom : off + (guestLayout s.isLoaderV1).recordLen (account.entry a) < 2 ^ 62 := by omega
    obtain ⟨hmono, hnext⟩ := vaddr_writes head h.at_ hroom hvasa
    have hplain : starts s.vaddr → growth = 0 := by
      intro hstarts
      rcases hpast _ hstarts with hzero | hlt | hmem
      · exact hzero
      · exact absurd hlt (lt_irrefl _)
      · have := hgt _ hmem
        have := h.at_.next
        omega
    have hfirst : ∀ index b, account = .Account index b → starts m.vmDataAddr := by
      rintro index b rfl
      exact hdata _ mem_cons_self
    refine ih (head.mapping h hroom) (by rw [head.isLoaderV1_eq]; omega) (head.fixed.1 ▸ hvasa)
      (hgrowth.trans (by rw [head.isLoaderV1_eq])) (fun x hx => ?_) (fun x hx => ?_)
      (head.isChain h.at_ hroom hgrowth hplain hfirst hchain)
    · rcases hpast x hx with hzero | hlt | hmem
      · exact .inl hzero
      · exact .inr (.inl (by omega))
      · cases account with
        | Duplicate position => exact .inr (.inr hmem)
        | Account index b =>
          rcases mem_cons.mp hmem with rfl | hmem
          · have hbehind := hnext index b rfl
            omega
          · exact .inr (.inr hmem)
    · cases account with
      | Duplicate position => exact hdata x hx
      | Account index b => exact hdata x (mem_cons_of_mem _ hx)

/-- Without adjustments no region is closed. -/
theorem Written.regions_flat
    (hvasa : ¬ s.features.virtualAddressSpaceAdjustments = true) : s'.regions = s.regions := by
  induction hw with
  | nil => rfl
  | @cons s s1 s2 account accounts m metas head tail ih =>
    rw [ih (head.fixed.1 ▸ hvasa)]
    cases account with
    | Duplicate position =>
      cases head
      rfl
    | Account index b =>
      obtain ⟨-, remap, -, rfl⟩ := head.account_inv
      rw [putData_flat (s.append (s.layout.head b a)) remap (b.getData a) hvasa]
      rfl

/-- The serializer when it comes to an account. -/
theorem Written.split (hk : accounts[k]? = some account) :
    ∃ s1 s2 m, metas[k]? = some m ∧ s.Written a hosts (accounts.take k) (metas.take k) s1 ∧
      s1.Writes a hosts account m s2 ∧ s2.Written a hosts (accounts.drop (k + 1)) (metas.drop (k + 1)) s' := by
  induction hw generalizing k with
  | nil => cases hk
  | @cons s s1 s2 account' accounts m metas head tail ih =>
    cases k with
    | zero =>
      cases hk
      exact ⟨s, s1, m, rfl, .nil, head, tail⟩
    | succ k =>
      obtain ⟨t, t', m', hm, hbefore, hwrites, hafter⟩ := ih hk
      exact ⟨t, t', m', hm, .cons head hbefore, hwrites, hafter⟩

omit hw

end Serializer

end Svm
