import Svm.Proof.Sbpf.MemoryMapping

/-!
# The two kinds of mappings agree

The aligned mapping has a region for each window up to the last, of which those that
were not given are empty; the unaligned one has those that were given (`Alike`). Both
find the region of the window of an address, or one that does not translate the address
(`Alike.translate`): it is empty, starts above it, or keeps to an earlier window
(`vmToHost_eq_none`).
-/

namespace Svm.Sbpf

open Machine Run AlignedMemoryMapping MemoryRegion
open List hiding getElem?_eq_some_iff

variable {r region : MemoryRegion} {accessType : AccessType} {vmAddr len : UInt64}

namespace MemoryRegion

/-- Outside the gaps an offset is at most twice that into the backing memory. -/
theorem le_hostOffset (hgap : r.vmGapShift ≠ 63 → isInGap r.vmGapShift b = false) :
    b.toNat ≤ (r.hostOffset b).toNat * if r.vmGapShift = 63 then 1 else 2 := by
  by_cases h63 : r.vmGapShift = 63
  · rw [hostOffset, if_pos h63, if_pos h63, mul_one]
  rw [hostOffset, if_neg h63, if_neg h63]
  rcases lt_or_ge r.vmGapShift.toNat 64 with hs | hs
  · have hs' : r.vmGapShift.toNat < 63 := by
      have : r.vmGapShift.toNat ≠ 63 := fun h => h63 (UInt8.toNat_inj.mp h)
      omega
    have heven := (isInGap_eq_false hs).mp (hgap h63)
    rw [toNat_gappedOffset hs' heven]
    have hsplit := Nat.div_add_mod b.toNat (2 ^ r.vmGapShift.toNat)
    obtain ⟨k, hk⟩ : ∃ k, b.toNat / 2 ^ r.vmGapShift.toNat = 2 * k := ⟨_, (Nat.mul_div_cancel' (Nat.dvd_of_mod_eq_zero heven)).symm⟩
    rw [hk] at hsplit ⊢
    rw [Nat.mul_div_cancel_left _ (by decide), mul_comm k]
    rw [mul_left_comm] at hsplit
    omega
  · have hnot : ¬ r.vmGapShift.toNat < 64 := by omega
    have hmask : gappedOffset r.vmGapShift b = b := by
      simp only [gappedOffset, gapMask, if_neg hnot]
      simp [checkedShr]
    rw [hmask]
    omega

/-- What a region does not translate: addresses before it, any if it is empty, and those
of later windows if it keeps to its own. -/
theorem vmToHost_eq_none (hlen : 1 ≤ len)
    (h : vmAddr < r.vmAddr ∨ r.len = 0 ∨ r.WithinWindow ∧ windowOf r.vmAddr < windowOf vmAddr) :
    r.vmToHost accessType vmAddr len = none := by
  rw [Option.eq_none_iff_forall_ne_some]
  intro hostAddr hhost
  obtain ⟨-, hle, hgap, hend, -⟩ := vmToHost_eq_some.mp hhost
  have hlen : 1 ≤ len.toNat := UInt64.le_iff_toNat_le.mp hlen
  rcases h with h | h | ⟨hwindow, hlt⟩
  · exact absurd hle (UInt64.not_le.mpr h)
  · rw [h, UInt64.toNat_zero] at hend
    omega
  · have hoff := le_hostOffset hgap
    have hv := vmAddr.toNat_lt
    have hbelow := (window_le vmAddr).1
    rw [U64.toNat_satSub] at hoff
    rw [WithinWindow, VIRTUAL_ADDRESS_BITS, vmAddrRange] at hwindow
    split at hwindow
    · rename_i h63
      rw [if_pos h63] at hoff
      simp only [U64.toNat_satAdd] at hwindow
      omega
    · rename_i h63
      rw [if_neg h63] at hoff
      simp only [U64.toNat_satAdd, U64.toNat_satMul, show (2 : UInt64).toNat = 2 from rfl] at hwindow
      omega

end MemoryRegion

theorem windowOf_mono (h : v ≤ w) : windowOf v ≤ windowOf w :=
  Nat.div_le_div_right (UInt64.le_iff_toNat_le.mp h)

/-- The windows of the regions. -/
def windows (regions : List MemoryRegion) : List Nat := (regions.map (·.vmAddr)).map windowOf

/-- The regions of an aligned mapping are those of an unaligned one, each in its window,
and empty ones. -/
structure Alike (a : AlignedMemoryMapping) (u : UnalignedMemoryMapping) : Prop where
  placed : Placed 0 a.regions
  inBounds : u.InBounds
  within : ∀ r ∈ u.regions, r.WithinWindow
  nodup : (windows u.regions).Nodup
  contained : ∀ r ∈ u.regions, a.regions[windowOf r.vmAddr]? = some r
  real : ∀ (i : Nat) r, a.regions[i]? = some r → r ∈ u.regions ∨ r.len = 0
  zero : a.allowMemoryRegionZero = false → 0 ∉ windows u.regions

namespace Alike

theorem mem_windows {regions : List MemoryRegion} (h : r ∈ regions) : windowOf r.vmAddr ∈ windows regions :=
  mem_map_of_mem (mem_map_of_mem h)

/-- Both mappings find a region that translates the address, or neither does. -/
theorem translate (h : Alike a u) (pastEnd) (hlen : 1 ≤ len) :
    ((a.findRegion vmAddr).bind fun found => found.2.vmToHost accessType vmAddr len) =
      (u.findRegion pastEnd vmAddr).1.bind fun found => found.2.vmToHost accessType vmAddr len := by
  have hfinds := (h.inBounds.findRegion pastEnd vmAddr).2.2
  -- what the aligned mapping finds does not translate the address, unless it starts at or below it
  have hother : (∀ r ∈ u.regions, windowOf r.vmAddr = windowOf vmAddr → vmAddr < r.vmAddr) →
      ((a.findRegion vmAddr).bind fun found => found.2.vmToHost accessType vmAddr len) = none := by
    intro hnot
    rw [findRegion]
    split
    · cases hr : a.regions[windowOf vmAddr]? with
      | none => rfl
      | some r =>
        refine vmToHost_eq_none hlen ((h.real _ r hr).imp (fun hmem => ?_) .inl)
        exact hnot r hmem ((h.placed _ r hr).trans (zero_add _))
    · rfl
  cases hfound : (u.findRegion pastEnd vmAddr).1 with
  | none =>
    rw [hfound] at hfinds
    exact hother fun r hr _ => hfinds r hr
  | some found =>
    obtain ⟨i, r⟩ := found
    rw [hfound] at hfinds
    obtain ⟨hget, hle, hlater⟩ := hfinds
    have hmem := mem_of_getElem? hget
    show _ = r.vmToHost accessType vmAddr len
    rcases lt_or_eq_of_le (windowOf_mono hle) with hlt | heq
    · rw [vmToHost_eq_none hlen (.inr (.inr ⟨h.within r hmem, hlt⟩))]
      refine hother fun r' hr' hwindow => ?_
      obtain ⟨k, hk⟩ := mem_iff_getElem?.mp hr'
      have hk' : i < k := by
        by_contra hki
        have hsorted := pairwise_iff_getElem.mp h.inBounds.noOverlap.sorted
        obtain ⟨hk1, rfl⟩ := getElem?_eq_some_iff.mp hk
        obtain ⟨hi1, rfl⟩ := getElem?_eq_some_iff.mp hget
        rcases lt_or_eq_of_le (Nat.not_lt.mp hki) with hki | rfl
        · have := windowOf_mono (hsorted k i hk1 hi1 hki)
          omega
        · omega
      refine hlater r' (mem_iff_getElem?.mpr ⟨k - (i + 1), ?_⟩)
      rwa [getElem?_drop, Nat.add_sub_cancel' hk']
    · have hallowed : windowOf vmAddr > 0 ∨ a.allowMemoryRegionZero = true := by
        rcases Nat.eq_zero_or_pos (windowOf vmAddr) with hzero | hpos
        · refine .inr (Bool.not_eq_false _ ▸ fun hno => h.zero hno ?_)
          exact hzero ▸ heq ▸ mem_windows hmem
        · exact .inl hpos
      rw [findRegion, if_pos hallowed, ← heq, h.contained r hmem]
      rfl

theorem cached (h : Alike a u) (hbounds : u'.InBounds) (hregions : u'.regions = u.regions) : Alike a u' :=
  ⟨h.placed, hbounds, hregions ▸ h.within, hregions ▸ h.nodup, hregions ▸ h.contained, hregions ▸ h.real,
    hregions ▸ h.zero⟩

/-- A region replaced in both mappings. -/
theorem replace (h : Alike a u) (hold : a.regions[i]? = some old)
    (hstart : old.vmAddr = region.vmAddr) (hold' : u.regions[j]? = some old') (hstart' : old'.vmAddr = region.vmAddr)
    (hplaced : Placed 0 (a.regions.set i region))
    (hbounds : UnalignedMemoryMapping.InBounds { u with regions := u.regions.set j region, cache := u.cache.flush })
    (hwindow : region.WithinWindow) : Alike { a with regions := a.regions.set i region }
      { u with regions := u.regions.set j region, cache := u.cache.flush } := by
  have hi : windowOf region.vmAddr = i := by rw [← hstart, h.placed i old hold, zero_add]
  have hilt := (getElem?_eq_some_iff.mp hold).1
  have hjlt := (getElem?_eq_some_iff.mp hold').1
  have hwindows : windows (u.regions.set j region) = windows u.regions := by
    rw [windows, starts_set hold' hstart', windows]
  -- the other regions of the unaligned mapping are in other windows
  have hother : ∀ k r, u.regions[k]? = some r → (k = j ↔ windowOf r.vmAddr = i) := by
    intro k r hk
    have hget : ∀ {k : Nat} {r}, u.regions[k]? = some r → (windows u.regions)[k]? = some (windowOf r.vmAddr) := by
      intro k r hk
      rw [windows, getElem?_map, getElem?_map, hk]
      rfl
    have hj := hget hold'
    rw [hstart', hi] at hj
    constructor
    · rintro rfl
      exact Option.some.inj ((hget hk).symm.trans hj)
    · intro hr
      exact (getElem?_inj (getElem?_eq_some_iff.mp (hget hk)).1 h.nodup).mp ((hget hk).trans (hr ▸ hj.symm))
  refine ⟨hplaced, hbounds, fun r hr => ?_, ?_, fun r hr => ?_, fun k r hk => ?_, ?_⟩
  · rcases mem_or_eq_of_mem_set hr with hr | rfl
    · exact h.within r hr
    · exact hwindow
  · exact hwindows ▸ h.nodup
  · obtain ⟨k, hk⟩ := mem_iff_getElem?.mp hr
    by_cases hkj : k = j
    · subst hkj
      rw [getElem?_set_self hjlt] at hk
      cases hk
      rw [hi, getElem?_set_self hilt]
    · rw [getElem?_set_ne (Ne.symm hkj)] at hk
      rw [getElem?_set_ne (Ne.symm (mt (hother k r hk).mpr hkj))]
      exact h.contained r (mem_of_getElem? hk)
  · by_cases hki : k = i
    · subst hki
      rw [getElem?_set_self hilt] at hk
      cases hk
      exact .inl (mem_set hjlt region)
    · rw [getElem?_set_ne (Ne.symm hki)] at hk
      refine (h.real k r hk).imp_left fun hr => ?_
      obtain ⟨l, hl⟩ := mem_iff_getElem?.mp hr
      have hwindow : windowOf r.vmAddr = k := (h.placed k r hk).trans (zero_add k)
      have hlj : l ≠ j := mt (hother l r hl).mp (hwindow ▸ hki)
      exact mem_iff_getElem?.mpr ⟨l, by rwa [getElem?_set_ne (Ne.symm hlj)]⟩
  · exact hwindows ▸ h.zero

theorem windows_placed {regions : List MemoryRegion} (h : Placed first regions) :
    windows regions = range' first regions.length := by
  refine ext_getElem (by simp [windows]) fun i hi _ => ?_
  simp only [windows, getElem_map, getElem_range', one_mul]
  exact h i _ (getElem?_eq_getElem _)

theorem nodup_windows {regions : List MemoryRegion} (hsub : regions.Subperm arranged)
    (hplaced : Placed 0 arranged) : (windows regions).Nodup := by
  obtain ⟨l, hperm, hl⟩ := hsub
  have hnodup : (windows arranged).Nodup := windows_placed hplaced ▸ nodup_range'
  exact (((hperm.map _).map _).nodup_iff).mp (hnodup.sublist ((hl.map _).map _))

theorem new {regions : List MemoryRegion} (hwindow : ∀ r ∈ regions, r.WithinWindow)
    (ha : (newUninitialized regions allow).initializeRegions emptySlice = .ok a)
    (hu : (UnalignedMemoryMapping.newUninitialized regions).initializeRegions = .ok u) : Alike a u := by
  obtain ⟨hplaced, harranged, hallow, hempty⟩ := initializeRegions_ok ha
  obtain ⟨hbounds, hregions⟩ := UnalignedMemoryMapping.inBounds_initializeRegions hu
  have hperm : u.regions.Perm regions := hregions ▸ perm_sort regions
  have hwindows : (windows u.regions).Perm (windows regions) := (hperm.map _).map _
  refine ⟨hplaced, hbounds, fun r hr => hwindow r (hperm.mem_iff.mp hr), ?_, fun r hr => ?_, fun i r hr => ?_,
    fun hno => ?_⟩
  · exact hwindows.nodup_iff.mpr (nodup_windows harranged.subperm hplaced)
  · obtain ⟨i, hi⟩ := mem_iff_getElem?.mp (harranged.subperm.subset (hperm.mem_iff.mp hr))
    rw [hplaced i r hi, zero_add, hi]
  · rcases harranged.real r (mem_of_getElem? hr) with hr | ⟨vmAddr, rfl⟩
    · exact .inl (hperm.mem_iff.mpr hr)
    · exact .inr rfl
  · have hzero : windowOf (emptyRegion emptySlice 0).vmAddr = 0 := Nat.zero_div _
    rw [hwindows.mem_iff, ← hzero]
    exact (nodup_cons.mp (nodup_windows (hempty (hallow.symm.trans hno)) hplaced)).1

end Alike

/-- What two mappings that are used alike keep. -/
def BothKinds (a u : MemoryMapping) : Prop :=
  ∃ inner inner', a.ty = .Aligned inner ∧ u.ty = .Unaligned inner' ∧
    a.disableAddressTranslation = u.disableAddressTranslation ∧ Alike inner inner'

/-- A translation is that of the region which is found. -/
theorem map_eq_findRegion (m : MemoryMapping) (host : Host) : (m.map host accessType vmAddr len).1.toOption =
      (if m.disableAddressTranslation then some vmAddr
       else (m.findRegion host vmAddr).1.bind fun found => found.2.vmToHost accessType vmAddr len) ∧
    (m.map host accessType vmAddr len).2 =
      if m.disableAddressTranslation then m else (m.findRegion host vmAddr).2 := by
  rw [MemoryMapping.map]
  split
  · exact ⟨rfl, rfl⟩
  · cases hfound : (m.findRegion host vmAddr).1 with
    | none => simp [hfound, Except.toOption]
    | some found => cases hhost : found.2.vmToHost accessType vmAddr len <;> simp [hfound, hhost, Except.toOption]

namespace BothKinds

theorem new {regions : List MemoryRegion} {config : MappingConfig}
    (hwindow : ∀ r ∈ regions, r.WithinWindow) (hversion : ¬ version ≥ .V4)
    (ha : MemoryMapping.new host regions { config with alignedMemoryMapping := true } version = .ok a)
    (hu : MemoryMapping.new host regions { config with alignedMemoryMapping := false } version = .ok u) :
    BothKinds a u := by
  simp only [MemoryMapping.new, MemoryMapping.newUninitialized, hversion] at ha hu
  obtain ⟨inner, hinner, ha⟩ := except_inv ha
  obtain ⟨inner', hinner', hu⟩ := except_inv hu
  cases ha
  cases hu
  exact ⟨inner, inner', rfl, rfl, rfl, .new hwindow (mapError_ok hinner) hinner'⟩

theorem map (h : BothKinds a u) :
    BothKinds (a.map host accessType vmAddr len).2 (u.map host accessType vmAddr len).2 := by
  obtain ⟨inner, inner', ha, hu, hflag, h⟩ := h
  rw [(map_eq_findRegion a host).2, (map_eq_findRegion u host).2, hflag]
  split
  · exact ⟨inner, inner', ha, hu, hflag, h⟩
  · obtain ⟨hbounds, hregions, -⟩ := h.inBounds.findRegion host.pastEnd vmAddr
    simp only [MemoryMapping.findRegion, ha, hu]
    exact ⟨inner, _, ha, rfl, hflag, h.cached hbounds hregions⟩

theorem replace (h : BothKinds a u) (hwindow : region.WithinWindow)
    (ha : a.replaceRegion i region = .ok a') (hu : u.replaceRegion j region = .ok u') : BothKinds a' u' := by
  obtain ⟨inner, inner', hty, hty', hflag, h⟩ := h
  have hra := MemoryMapping.replaceRegion_ok ha
  have hru := MemoryMapping.replaceRegion_ok hu
  obtain ⟨old, hold, hstart⟩ := hra.start
  obtain ⟨old', hold', hstart'⟩ := hru.start
  have hplaced := hra.inBounds
  have hbounds := hru.inBounds
  have hta := hra.ty
  have htu := hru.ty
  simp only [MemoryMapping.InBounds, MemoryMapping.getRegions, hty, hty'] at *
  rw [hta] at hplaced
  rw [htu] at hbounds
  exact ⟨_, _, hta, htu, hra.translates.trans (hflag.trans hru.translates.symm),
    h.replace hold hstart hold' hstart' (hplaced h.placed) (hbounds h.inBounds) hwindow⟩

theorem same (h : BothKinds a u) (hlen : 1 ≤ len) :
    (a.map host accessType vmAddr len).1.toOption = (u.map host accessType vmAddr len).1.toOption := by
  obtain ⟨inner, inner', ha, hu, hflag, h⟩ := h
  rw [(map_eq_findRegion a host).1, (map_eq_findRegion u host).1, hflag]
  simp [MemoryMapping.findRegion, ha, hu, h.translate host.pastEnd hlen]

end BothKinds

/-- Mappings of the two kinds that are used alike agree: they translate an access to the same
host address, or both refuse it. -/
theorem mappings_agree {host : Host} {regions : List MemoryRegion} {config : MappingConfig} {version : SBPFVersion}
    {a u : MemoryMapping} (hwindow : ∀ r ∈ regions, r.WithinWindow) (hversion : ¬ version ≥ .V4)
    (h : UsedAlike host regions config version a u) (accessType : AccessType) (vmAddr len : UInt64) (hlen : 1 ≤ len) :
    (a.map host accessType vmAddr len).1.toOption = (u.map host accessType vmAddr len).1.toOption := by
  have hboth : BothKinds a u := by
    induction h with
    | new ha hu => exact .new hwindow hversion ha hu
    | map accessType vmAddr len _ ih => exact ih.map
    | replace _ hwithin ha hu ih => exact ih.replace hwithin ha hu
  exact hboth.same hlen

namespace SmallMapping

def config : MappingConfig := ⟨64, 4096, true, false, true⟩

def small : MemoryRegion := .new 0x1000 16 true 0x100000000

/-- The two mappings of a region in the second window. -/
def aligned (region : MemoryRegion) : MemoryMapping :=
  ⟨64, 4096, false, .V0, true, .Aligned ⟨[.new 0x10 0 false 0, region], false⟩⟩

def unaligned (region : MemoryRegion) : MemoryMapping :=
  ⟨64, 4096, false, .V0, true, .Unaligned ⟨[region], [0x100000000], [0], .new⟩⟩

theorem new_unaligned :
    MemoryMapping.new host [small] { config with alignedMemoryMapping := false } .V0 = .ok (unaligned small) := by
  decide +kernel

theorem withinWindow_small : ∀ r ∈ [small], r.WithinWindow := by
  intro r hr
  rw [mem_singleton.mp hr, MemoryRegion.WithinWindow]
  decide

end SmallMapping

open SmallMapping in
/-- A region that was replaced by a longer one. -/
theorem mappings_agree_grown :
    let grown := new 0x2000 32 true 0x100000000
    ((aligned grown).map host .Store 0x100000010 8).1.toOption = some 0x2010 ∧
      ((aligned grown).map host .Store 0x100000010 8).1.toOption =
        ((unaligned grown).map host .Store 0x100000010 8).1.toOption := by
  intro grown
  have hgrown : grown.WithinWindow := by
    rw [MemoryRegion.WithinWindow]
    decide
  exact ⟨rfl, mappings_agree withinWindow_small (by decide)
    (.replace (i := 1) (j := 0) (.new new_aligned new_unaligned) hgrown (by decide +kernel) (by decide +kernel))
    .Store 0x100000010 8 (by decide)⟩

open SmallMapping in
/-- A replaced region with gaps: its bytes end in its window, but its frames reach into the
next one, where only the unaligned mapping finds it. -/
theorem replaced_mappings_disagree :
    let gapped := newGapped 0x1000 0x100000000 true 0x100000000 4096
    MemoryMapping.new host [small] { config with alignedMemoryMapping := true } .V0 = .ok (aligned small) ∧
      MemoryMapping.new host [small] { config with alignedMemoryMapping := false } .V0 = .ok (unaligned small) ∧
      (∀ r ∈ [small], r.WithinWindow) ∧
      (aligned small).replaceRegion 1 gapped = .ok (aligned gapped) ∧
      (unaligned small).replaceRegion 0 gapped = .ok (unaligned gapped) ∧
      ((aligned gapped).map host .Load 0x200000000 1).1.toOption = none ∧
      ((unaligned gapped).map host .Load 0x200000000 1).1.toOption = some 0x80001000 := by
  refine ⟨new_aligned, new_unaligned, withinWindow_small, ?_⟩
  decide +kernel

end Svm.Sbpf
