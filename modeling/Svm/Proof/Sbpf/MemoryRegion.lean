import Svm.Impl.Sbpf.MemoryRegion

/-!
# Translation by one region

`vmToHost_eq_some` says when a region translates an access, and to what. In a
gapped region the offset into the backing memory is that of the frame plus that
within the frame (`backingOffset`), and an access is translated like its bytes
exactly if it is refused or stays within one frame (`gapped_bytewise_iff`): only the
first byte is tested for lying in a gap.
-/

namespace Svm.Sbpf.MemoryRegion

open Machine UInt64

variable {n : Nat}

/-- The offset into the backing memory of an offset into the region. -/
def hostOffset (r : MemoryRegion) (beginOffset : UInt64) : UInt64 :=
  if r.vmGapShift = 63 then beginOffset else gappedOffset r.vmGapShift beginOffset

variable {r : MemoryRegion} {accessType : AccessType} {vmAddr len h : UInt64}

theorem vmToHost_eq_some : r.vmToHost accessType vmAddr len = some h ↔
      (accessType = .Store → r.writable = true) ∧ r.vmAddr ≤ vmAddr ∧
      (r.vmGapShift ≠ 63 → isInGap r.vmGapShift (U64.satSub vmAddr r.vmAddr) = false) ∧
      (r.hostOffset (U64.satSub vmAddr r.vmAddr)).toNat + len.toNat ≤ r.len.toNat ∧
      U64.satAdd r.hostAddr (r.hostOffset (U64.satSub vmAddr r.vmAddr)) = h := by
  have hlen := r.len.toNat_lt
  simp only [vmToHost]
  split
  · rename_i hw
    exact ⟨fun h => (by cases h), fun h => absurd (h.1 hw.1) hw.2⟩
  split
  · rename_i hlt
    exact ⟨fun h => (by cases h), fun h => absurd h.2.1 (UInt64.not_le.mpr hlt)⟩
  rename_i hle
  have hle : r.vmAddr ≤ vmAddr := UInt64.not_lt.mp hle
  simp only [hostOffset]
  split
  -- The two offsets are compared with the length in the same way.
  all_goals
    split
    · rename_i hadd
      have := U64.checkedAdd_eq_some.mp hadd
      simp only [this]
      simp
      tauto
    · rename_i hadd
      have := U64.checkedAdd_eq_none.mp hadd
      simp only [reduceCtorEq, false_iff]
      omega

/-! ## Gaps -/

section Gaps

variable {shift : UInt8}

theorem toNat_gapMask (hn : n < 64) : (gapMask n).toNat = (2 ^ (64 - n) - 1) * 2 ^ n := by
  have hpos : 0 < 2 ^ n := Nat.two_pow_pos n
  have hsplit : 2 ^ (64 - n) * 2 ^ n = 2 ^ 64 := by
    rw [← pow_add, Nat.sub_add_cancel (le_of_lt hn)]
  have hle : 2 ^ n ≤ 2 ^ 63 := Nat.pow_le_pow_right (by decide) (by omega)
  rw [gapMask, if_pos hn, UInt64.toNat_shiftLeft, toNat_ofNat', U64.toNat_max,
    Nat.mod_eq_of_lt (a := n) (by omega), Nat.mod_eq_of_lt hn, Nat.shiftLeft_eq, Nat.sub_mul, Nat.sub_mul]
  omega

/-- The mask keeps the frame or gap and clears the offset within it. -/
theorem and_gapMask (hn : n < 64) (b) : (b &&& gapMask n).toNat = b.toNat / 2 ^ n * 2 ^ n := by
  rw [UInt64.toNat_and, toNat_gapMask hn]
  apply Nat.eq_of_testBit_eq
  intro i
  have hb : 64 ≤ i → b.toNat.testBit i = false := fun hi =>
    Nat.testBit_lt_two_pow (lt_of_lt_of_le b.toNat_lt (Nat.pow_le_pow_right (by decide) hi))
  rw [Nat.testBit_and, Nat.testBit_mul_two_pow, Nat.testBit_mul_two_pow, Nat.testBit_div_two_pow]
  by_cases hi : n ≤ i
  · rw [Nat.sub_add_cancel hi]
    by_cases h64 : i < 64
    · simp [hi, show i - n < 64 - n by omega]
    · simp [hb (by omega)]
  · simp [hi]

theorem and_not_gapMask (hn : n < 64) (b) : (b &&& ~~~gapMask n).toNat = b.toNat % 2 ^ n := by
  have hsplit : 2 ^ (64 - n) * 2 ^ n = 2 ^ 64 := by
    rw [← pow_add, Nat.sub_add_cancel (le_of_lt hn)]
  have hle : 2 ^ n ≤ 2 ^ 63 := Nat.pow_le_pow_right (by decide) (by omega)
  have hnot : (~~~gapMask n).toNat = 2 ^ n - 1 := by
    rw [toNat_not, toNat_gapMask hn, Nat.sub_mul, size]
    omega
  rw [UInt64.toNat_and, hnot, Nat.and_two_pow_sub_one_eq_mod]

theorem isInGap_eq_false (hs : shift.toNat < 64) : isInGap shift b = false ↔ b.toNat / 2 ^ shift.toNat % 2 = 0 := by
  rw [isInGap, checkedShr, if_pos hs, beq_eq_false_iff_ne, ne_eq, ← UInt64.toNat_inj, UInt64.toNat_and,
    UInt64.toNat_shiftRight, toNat_ofNat', Nat.mod_eq_of_lt (a := shift.toNat) (by omega),
    Nat.mod_eq_of_lt hs]
  have hone : (1 : UInt64).toNat = 1 := rfl
  rw [hone, Nat.and_one_is_mod]
  omega

/-- Outside the gaps: the frame and the offset within it. -/
theorem toNat_gappedOffset (hs : shift.toNat < 63) (hgap : b.toNat / 2 ^ shift.toNat % 2 = 0) :
    (gappedOffset shift b).toNat = b.toNat / 2 ^ shift.toNat / 2 * 2 ^ shift.toNat + b.toNat % 2 ^ shift.toNat := by
  have hone : checkedShr (b &&& gapMask shift.toNat) 1 = (b &&& gapMask shift.toNat) >>> 1 := rfl
  have hshift : (b &&& gapMask shift.toNat).toNat >>> ((1 : UInt64).toNat % 64) =
      2 ^ shift.toNat * (b.toNat / 2 ^ shift.toNat / 2) := by
    rw [and_gapMask (by omega), Nat.shiftRight_eq_div_pow]
    show _ / 2 ^ 1 = _
    obtain ⟨k, hk⟩ : ∃ k, b.toNat / 2 ^ shift.toNat = 2 * k := ⟨_, (Nat.mul_div_cancel' (Nat.dvd_of_mod_eq_zero hgap)).symm⟩
    rw [hk, Nat.mul_div_cancel_left _ (by decide), mul_assoc, Nat.mul_div_cancel_left _ (by decide),
      mul_comm]
  rw [gappedOffset, hone, UInt64.toNat_or, UInt64.toNat_shiftRight, hshift, and_not_gapMask (by omega),
    ← Nat.two_pow_add_eq_or_of_lt (Nat.mod_lt _ (Nat.two_pow_pos _)), mul_comm]

end Gaps

/-! ## Accesses and their bytes -/

/-- If the access is translated, so is each of its bytes, to consecutive host
addresses. -/
def Bytewise (r : MemoryRegion) (accessType : AccessType) (vmAddr len : UInt64) : Prop :=
  ∀ h, r.vmToHost accessType vmAddr len = some h →
    ∀ i < len.toNat, r.vmToHost accessType (vmAddr + .ofNat i) 1 = some (h + .ofNat i)

/-- The frames below an address, without the gaps between them, and the offset within the
frame of the address. -/
def backingOffset (r : MemoryRegion) (vmAddr : UInt64) : Nat :=
  (vmAddr.toNat - r.vmAddr.toNat) / 2 ^ r.vmGapShift.toNat / 2 * 2 ^ r.vmGapShift.toNat +
    (vmAddr.toNat - r.vmAddr.toNat) % 2 ^ r.vmGapShift.toNat

/-- A store to a region that is not writable, a first byte below the region or in a gap, or
more bytes than the backing memory has from there on. -/
def Refuses (r : MemoryRegion) (accessType : AccessType) (vmAddr len : UInt64) : Prop :=
  (accessType = .Store ∧ r.writable = false) ∨ vmAddr.toNat < r.vmAddr.toNat ∨
    (vmAddr.toNat - r.vmAddr.toNat) / 2 ^ r.vmGapShift.toNat % 2 = 1 ∨
    r.len.toNat < r.backingOffset vmAddr + len.toNat

/-- The access stays within one frame or gap, and neither its guest nor its host
addresses run past the end of the address space. -/
structure WithinFrame (r : MemoryRegion) (vmAddr len : UInt64) : Prop where
  frame : (vmAddr.toNat - r.vmAddr.toNat) % 2 ^ r.vmGapShift.toNat + len.toNat ≤ 2 ^ r.vmGapShift.toNat
  guest : vmAddr.toNat + len.toNat ≤ 2 ^ 64
  host : len.toNat = 1 ∨ r.hostAddr.toNat + r.backingOffset vmAddr + len.toNat ≤ 2 ^ 64

theorem div_mod_add {F : Nat} (h : b % F + i < F) : (b + i) / F = b / F ∧ (b + i) % F = b % F + i := by
  have hF : 0 < F := by omega
  have hsplit : b + i = F * (b / F) + (b % F + i) := by
    have := Nat.div_add_mod b F
    omega
  rw [hsplit, Nat.mul_add_div hF, Nat.mul_add_mod, Nat.div_eq_of_lt h, Nat.mod_eq_of_lt h]
  exact ⟨rfl, rfl⟩

theorem toNat_ofNat_lt (h : n < len.toNat) : (UInt64.ofNat n).toNat = n := by
  have := len.toNat_lt
  rw [toNat_ofNat', Nat.mod_eq_of_lt (by omega)]

section Bytes

variable (hs : r.vmGapShift.toNat < 63)
include hs

theorem vmGapShift_ne : r.vmGapShift ≠ 63 := fun e => by
  rw [e] at hs
  exact absurd hs (by decide)

/-- `vmToHost_eq_some` for a gapped region, in numbers. -/
theorem vmToHost_gapped : r.vmToHost accessType vmAddr len = some h ↔
      (accessType = .Store → r.writable = true) ∧ r.vmAddr.toNat ≤ vmAddr.toNat ∧
      (vmAddr.toNat - r.vmAddr.toNat) / 2 ^ r.vmGapShift.toNat % 2 = 0 ∧
      r.backingOffset vmAddr + len.toNat ≤ r.len.toNat ∧
      h.toNat = min (r.hostAddr.toNat + r.backingOffset vmAddr) (2 ^ 64 - 1) := by
  have hoff (hgap : (vmAddr.toNat - r.vmAddr.toNat) / 2 ^ r.vmGapShift.toNat % 2 = 0) :
      (gappedOffset r.vmGapShift (U64.satSub vmAddr r.vmAddr)).toNat = r.backingOffset vmAddr := by
    rw [toNat_gappedOffset hs (by rwa [U64.toNat_satSub]), U64.toNat_satSub, backingOffset]
  rw [vmToHost_eq_some, hostOffset, isInGap_eq_false (by omega), U64.toNat_satSub, ← UInt64.toNat_inj,
    U64.toNat_satAdd]
  have hne := vmGapShift_ne hs
  simp only [hne, ne_eq, not_false_eq_true, forall_true_left]
  constructor
  · rintro ⟨hw, hle, hgap, hlen, hh⟩
    rw [if_neg not_false, hoff hgap] at hlen hh
    exact ⟨hw, hle, hgap, hlen, hh.symm⟩
  · rintro ⟨hw, hle, hgap, hlen, hh⟩
    rw [if_neg not_false, hoff hgap]
    exact ⟨hw, hle, hgap, hlen, hh.symm⟩

theorem vmToHost_gapped_eq_none : r.vmToHost accessType vmAddr len = none ↔ r.Refuses accessType vmAddr len := by
  rw [Refuses]
  constructor
  · intro hnone
    by_contra hnot
    simp only [not_or, not_and, Bool.not_eq_false] at hnot
    obtain ⟨hw, hle, hgap, hlen⟩ := hnot
    have hlt : min (r.hostAddr.toNat + r.backingOffset vmAddr) (2 ^ 64 - 1) < 2 ^ 64 := by omega
    have hsome : r.vmToHost accessType vmAddr len = some _ :=
      (vmToHost_gapped hs).mpr ⟨hw, by omega, by omega, by omega, UInt64.toNat_ofNat_of_lt' hlt⟩
    rw [hnone] at hsome
    cases hsome
  · intro hrefuses
    cases hh : r.vmToHost accessType vmAddr len with
    | none => rfl
    | some h =>
      obtain ⟨hw, hle, hgap, hlen, -⟩ := (vmToHost_gapped hs).mp hh
      rcases hrefuses with ⟨hstore, hnot⟩ | hlow | hodd | hlong
      · rw [hw hstore] at hnot
        cases hnot
      · omega
      · omega
      · omega

omit hs in
/-- A byte further on in the frame is that much further on in the backing memory. -/
theorem backingOffset_add (hle : r.vmAddr.toNat ≤ a.toNat) (ha : a'.toNat = a.toNat + i)
    (hframe : (a.toNat - r.vmAddr.toNat) % 2 ^ r.vmGapShift.toNat + i < 2 ^ r.vmGapShift.toNat) :
    (a'.toNat - r.vmAddr.toNat) / 2 ^ r.vmGapShift.toNat = (a.toNat - r.vmAddr.toNat) / 2 ^ r.vmGapShift.toNat ∧
      r.backingOffset a' = r.backingOffset a + i := by
  have hoff : a'.toNat - r.vmAddr.toNat = a.toNat - r.vmAddr.toNat + i := by omega
  obtain ⟨hdiv, hmod⟩ := div_mod_add hframe
  rw [← hoff] at hdiv hmod
  refine ⟨hdiv, ?_⟩
  rw [backingOffset, backingOffset, hdiv, hmod, Nat.add_assoc]

theorem bytewise_of_withinFrame (hf : r.WithinFrame vmAddr len) : r.Bytewise accessType vmAddr len := by
  intro h hh i hi
  have hframe := hf.frame
  have hguest := hf.guest
  rw [vmToHost_gapped hs] at hh ⊢
  obtain ⟨hw, hle, hgap, hlen, hh⟩ := hh
  have hin := toNat_ofNat_lt hi
  have haddr : (vmAddr + UInt64.ofNat i).toNat = vmAddr.toNat + i := by
    rw [UInt64.toNat_add, hin, Nat.mod_eq_of_lt (by omega)]
  obtain ⟨hdiv, hoff⟩ := backingOffset_add hle haddr (by omega)
  have hone : (1 : UInt64).toNat = 1 := rfl
  refine ⟨hw, by omega, by rw [hdiv, hgap], by omega, ?_⟩
  rw [UInt64.toNat_add]
  have := hf.host
  omega

/-- Where an access is translated like its bytes, it stays within its frame: the
first byte behind the frame lies in a gap. -/
theorem frame_of_bytewise (hb : r.Bytewise accessType vmAddr len) (hh : r.vmToHost accessType vmAddr len = some h) :
    (vmAddr.toNat - r.vmAddr.toNat) % 2 ^ r.vmGapShift.toNat + len.toNat ≤ 2 ^ r.vmGapShift.toNat := by
  by_contra hlong
  set F := 2 ^ r.vmGapShift.toNat with hF
  set b := vmAddr.toNat - r.vmAddr.toNat with hbdef
  have hpos : 0 < F := Nat.two_pow_pos _
  have hmod := Nat.mod_lt b hpos
  have hi : F - b % F < len.toNat := by omega
  have hbyte := (vmToHost_gapped hs).mp (hb h hh _ hi)
  obtain ⟨-, hle, hgap, -⟩ := (vmToHost_gapped hs).mp hh
  obtain ⟨-, hle', hgap', -⟩ := hbyte
  rw [← hbdef, ← hF] at hgap
  have hnext : b + (F - b % F) = F * (b / F + 1) := by
    have := Nat.div_add_mod b F
    rw [mul_add]
    omega
  -- the end of the frame is below the end of the address space
  have hlt : b + (F - b % F) < 2 ^ 64 := by
    have hsplit : 2 ^ 64 = 2 * F * 2 ^ (63 - r.vmGapShift.toNat) := by
      rw [← pow_succ', ← pow_add]
      congr 1
      omega
    have hk : b / F = 2 * (b / F / 2) := by omega
    have hble : 2 * F * (b / F / 2) ≤ b := by
      rw [mul_comm 2 F, mul_assoc, ← hk]
      exact Nat.mul_div_le b F
    have hblt : b < 2 ^ 64 := lt_of_le_of_lt (Nat.sub_le _ _) vmAddr.toNat_lt
    have hM : b / F / 2 + 1 ≤ 2 ^ (63 - r.vmGapShift.toNat) := by
      have : 2 * F * (b / F / 2) < 2 * F * 2 ^ (63 - r.vmGapShift.toNat) := by omega
      exact Nat.lt_of_mul_lt_mul_left this
    have hend : 2 * F * (b / F / 2 + 1) ≤ 2 ^ 64 := by
      rw [hsplit]
      exact Nat.mul_le_mul_left _ hM
    rw [hnext, hk, mul_add, ← mul_assoc, mul_comm F 2]
    rw [mul_add] at hend
    omega
  rw [UInt64.toNat_add, toNat_ofNat_lt hi] at hle' hgap'
  have hoff : (vmAddr.toNat + (F - b % F)) % 2 ^ 64 - r.vmAddr.toNat = F * (b / F + 1) := by omega
  rw [hoff, Nat.mul_div_cancel_left _ hpos] at hgap'
  omega

end Bytes

/-- In a gapped region, an access is translated like its bytes if and only if the region
refuses it or it stays within one frame. -/
theorem gapped_bytewise_iff (r : MemoryRegion) (hs : r.vmGapShift.toNat < 63) (accessType : AccessType)
    (vmAddr len : UInt64) (hlen : 1 ≤ len.toNat) :
    r.Bytewise accessType vmAddr len ↔
      r.Refuses accessType vmAddr len ∨ r.WithinFrame vmAddr len := by
  rw [← vmToHost_gapped_eq_none hs]
  constructor
  · intro hb
    cases hh : r.vmToHost accessType vmAddr len with
    | none => exact .inl rfl
    | some h =>
      have hframe := frame_of_bytewise hs hb hh
      obtain ⟨-, hle, hgap, hend, heq⟩ := (vmToHost_gapped hs).mp hh
      have hv := vmAddr.toNat_lt
      -- the last byte tells the rest
      have hlast : len.toNat - 1 < len.toNat := by omega
      have hbyte := (vmToHost_gapped hs).mp (hb h hh _ hlast)
      rw [UInt64.toNat_add, UInt64.toNat_add, toNat_ofNat_lt hlast] at hbyte
      have hguest : vmAddr.toNat + len.toNat ≤ 2 ^ 64 := by
        by_contra hwrap
        have hi : 2 ^ 64 - vmAddr.toNat < len.toNat := by omega
        obtain ⟨-, hle', -⟩ := (vmToHost_gapped hs).mp (hb h hh _ hi)
        rw [UInt64.toNat_add, toNat_ofNat_lt hi] at hle'
        -- the end of the address space is a frame's end, for a region that starts at zero
        obtain ⟨-, hmod⟩ := div_mod_add (by omega :
          (vmAddr.toNat - r.vmAddr.toNat) % 2 ^ r.vmGapShift.toNat + (2 ^ 64 - vmAddr.toNat) < 2 ^ r.vmGapShift.toNat)
        have hdvd : 2 ^ 64 % 2 ^ r.vmGapShift.toNat = 0 :=
          Nat.mod_eq_zero_of_dvd (Nat.pow_dvd_pow 2 (by omega))
        rw [show vmAddr.toNat - r.vmAddr.toNat + (2 ^ 64 - vmAddr.toNat) = 2 ^ 64 by omega] at hmod
        omega
      have haddr : (vmAddr + UInt64.ofNat (len.toNat - 1)).toNat = vmAddr.toNat + (len.toNat - 1) := by
        rw [UInt64.toNat_add, toNat_ofNat_lt hlast, Nat.mod_eq_of_lt (by omega)]
      obtain ⟨-, hoff⟩ := backingOffset_add hle haddr (by omega)
      refine .inr ⟨hframe, hguest, ?_⟩
      omega
  · rintro (hnone | hf)
    · intro h hh
      rw [hnone] at hh
      cases hh
    · exact bytewise_of_withinFrame hs hf

/-- The stack of one frame size: an access to the last bytes of a frame. -/
theorem gapped_bytewise_frame :
    let r := newGapped 0x1000 8192 true 0x200000000 4096
    r.Bytewise .Store 0x200000ff8 8 := by
  intro r
  exact (gapped_bytewise_iff r (by decide) .Store 0x200000ff8 8 (by decide)).mpr
    (.inr ⟨by decide, by decide, .inr (by decide)⟩)

/-- An access that starts in a frame and ends in the gap behind it. -/
theorem gapped_not_bytewise :
    let r := newGapped 0x1000 8192 true 0x200000000 4096
    r.vmToHost .Load 0x200000ffa 16 = some 0x1ffa ∧ r.vmToHost .Load 0x200001000 1 = none ∧
      ¬ r.Bytewise .Load 0x200000ffa 16 := by
  intro r
  have hsome : r.vmToHost .Load 0x200000ffa 16 = some 0x1ffa := by decide
  have hnone : r.vmToHost .Load 0x200001000 1 = none := by decide
  refine ⟨hsome, hnone, fun hb => ?_⟩
  have hbyte := hb _ hsome 6 (by decide)
  rw [show (0x200000ffa : UInt64) + .ofNat 6 = 0x200001000 from rfl, hnone] at hbyte
  cases hbyte

end Svm.Sbpf.MemoryRegion
