import Mathlib.Algebra.Ring.Nat
import Mathlib.Algebra.Ring.Int.Defs
import Mathlib.Tactic.Common

/-!
# Machine integers

Rust's saturating and checked arithmetic, on naturals and integers with an
explicit width: an unsigned value of width `w` is a natural below `2 ^ w`, a
signed one an integer from `-2 ^ (w - 1)` to `2 ^ (w - 1) - 1`. Each operation
comes with the lemma that it is the exact one where the exact result is in
range.
-/

namespace Svm.Machine

variable {w : Nat} {a b : Int}

/-! ## Unsigned -/

/-- `a.saturating_add(b)`. -/
def satAdd (w a b : Nat) : Nat := min (a + b) (2 ^ w - 1)

/-- `a.saturating_mul(b)`. -/
def satMul (w a b : Nat) : Nat := min (a * b) (2 ^ w - 1)

/-- `a.checked_add(b)`. -/
def checkedAdd (w a b : Nat) : Option Nat := if a + b < 2 ^ w then some (a + b) else none

theorem satAdd_eq {a b : Nat} (h : a + b < 2 ^ w) : satAdd w a b = a + b := by
  unfold satAdd; omega

theorem checkedAdd_eq_some {a b : Nat} : checkedAdd w a b = some c ↔ a + b = c ∧ c < 2 ^ w := by
  unfold checkedAdd
  split <;> simp only [Option.some.injEq, reduceCtorEq, false_iff] <;> omega

/-! ## Signed -/

/-- `i{w}::MIN`. -/
def iMin (w : Nat) : Int := -2 ^ (w - 1)

/-- `i{w}::MAX`. -/
def iMax (w : Nat) : Int := 2 ^ (w - 1) - 1

/-- Whether an integer is a value of `i{w}`. -/
def InRange (w : Nat) (x : Int) : Prop := iMin w ≤ x ∧ x ≤ iMax w

instance (w : Nat) (x : Int) : Decidable (InRange w x) := inferInstanceAs (Decidable (_ ∧ _))

/-- An exact result, clamped to `i{w}`. -/
def clamp (w : Nat) (x : Int) : Int := max (iMin w) (min x (iMax w))

/-- `a.saturating_add(b)`. -/
def iSatAdd (w : Nat) (a b : Int) : Int := clamp w (a + b)

/-- `a.saturating_sub(b)`. -/
def iSatSub (w : Nat) (a b : Int) : Int := clamp w (a - b)

/-- `a.checked_add(b)`. -/
def iCheckedAdd (w : Nat) (a b : Int) : Option Int := if InRange w (a + b) then some (a + b) else none

/-- `n as i{w}`, for an unsigned `n`. -/
def asSigned (w n : Nat) : Int := Int.bmod n (2 ^ w)

/-- `x as u{w}`. -/
def asUnsigned (w : Nat) (x : Int) : Nat := (x % 2 ^ w).toNat

theorem clamp_eq (h : InRange w x) : clamp w x = x := by
  unfold clamp; unfold InRange at h; omega

theorem iSatAdd_eq (h : InRange w (a + b)) : iSatAdd w a b = a + b := clamp_eq h

theorem iSatSub_eq (h : InRange w (a - b)) : iSatSub w a b = a - b := clamp_eq h

theorem iCheckedAdd_eq (h : InRange w (a + b)) :
    iCheckedAdd w a b = some (a + b) := if_pos h

theorem iCheckedAdd_eq_some : iCheckedAdd w a b = some c ↔ a + b = c ∧ InRange w c := by
  unfold iCheckedAdd
  split
  · rename_i h
    simp only [Option.some.injEq, iff_self_and]
    rintro rfl; exact h
  · rename_i h
    simp only [reduceCtorEq, false_iff, not_and]
    rintro rfl; exact h

theorem asSigned_eq (h : 2 * n < 2 ^ w) : asSigned w n = n := by
  unfold asSigned
  rw [Int.bmod_eq_of_le] <;> omega

/-! ## `u64` values -/

namespace U64

variable {a b : UInt64}

/-- `u64::MAX`. -/
def max : UInt64 := .ofNat (2 ^ 64 - 1)

def satAdd (a b : UInt64) : UInt64 := .ofNat (Machine.satAdd 64 a.toNat b.toNat)
def satSub (a b : UInt64) : UInt64 := .ofNat (a.toNat - b.toNat)
def satMul (a b : UInt64) : UInt64 := .ofNat (Machine.satMul 64 a.toNat b.toNat)
def checkedAdd (a b : UInt64) : Option UInt64 := (Machine.checkedAdd 64 a.toNat b.toNat).map .ofNat
def checkedSub (a b : UInt64) : Option UInt64 := if b ≤ a then some (a - b) else none
def checkedMul (a b : UInt64) : Option UInt64 := if a.toNat * b.toNat < 2 ^ 64 then some (a * b) else none

@[simp] theorem toNat_max : max.toNat = 2 ^ 64 - 1 := rfl

@[simp] theorem toNat_satAdd (a b) : (satAdd a b).toNat = min (a.toNat + b.toNat) (2 ^ 64 - 1) := by
  simp only [satAdd, Machine.satAdd, UInt64.toNat_ofNat']
  omega

@[simp] theorem toNat_satSub (a b) : (satSub a b).toNat = a.toNat - b.toNat := by
  have := a.toNat_lt
  simp only [satSub, UInt64.toNat_ofNat']
  omega

@[simp] theorem toNat_satMul (a b) : (satMul a b).toNat = min (a.toNat * b.toNat) (2 ^ 64 - 1) := by
  simp only [satMul, Machine.satMul, UInt64.toNat_ofNat']
  omega

theorem checkedAdd_eq_some : checkedAdd a b = some c ↔ a.toNat + b.toNat = c.toNat := by
  have := c.toNat_lt
  simp only [checkedAdd, Option.map_eq_some_iff, Machine.checkedAdd_eq_some, ← UInt64.toNat_inj,
    UInt64.toNat_ofNat']
  constructor
  · omega
  · intro h
    exact ⟨c.toNat, ⟨h, this⟩, by omega⟩

theorem checkedAdd_eq_none : checkedAdd a b = none ↔ 2 ^ 64 ≤ a.toNat + b.toNat := by
  simp only [checkedAdd, Machine.checkedAdd, Option.map_eq_none_iff]
  split <;> simp only [reduceCtorEq, false_iff, true_iff] <;> omega

theorem checkedAdd_one (h : a.toNat + 1 < 2 ^ 64) : ∃ b, checkedAdd a 1 = some b ∧ b.toNat = a.toNat + 1 := by
  refine ⟨a + 1, checkedAdd_eq_some.mpr ?_, ?_⟩ <;>
    simp only [UInt64.toNat_add, UInt64.toNat_one] <;> omega

theorem checkedSub_of_le (h : b ≤ a) : checkedSub a b = some (a - b) := if_pos h

theorem checkedMul_of_lt (h : a.toNat * b.toNat < 2 ^ 64) : checkedMul a b = some (a * b) :=
  if_pos h

end U64

/-! ## Conversions -/

theorem toInt_toInt64 {x : UInt64} (h : x.toNat < 2 ^ 63) : x.toInt64.toInt = x.toNat := by
  have hbits : 2 * x.toBitVec.toNat < 2 ^ 64 := by
    rw [UInt64.toNat_toBitVec]
    omega
  exact BitVec.toInt_eq_toNat_of_lt hbits

theorem toNat_ofInt {n : Nat} (h : n < 2 ^ 64) : (Int64.ofInt n).toUInt64.toNat = n := by
  have hbits : (Int64.ofInt n).toUInt64.toNat = (BitVec.ofInt 64 n).toNat := rfl
  rw [hbits, BitVec.toNat_ofInt]
  omega

theorem toNat_toUInt64 {x : Int64} (h : 0 ≤ x.toInt) : (x.toUInt64.toNat : Int) = x.toInt := by
  have hbits : x.toInt = x.toBitVec.toInt := rfl
  have hnat : x.toUInt64.toNat = x.toBitVec.toNat := rfl
  rw [hbits, BitVec.toInt_eq_toNat_cond] at h ⊢
  split at h
  · rename_i hlt
    rw [hnat, if_pos hlt]
  · omega

/-- Narrowing undoes a sign extension. -/
theorem toUInt32_toInt64 (i : Int32) : i.toInt64.toUInt64.toUInt32 = i.toUInt32 := by
  have hbits : i.toInt64.toUInt64.toUInt32.toBitVec = (i.toBitVec.signExtend 64).setWidth 32 := rfl
  refine UInt32.toBitVec_inj.mp (hbits.trans ?_)
  ext j hj
  simp [BitVec.getElem_signExtend, hj, show j < 64 by omega]

end Svm.Machine
