import Mathlib.Data.List.Basic

/-!
# First-index maps

A table that holds, for each number, the first position of that number in a
list, with `u16::MAX` for the numbers that do not occur. `Records` says that a
table is the one of a list; `Records.append_of_mem` and
`Records.append_of_notMem` keep it while the list grows, and `Records.lookup`
reads it, as long as the list has no position `u16::MAX`.
-/

namespace Svm.FirstIndex

/-- The first position of `t` in `keys`, or `u16::MAX`. -/
def firstIndex (keys : List UInt16) (t : UInt16) : UInt16 :=
  if t ∈ keys then .ofNat (keys.idxOf t) else 65535

/-- `table` maps each of its indices to the first position in `keys`. -/
def Records (table keys : List UInt16) : Prop :=
  ∀ t : UInt16, t.toNat < table.length → table[t.toNat]? = some (firstIndex keys t)

variable {table keys : List UInt16} {t v : UInt16}

theorem firstIndex_append_of_mem (h : t ∈ keys) (k) : firstIndex (keys ++ [k]) t = firstIndex keys t := by
  simp [firstIndex, h, List.idxOf_append_of_mem h]

theorem firstIndex_append_self (h : t ∉ keys) : firstIndex (keys ++ [t]) t = .ofNat keys.length := by
  simp [firstIndex, List.idxOf_append_of_notMem h]

theorem firstIndex_append_ne (hk : t ≠ k) : firstIndex (keys ++ [k]) t = firstIndex keys t := by
  by_cases h : t ∈ keys
  · exact firstIndex_append_of_mem h k
  · simp [firstIndex, h, hk]

/-- Where `t` occurs, its first index is a position that holds it. -/
theorem toNat_firstIndex (hlen : keys.length ≤ 65535) (h : t ∈ keys) :
    (firstIndex keys t).toNat = keys.idxOf t := by
  have := List.idxOf_lt_length_of_mem h
  rw [firstIndex, if_pos h, UInt16.toNat_ofNat', Nat.mod_eq_of_lt (by omega)]

theorem firstIndex_lt_iff (hlen : keys.length ≤ 65535) : (firstIndex keys t).toNat < keys.length ↔ t ∈ keys := by
  by_cases h : t ∈ keys
  · rw [toNat_firstIndex hlen h]
    exact ⟨fun _ => h, List.idxOf_lt_length_of_mem⟩
  · simp only [firstIndex, h, iff_false, Nat.not_lt]
    exact hlen

theorem records_replicate (n : Nat) : Records (.replicate n 65535) [] := by
  intro t ht
  rw [List.length_replicate] at ht
  simp [ht, firstIndex]

theorem Records.append_of_mem (h : Records table keys) (ht : t ∈ keys) : Records table (keys ++ [t]) := by
  intro u hu
  rw [h u hu]
  by_cases e : u = t
  · rw [e, firstIndex_append_of_mem ht]
  · rw [firstIndex_append_ne e]

theorem Records.append_of_notMem (h : Records table keys) (ht : t ∉ keys) :
    Records (table.set t.toNat (.ofNat keys.length)) (keys ++ [t]) := by
  intro u hu
  rw [List.length_set] at hu
  by_cases e : u = t
  · subst e
    rw [List.getElem?_set_self hu, firstIndex_append_self ht]
  · have : t.toNat ≠ u.toNat := fun he => e (UInt16.toNat_inj.mp he).symm
    rw [List.getElem?_set_ne this, h u hu, firstIndex_append_ne e]

/-- What the table holds at `t` is the first index of `t`. -/
theorem Records.lookup (h : Records table keys) (hv : table[t.toNat]? = some v) : v = firstIndex keys t := by
  obtain ⟨hlt, -⟩ := getElem?_eq_some_iff.mp hv
  rw [h t hlt] at hv
  exact (Option.some.inj hv).symm

end Svm.FirstIndex
