import Mathlib.Tactic.Common
import Mathlib.Algebra.Order.Group.Nat

/-!
# Bytes

Little-endian words and slices of byte strings. A word written and read back is
the word (`ofLe_toLe`); what stands between two parts of a byte string is read
where the first part ends (`slice_append`). Bytes written over others are read
back, and those around them are as they were (`overwrite`).
-/

namespace Svm.Bytes

variable {n : Nat}

/-! ## Words -/

/-- The `n` low bytes of `x`, the least significant first. -/
def toLe : (n x : Nat) → List UInt8
  | 0, _ => []
  | n + 1, x => .ofNat x :: toLe n (x / 256)

/-- The number whose bytes are given, the least significant first. -/
def ofLe : List UInt8 → Nat
  | [] => 0
  | b :: bs => b.toNat + 256 * ofLe bs

@[simp] theorem length_toLe (n x : Nat) : (toLe n x).length = n := by
  induction n generalizing x with
  | zero => rfl
  | succ n ih => simp [toLe, ih]

theorem ofLe_toLe (h : x < 256 ^ n) : ofLe (toLe n x) = x := by
  induction n generalizing x with
  | zero =>
    have : x = 0 := by simpa using h
    simp [toLe, ofLe, this]
  | succ n ih =>
    have hdiv : x / 256 < 256 ^ n := by
      exact Nat.div_lt_of_lt_mul (by omega)
    rw [toLe, ofLe, ih hdiv, UInt8.toNat_ofNat']
    omega

theorem ofLe_lt (bytes) : ofLe bytes < 256 ^ bytes.length := by
  induction bytes with
  | nil => exact one_pos
  | cons b bytes ih =>
    have hb := b.toNat_lt
    rw [ofLe, List.length_cons]
    omega

theorem toLe_ofLe (bytes) : toLe bytes.length (ofLe bytes) = bytes := by
  induction bytes with
  | nil => rfl
  | cons b bytes ih =>
    have hb := b.toNat_lt
    have hdiv : (b.toNat + 256 * ofLe bytes) / 256 = ofLe bytes := by omega
    have hbyte : UInt8.ofNat (b.toNat + 256 * ofLe bytes) = b := by
      rw [← UInt8.toNat_inj, UInt8.toNat_ofNat']
      omega
    rw [ofLe, List.length_cons, toLe, hdiv, hbyte, ih]

theorem ofLe_toLe_uint64 (x : UInt64) : ofLe (toLe 8 x.toNat) = x.toNat :=
  ofLe_toLe (by have := x.toNat_lt; omega)

theorem ofLe_zeros (h : ∀ byte ∈ bytes, byte = 0) : ofLe bytes = 0 := by
  induction bytes with
  | nil => rfl
  | cons b bytes ih =>
    rw [ofLe, h b List.mem_cons_self, ih fun byte hb => h byte (List.mem_cons_of_mem b hb)]
    rfl

/-! ## Slices -/

section Slices

variable {α : Type}

/-- `bytes.get(start..stop)`. -/
def slice (bytes : List α) (start stop : Nat) : Option (List α) :=
  if start ≤ stop ∧ stop ≤ bytes.length then some ((bytes.drop start).take (stop - start)) else none

theorem slice_append (hstart : start = before.length)
    (hstop : stop = before.length + part.length) : slice (before ++ (part ++ after)) start stop = some part := by
  subst hstart hstop
  rw [slice, if_pos ⟨by omega, by simp⟩, List.drop_left, Nat.add_sub_cancel_left, List.take_left]

/-- The bytes with those from `start` on replaced by `part`, which ends within them. -/
def overwrite (bytes : List α) (start : Nat) (part : List α) : List α :=
  bytes.take start ++ (part ++ bytes.drop (start + part.length))

section Overwrite

variable {bytes part : List α} {start : Nat}

theorem length_overwrite (h : start + part.length ≤ bytes.length) :
    (overwrite bytes start part).length = bytes.length := by
  simp only [overwrite, List.length_append, List.length_take, List.length_drop]
  omega

/-- What stands where a part was written is the part. -/
theorem take_drop_overwrite_self (part) (h : start ≤ bytes.length) :
    ((overwrite bytes start part).drop start).take part.length = part := by
  have hlen : (bytes.take start).length = start := by simpa using h
  rw [overwrite, List.drop_append_of_le_length hlen.ge, List.drop_of_length_le hlen.le, List.nil_append,
    List.take_left]

/-- What stands before a part that was written is as it was. -/
theorem take_overwrite (hn : n ≤ start) (h : start ≤ bytes.length) :
    (overwrite bytes start part).take n = bytes.take n := by
  have hlen : n ≤ (bytes.take start).length := by simp only [List.length_take]; omega
  rw [overwrite, List.take_append_of_le_length hlen, List.take_take, min_eq_left hn]

/-- What stands after a part that was written is as it was. -/
theorem drop_overwrite (hn : start + part.length ≤ n) (h : start ≤ bytes.length) :
    (overwrite bytes start part).drop n = bytes.drop n := by
  have hlen : (bytes.take start).length = start := by simpa using h
  have hfirst : (bytes.take start).drop n = [] := List.drop_of_length_le (by omega)
  have hsecond : part.drop (n - start) = [] := List.drop_of_length_le (by omega)
  rw [overwrite, List.drop_append, hfirst, hlen, List.nil_append, List.drop_append, hsecond, List.nil_append,
    List.drop_drop]
  congr 1
  omega

/-- A part that reaches the end of the bytes. -/
theorem drop_overwrite_to_end (hn : n ≤ start) (h : start + part.length = bytes.length) :
    (overwrite bytes start part).drop n = (bytes.drop n).take (start - n) ++ part := by
  have hlen : n ≤ (bytes.take start).length := by simp only [List.length_take]; omega
  rw [overwrite, List.drop_of_length_le h.ge, List.append_nil, List.drop_append_of_le_length hlen, List.drop_take]

/-- A field before a part that was written. -/
theorem field_overwrite_before (hn : n + m ≤ start) (h : start ≤ bytes.length) :
    ((overwrite bytes start part).drop n).take m = (bytes.drop n).take m := by
  rw [List.take_drop, List.take_drop, take_overwrite hn h]

end Overwrite

end Slices

end Svm.Bytes
