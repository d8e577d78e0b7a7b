import Mathlib.Algebra.Group.Nat.Defs
import Mathlib.Data.List.Perm.Basic
import Mathlib.Data.Nat.Log

/-!
# Heap-shaped search trees

A binary tree laid out in an array of `n` nodes: the children of the node `o` are
`2 * o + 1` and `2 * o + 2`. `inorder n o` lists the subtree below `o` in order.
From the root on every node comes, and comes once (`perm_inorder`).
-/

namespace Svm.Eytzinger

/-- The nodes below `o`, in order. -/
def inorder (n o : Nat) : List Nat :=
  if o ≥ n then [] else inorder n (2 * o + 1) ++ o :: inorder n (2 * o + 2)
termination_by n - o

/-- `x` is `o` or below it: halving the one-based index of `x` leads to that of `o`. -/
def Below (o x : Nat) : Prop := ∃ k, (x + 1) / 2 ^ k = o + 1

theorem Below.self (o : Nat) : Below o o := ⟨0, by simp⟩

theorem Below.of_child (hc : (c + 1) / 2 = o + 1) (h : Below c x) : Below o x := by
  obtain ⟨k, hk⟩ := h
  exact ⟨k + 1, by rw [pow_succ, ← Nat.div_div_eq_div_mul, hk, hc]⟩

/-- A node is below at most one of two different nodes of which neither is below the
half of the other. -/
theorem Below.disjoint (hab : a ≠ b) (ha : (a + 1) / 2 ≤ b) (hb : (b + 1) / 2 ≤ a)
    (hxa : Below a x) (hxb : Below b x) : False := by
  obtain ⟨j, hj⟩ := hxa
  obtain ⟨k, hk⟩ := hxb
  -- halving further from the one cannot lead up to the other
  have hdown : ∀ {c d p q : Nat}, (c + 1) / 2 ≤ d → (x + 1) / 2 ^ p = c + 1 → (x + 1) / 2 ^ q = d + 1 → ¬ p < q := by
    intro c d p q hcd hp hq hpq
    obtain ⟨e, rfl⟩ := Nat.exists_eq_add_of_lt hpq
    rw [add_assoc, pow_add, ← Nat.div_div_eq_div_mul, hp, pow_succ, mul_comm, ← Nat.div_div_eq_div_mul] at hq
    have := Nat.div_le_self ((c + 1) / 2) (2 ^ e)
    omega
  have h1 := hdown ha hj hk
  have h2 := hdown hb hk hj
  obtain rfl : j = k := by omega
  omega

theorem below_of_mem (h : x ∈ inorder n o) : x < n ∧ Below o x := by
  fun_induction inorder n o with
  | case1 o ho => exact absurd h List.not_mem_nil
  | case2 o ho ihl ihr =>
    rcases List.mem_append.mp h with h | h
    · exact ⟨(ihl h).1, (ihl h).2.of_child (by omega)⟩
    · rcases List.mem_cons.mp h with rfl | h
      · exact ⟨by omega, .self _⟩
      · exact ⟨(ihr h).1, (ihr h).2.of_child (by omega)⟩

theorem nodup_inorder (n o : Nat) : (inorder n o).Nodup := by
  fun_induction inorder n o with
  | case1 o ho => exact List.nodup_nil
  | case2 o ho ihl ihr =>
    refine List.nodup_append.mpr ⟨ihl, List.nodup_cons.mpr ⟨?_, ihr⟩, ?_⟩
    · intro h
      obtain ⟨k, hk⟩ := (below_of_mem h).2
      have := Nat.div_le_self (o + 1) (2 ^ k)
      omega
    · intro x hx y hy hxy
      subst hxy
      have hl := (below_of_mem hx).2
      rcases List.mem_cons.mp hy with rfl | hy
      · obtain ⟨k, hk⟩ := hl
        have := Nat.div_le_self (x + 1) (2 ^ k)
        omega
      · exact hl.disjoint (by omega) (by omega) (by omega) (below_of_mem hy).2

theorem mem_inorder (hx : x < n) (h : Below o x) : x ∈ inorder n o := by
  obtain ⟨k, hk⟩ := h
  fun_induction inorder n o generalizing k with
  | case1 o ho =>
    have := Nat.div_le_self (x + 1) (2 ^ k)
    omega
  | case2 o ho ihl ihr =>
    rw [List.mem_append, List.mem_cons]
    cases k with
    | zero =>
      exact .inr (.inl (by omega))
    | succ k =>
      rw [pow_succ, ← Nat.div_div_eq_div_mul] at hk
      rcases Nat.mod_two_eq_zero_or_one ((x + 1) / 2 ^ k) with heven | hodd
      · exact .inl (ihl k (by omega))
      · exact .inr (.inr (ihr k (by omega)))

/-- Every node is below the root. -/
theorem below_zero (x : Nat) : Below 0 x := by
  refine ⟨Nat.log 2 (x + 1), Nat.div_eq_of_lt_le ?_ ?_⟩
  · rw [Nat.one_mul]
    exact Nat.pow_log_le_self 2 (by omega)
  · have := Nat.lt_pow_succ_log_self (b := 2) (by decide) (x + 1)
    rwa [pow_succ, mul_comm] at this

theorem perm_inorder (n : Nat) : (inorder n 0).Perm (List.range n) :=
  (List.perm_ext_iff_of_nodup (nodup_inorder n 0) List.nodup_range).mpr fun x =>
    ⟨fun h => List.mem_range.mpr (below_of_mem h).1, fun h => mem_inorder (List.mem_range.mp h) (below_zero x)⟩

@[simp] theorem length_inorder (n : Nat) : (inorder n 0).length = n :=
  (perm_inorder n).length_eq.trans List.length_range

end Svm.Eytzinger
