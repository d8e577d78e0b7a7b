import Mathlib.Algebra.BigOperators.Group.List.Basic
import Mathlib.Algebra.Order.BigOperators.Group.List
import Mathlib.Tactic.Linarith

/-!
# Totals over a list

The sum of a measure over a list whose entries are changed one at a time. One
change moves the total by the difference it makes to its entry
(`total_modify`); two lists that differ in their first `n` entries only have
totals less than `n` times the bound of the measure apart (`total_near`).
-/

namespace Svm

variable {α : Type} {l : List α}

/-- The sum of the measure `m` over a list. -/
def total (m : α → Nat) (l : List α) : Int := (l.map fun x => (m x : Int)).sum

@[simp] theorem total_nil (m : α → Nat) : total m [] = 0 := rfl

@[simp] theorem total_cons (m) (x : α) (l) : total m (x :: l) = m x + total m l := by
  simp [total]

theorem total_congr (h : l.map m = l'.map m) : total m l = total m l' := by
  have cast (k : List α) : total m k = ((k.map m).map Nat.cast).sum := by
    simp [total, Function.comp_def]
  rw [cast, cast, h]

theorem total_append (m) (l l' : List α) : total m (l ++ l') = total m l + total m l' := by
  simp [total]

theorem total_modify (m) (f : α → α) (h : l[i]? = some x) :
    total m (l.modify i f) = total m l + (m (f x) - m x) := by
  induction l generalizing i with
  | nil => simp at h
  | cons y l ih =>
    cases i with
    | zero =>
      obtain rfl : y = x := by simpa using h
      simp only [List.modify_zero_cons, total_cons]
      omega
    | succ i =>
      simp only [List.modify_succ_cons, total_cons, ih (by simpa using h)]
      omega

theorem total_nonneg (m) (l : List α) : 0 ≤ total m l := by
  induction l with
  | nil => simp
  | cons x l ih => rw [total_cons]; omega

theorem total_le (m : α → Nat) (h : ∀ x ∈ l, m x ≤ B) : total m l ≤ l.length * B := by
  induction l with
  | nil => simp
  | cons x l ih =>
    have hx := h x List.mem_cons_self
    have hl := ih fun y hy => h y (List.mem_cons_of_mem _ hy)
    simp only [total_cons, List.length_cons]
    push_cast
    linarith [show (m x) ≤ B by exact_mod_cast hx]

theorem total_near {B : Nat} (n : Nat) (hl : ∀ x ∈ l, m x ≤ B)
    (hdrop : (l.drop n).map m = (l'.drop n).map m) : total m l - total m l' ≤ n * B := by
  have hsum : total m (l.drop n) = total m (l'.drop n) := total_congr hdrop
  have hn : total m (l.take n) ≤ n * B := by
    refine (total_le m fun x hx => hl x (List.mem_of_mem_take hx)).trans ?_
    have : (l.take n).length ≤ n := by simp
    exact_mod_cast Nat.mul_le_mul_right B this
  have h := total_append m (l.take n) (l.drop n)
  have h' := total_append m (l'.take n) (l'.drop n)
  rw [List.take_append_drop] at h h'
  have := total_nonneg m (l'.take n)
  omega

end Svm
