import Mathlib.Tactic.Common

/-!
# Guarded dispatch

A `match` on a key with a guard on each arm, as the list of its arms: the first
arm with the key whose guard holds is taken. Two such matches are compared arm
by arm (`select_related`).
-/

namespace Svm.Dispatch

variable {γ γ' κ α β : Type} [DecidableEq κ]

structure Arm (γ κ α : Type) where
  key : κ
  guard : γ → Bool
  body : α

/-- The body of the arm that is taken for the key `k`, where `c` is what the guards
look at. -/
def select (arms : List (Arm γ κ α)) (c : γ) (k : κ) : Option α :=
  (arms.find? fun arm => arm.key == k && arm.guard c).map (·.body)

theorem select_eq_some {k : κ} (h : select arms c k = some b) :
    ∃ arm ∈ arms, arm.key = k ∧ arm.guard c = true ∧ arm.body = b := by
  obtain ⟨arm, hfind, rfl⟩ := Option.map_eq_some_iff.mp h
  have hsome := List.find?_some hfind
  simp only [Bool.and_eq_true, beq_iff_eq] at hsome
  exact ⟨arm, List.mem_of_find?_eq_some hfind, hsome.1, hsome.2, rfl⟩

/-- If each arm of one match that its guard admits is related to the arm the other
match takes for its key, then so are the arms the two take for any key. -/
theorem select_related {R : α → β → Prop} {c : γ}
    {c' : γ'} (harms : ∀ arm ∈ arms, arm.guard c = true → ∃ b, select arms' c' arm.key = some b ∧ R arm.body b)
    {k : κ} (h : select arms c k = some a) : ∃ b, select arms' c' k = some b ∧ R a b := by
  obtain ⟨arm, hmem, rfl, hguard, rfl⟩ := select_eq_some h
  exact harms arm hmem hguard

end Svm.Dispatch
